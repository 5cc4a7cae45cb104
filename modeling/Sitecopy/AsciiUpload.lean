import Sitecopy.FtpCompletion
import Sitecopy.BufferedLines

/-!
# Uploads in ASCII mode

`send_file_ascii` takes what `fgets` reads for a line: it ends what it writes at the first CR,
or else at the LF. Every line end becomes a CR LF as long as each CR stands before an LF and
`fgets` does not read one without the other.
-/
namespace Sitecopy.AsciiUpload
open SiteModel StateProgram BufferedLines FtpSession FtpTransfer FtpReplies FtpCompletion

def cr : UInt8 := 13
def lf : UInt8 := 10

/-- Every LF and every CR LF replaced by CR LF; a CR before an LF is left to the LF. -/
def networkLines : Text → Text
  | [] => []
  | b :: rest =>
    if b = lf then cr :: lf :: networkLines rest
    else if b = cr ∧ rest.head? = some lf then networkLines rest
    else b :: networkLines rest

/-! ### What is written for the buffers -/

/-- `fgets` stops behind an LF. -/
structure Buffer (c : Text) : Prop where
  nonempty : c ≠ []
  stopped : lf ∉ c.dropLast
  nul_free : (0 : UInt8) ∉ c

/-- A CR in the buffer belongs to the line end behind which `fgets` stopped. -/
def Ended (c : Text) : Prop := cr ∉ c ∨ ∃ body, c = body ++ [cr, lf] ∧ cr ∉ body

lemma networkLines_head (t : Text) : (networkLines t).head? ≠ some lf := by
  induction t with
  | nil => simp [networkLines]
  | cons b t ih =>
    rw [networkLines]
    split_ifs with hlf hcr
    · simp [cr, lf]
    · exact ih
    · simpa using hlf

lemma networkLines_plain {p : Text} (hlf : lf ∉ p) (hcr : cr ∉ p) (t : Text) :
    networkLines (p ++ t) = p ++ networkLines t := by
  induction p with
  | nil => rfl
  | cons b p ih =>
    rw [List.mem_cons, not_or] at hlf hcr
    rw [List.cons_append, networkLines, if_neg (Ne.symm hlf.1), if_neg fun h => hcr.1 h.1.symm,
      ih hlf.2 hcr.2]
    rfl

lemma networkLines_lf (t : Text) : networkLines (lf :: t) = cr :: lf :: networkLines t := by
  rw [networkLines, if_pos rfl]

lemma networkLines_crlf (t : Text) : networkLines (cr :: lf :: t) = cr :: lf :: networkLines t := by
  rw [networkLines, if_neg (by decide), if_pos ⟨rfl, rfl⟩, networkLines_lf]

lemma networkLines_cr {t : Text} (h : t.head? ≠ some lf) :
    networkLines (cr :: t) = cr :: networkLines t := by
  rw [networkLines, if_neg (by decide), if_neg fun hc => h hc.2]

section Buffers
variable {c p q : Text}

lemma asciiBuffer_eq (hnul : (0 : UInt8) ∉ c) : asciiBuffer c =
    if cr ∈ c then c.takeWhile (· ≠ cr) ++ [cr, lf]
    else if lf ∈ c then c.takeWhile (· ≠ lf) ++ [cr, lf] else c := by
  have hstr : c.takeWhile (· ≠ 0) = c := by
    rw [List.takeWhile_eq_self_iff]
    intro b hb
    simpa using fun h : b = 0 => hnul (h ▸ hb)
  rw [asciiBuffer, hstr]
  rfl

lemma takeWhile_split {x : UInt8} (hp : x ∉ p) (q : Text) :
    (p ++ x :: q).takeWhile (· ≠ x) = p := by
  rw [List.takeWhile_append_of_pos, List.takeWhile_cons_of_neg (by simp), List.append_nil]
  intro b hb
  simpa using fun h : b = x => hp (h ▸ hb)

lemma first_inj {x : UInt8} {p' q' : Text} (hp : x ∉ p) (hp' : x ∉ p')
    (h : p ++ x :: q = p' ++ x :: q') : p = p' ∧ q = q' := by
  have hhead := congrArg (List.takeWhile (· ≠ x)) h
  rw [takeWhile_split hp, takeWhile_split hp'] at hhead
  subst hhead
  exact ⟨rfl, (List.cons.inj (List.append_cancel_left h)).2⟩

/-- The first CR ends what is written. -/
lemma asciiBuffer_cr (hnul : (0 : UInt8) ∉ p ++ cr :: q) (hp : cr ∉ p) :
    asciiBuffer (p ++ cr :: q) = p ++ [cr, lf] := by
  rw [asciiBuffer_eq hnul, if_pos (by simp), takeWhile_split hp]

lemma asciiBuffer_plain (hc : Buffer c) (hcr : cr ∉ c) (t : Text) :
    networkLines (c ++ t) = asciiBuffer c ++ networkLines t := by
  rw [asciiBuffer_eq hc.nul_free, if_neg hcr]
  split_ifs with hlf
  · obtain ⟨p, b, rfl⟩ : ∃ p b, c = p ++ [b] := ⟨_, _, (List.dropLast_append_getLast hc.nonempty).symm⟩
    have hp : lf ∉ p := by simpa using hc.stopped
    obtain rfl : b = lf := by
      rw [List.mem_append, List.mem_singleton] at hlf
      exact (hlf.resolve_left hp).symm
    have hpcr : cr ∉ p := fun h => hcr (List.mem_append_left _ h)
    rw [takeWhile_split hp, List.append_assoc, networkLines_plain hp hpcr, List.append_assoc]
    exact congrArg (p ++ ·) (networkLines_lf t)
  · exact networkLines_plain hlf hcr t

/-- A buffer that ends where a line does is written as it should. -/
lemma asciiBuffer_ended (hc : Buffer c) (he : Ended c) (t : Text) :
    networkLines (c ++ t) = asciiBuffer c ++ networkLines t := by
  obtain hcr | ⟨body, rfl, hcr⟩ := he
  · exact asciiBuffer_plain hc hcr t
  · have hlf : lf ∉ body := by
      have h := hc.stopped
      rw [List.dropLast_append_of_ne_nil (by simp)] at h
      exact fun hm => h (List.mem_append_left _ hm)
    have hnul := hc.nul_free
    rw [List.append_assoc, networkLines_plain hlf hcr, asciiBuffer_cr hnul hcr, List.append_assoc]
    exact congrArg (body ++ ·) (networkLines_crlf t)

end Buffers

/-- What is written for the buffers of a file. -/
def written (cs : List Text) : Text := (cs.map asciiBuffer).flatten

section Written
variable {cs : List Text}

/-- Where the text behind a buffer starts when the whole starts with a line end. -/
lemma networkLines_starts {c t rest : Text} (hc : Buffer c)
    (h : networkLines (c ++ t) = cr :: lf :: rest) :
    asciiBuffer c = [cr, lf] ∧
      (rest = networkLines t ∨ networkLines t = cr :: lf :: rest) := by
  obtain ⟨b, q, rfl⟩ := List.exists_cons_of_ne_nil hc.nonempty
  have hstop := hc.stopped
  by_cases hb : b = lf
  · subst hb
    obtain rfl : q = [] := by
      by_contra hq
      rw [List.dropLast_cons_of_ne_nil hq] at hstop
      exact hstop List.mem_cons_self
    rw [List.singleton_append, networkLines_lf] at h
    exact ⟨rfl, Or.inl (List.cons.inj (List.cons.inj h).2).2.symm⟩
  · by_cases hcr : b = cr
    · subst hcr
      have hout : asciiBuffer (cr :: q) = [cr, lf] :=
        asciiBuffer_cr (p := []) hc.nul_free List.not_mem_nil
      refine ⟨hout, ?_⟩
      by_cases hq : (q ++ t).head? = some lf
      · cases q with
        | nil =>
          -- the LF of this CR is behind the buffer
          rw [List.singleton_append, networkLines, if_neg (by decide), if_pos ⟨rfl, hq⟩] at h
          exact Or.inr h
        | cons d q =>
          obtain rfl : d = lf := by simpa using hq
          obtain rfl : q = [] := by
            by_contra hne
            rw [List.dropLast_cons_of_ne_nil (by simp), List.dropLast_cons_of_ne_nil hne] at hstop
            exact hstop (List.mem_cons_of_mem _ List.mem_cons_self)
          have hnet : networkLines ([cr, lf] ++ t) = cr :: lf :: networkLines t := networkLines_crlf t
          rw [hnet] at h
          exact Or.inl (List.cons.inj (List.cons.inj h).2).2.symm
      · rw [List.cons_append, networkLines_cr hq] at h
        have hhead := networkLines_head (q ++ t)
        rw [(List.cons.inj h).2] at hhead
        exact absurd rfl hhead
    · rw [List.cons_append, networkLines, if_neg hb, if_neg fun h => hcr h.1] at h
      exact absurd (List.cons.inj h).1 hcr

/-- A surplus line end is never made up for. -/
lemma written_surplus (hcs : ∀ c ∈ cs, Buffer c) (n : ℕ) :
    networkLines cs.flatten ≠ (List.replicate (n + 1) [cr, lf]).flatten ++ written cs := by
  induction cs generalizing n with
  | nil => simp [List.replicate_succ, networkLines]
  | cons c cs ih =>
    have hrest := ih fun c hm => hcs c (List.mem_cons_of_mem _ hm)
    intro heq
    rw [List.flatten_cons, List.replicate_succ, List.flatten_cons, List.append_assoc] at heq
    obtain ⟨hout, hnet⟩ := networkLines_starts (hcs c List.mem_cons_self) heq
    have hmore : (List.replicate n [cr, lf]).flatten ++ written (c :: cs) =
        (List.replicate (n + 1) [cr, lf]).flatten ++ written cs := by
      rw [written, List.map_cons, List.flatten_cons, hout, ← written, List.replicate_succ',
        List.flatten_concat, List.append_assoc]
    obtain hnet | hnet := hnet
    · exact hrest n (hnet.symm.trans hmore)
    · apply hrest (n + 1)
      rw [hnet, List.replicate_succ, List.flatten_cons, List.append_assoc, ← hmore]
      rfl

/-- A buffer that is cut at a CR writes an LF that is not in its place. -/
lemma written_cut {p q : Text} (hc : Buffer (p ++ cr :: q)) (hp : cr ∉ p)
    (he : ¬ Ended (p ++ cr :: q)) (hcs : ∀ c ∈ cs, Buffer c) :
    written ((p ++ cr :: q) :: cs) ≠ networkLines (p ++ cr :: q ++ cs.flatten) := by
  have hstop := hc.stopped
  rw [List.dropLast_append_of_ne_nil (by simp), List.mem_append, not_or] at hstop
  rw [written, List.map_cons, List.flatten_cons, asciiBuffer_cr hc.nul_free hp, ← written,
    List.append_assoc, List.append_assoc, List.cons_append, networkLines_plain hstop.1 hp]
  intro heq
  have htail : cr :: lf :: written cs = networkLines (cr :: (q ++ cs.flatten)) :=
    List.append_cancel_left heq
  by_cases ht : (q ++ cs.flatten).head? = some lf
  · cases q with
    | nil =>
      -- the buffer ends between the CR and its LF
      rw [networkLines, if_neg (by decide), if_pos ⟨rfl, ht⟩] at htail
      exact written_surplus hcs 0 htail.symm
    | cons d q =>
      obtain rfl : d = lf := by simpa using ht
      apply he
      obtain rfl : q = [] := by
        by_contra hne
        apply hstop.2
        rw [List.dropLast_cons_of_ne_nil (by simp), List.dropLast_cons_of_ne_nil hne]
        exact List.mem_cons_of_mem _ List.mem_cons_self
      exact Or.inr ⟨p, rfl, hp⟩
  · rw [networkLines_cr ht] at htail
    have hhead := networkLines_head (q ++ cs.flatten)
    rw [← (List.cons.inj htail).2] at hhead
    exact hhead rfl

/-- The buffers are written as they should if and only if every CR belongs to a line end
that `fgets` read as a whole. -/
theorem written_iff (hcs : ∀ c ∈ cs, Buffer c) :
    written cs = networkLines cs.flatten ↔ ∀ c ∈ cs, Ended c := by
  induction cs with
  | nil => simp [written, networkLines]
  | cons c cs ih =>
    have hc := hcs c List.mem_cons_self
    have hrest : ∀ c ∈ cs, Buffer c := fun c hm => hcs c (List.mem_cons_of_mem _ hm)
    rw [List.flatten_cons, List.forall_mem_cons]
    by_cases he : Ended c
    · rw [asciiBuffer_ended hc he, written, List.map_cons, List.flatten_cons,
        List.append_cancel_left_eq, ← written, ih hrest]
      exact (and_iff_right he).symm
    · refine iff_of_false ?_ fun h => he h.1
      have hcr : cr ∈ c := by
        by_contra h
        exact he (Or.inl h)
      obtain ⟨p, q, rfl, hp⟩ := List.eq_append_cons_of_mem hcr
      exact written_cut hc hp he hrest

end Written

/-! ### The lines of the file -/

/-- A CR in the line belongs to its end, and `fgets` does not fill its buffer with that CR. -/
def Whole (line : Text) : Prop :=
  cr ∉ line ∨ ∃ body, line = body ++ [cr, lf] ∧ cr ∉ body ∧ ¬ bufsiz - 2 ∣ body.length + 1

/-- The file as `send_file_ascii` reads it. -/
def buffers (content : Text) : List Text := pieces (· = lf) (bufsiz - 2) [] content

section Lines
variable {acc t pre : Text}

lemma pieces_buffer {max : ℕ} (hacc : lf ∉ acc) (hnul : (0 : UInt8) ∉ acc ++ t) :
    ∀ c ∈ pieces (· = lf) max acc t, Buffer c := by
  induction t generalizing acc with
  | nil =>
    intro c hc
    rw [pieces] at hc
    split_ifs at hc with hnil
    · exact absurd hc List.not_mem_nil
    · obtain rfl := List.mem_singleton.mp hc
      exact ⟨hnil, fun h => hacc (List.mem_of_mem_dropLast h), by simpa using hnul⟩
  | cons b t ih =>
    intro c hc
    rw [pieces] at hc
    split_ifs at hc with hcut
    · rcases List.mem_cons.mp hc with rfl | hc
      · refine ⟨by simp, by simpa using hacc, fun h => hnul ?_⟩
        rw [List.append_cons]
        exact List.mem_append_left _ h
      · refine ih List.not_mem_nil (fun h => hnul ?_) c hc
        exact List.mem_append_right _ (List.mem_cons_of_mem _ h)
    · have hb : b ≠ lf := by
        rintro rfl
        exact hcut (by simp)
      refine ih ?_ (by simpa using hnul) c hc
      rw [List.mem_append, List.mem_singleton, not_or]
      exact ⟨hacc, Ne.symm hb⟩

lemma ended_of_lf {c : Text} (hc : lf ∉ c) : Ended c ↔ cr ∉ c := by
  refine or_iff_left ?_
  rintro ⟨body, rfl, -⟩
  simp at hc

/-- The last buffer of a line is right if and only if the line is. -/
lemma ended_iff_whole (hpre : cr ∉ pre) (hdvd : bufsiz - 2 ∣ pre.length)
    (hacc : acc.length < bufsiz - 2) :
    Ended (acc ++ [lf]) ↔ Whole (pre ++ acc ++ [lf]) := by
  have hmem : cr ∈ pre ++ acc ++ [lf] ↔ cr ∈ acc ++ [lf] := by simp [hpre]
  unfold Ended Whole
  rw [hmem]
  refine or_congr_right ?_
  constructor
  · rintro ⟨body, hbody, hcr⟩
    obtain rfl : acc = body ++ [cr] := by
      have h : acc ++ [lf] = (body ++ [cr]) ++ [lf] := by simpa using hbody
      exact List.append_cancel_right h
    refine ⟨pre ++ body, by simp, by simp [hpre, hcr], ?_⟩
    rw [List.length_append, Nat.add_assoc, Nat.dvd_add_right hdvd]
    rw [List.length_append, List.length_singleton] at hacc
    exact Nat.not_dvd_of_pos_of_lt (by omega) hacc
  · rintro ⟨body, hbody, hcr, -⟩
    have h : pre ++ acc = body ++ [cr] := by
      have h : (pre ++ acc) ++ [lf] = (body ++ [cr]) ++ [lf] := by simpa using hbody
      exact List.append_cancel_right h
    cases acc using List.reverseRecOn with
    | nil =>
      rw [List.append_nil] at h
      exact absurd (h ▸ by simp) hpre
    | append_singleton acc b =>
      rw [← List.append_assoc] at h
      obtain ⟨rfl, hb⟩ := List.append_inj' h rfl
      obtain rfl : b = cr := List.singleton_inj.mp hb
      refine ⟨acc, by simp, fun hm => hcr (List.mem_append_right _ hm)⟩

/-- A line with a CR before its last buffer is not whole. -/
lemma not_whole {c : Text} (hpre : cr ∉ pre) (hdvd : bufsiz - 2 ∣ pre.length)
    (hlen : c.length = bufsiz - 2) (hlf : lf ∉ c) (hcr : cr ∈ c) (l : Text) :
    ¬ Whole (pre ++ c ++ l) := by
  rintro (h | ⟨body, hbody, hno, hnot⟩)
  · exact h (List.mem_append_left _ (List.mem_append_right _ hcr))
  · obtain ⟨p, q, rfl, hp⟩ := List.eq_append_cons_of_mem hcr
    have hsplit : (pre ++ p) ++ cr :: (q ++ l) = body ++ cr :: [lf] := by simpa using hbody
    have hp' : cr ∉ pre ++ p := by simp [hpre, hp]
    obtain ⟨rfl, hrest⟩ := first_inj hp' hno hsplit
    cases q with
    | nil =>
      apply hnot
      rw [List.length_append, Nat.add_assoc]
      rw [List.length_append, List.length_singleton] at hlen
      exact Nat.dvd_add hdvd (hlen ▸ dvd_refl _)
    | cons d q =>
      obtain rfl : d = lf := (List.cons.inj hrest).1
      exact hlf (by simp)

/-- `pre` is what earlier buffers hold of the line that `acc` goes on with. -/
lemma pieces_ended (pre acc : Text) (hpre : cr ∉ pre) (hlf : lf ∉ pre ++ acc)
    (hdvd : bufsiz - 2 ∣ pre.length) (hacc : acc.length < bufsiz - 2) :
    (∀ c ∈ pieces (· = lf) (bufsiz - 2) acc t, Ended c) ↔
      ∀ line ∈ linesOf lf (pre ++ acc ++ t), Whole line := by
  induction t generalizing pre acc with
  | nil =>
    have hno : lf ∉ acc := fun h => hlf (List.mem_append_right _ h)
    rw [pieces, List.append_nil, linesOf_rest hlf]
    by_cases hnil : acc = []
    · subst hnil
      have hwhole : Whole pre := Or.inl hpre
      simp [hwhole]
    · have hne : pre ++ acc ≠ [] := by simp [hnil]
      have hiff : Whole (pre ++ acc) ↔ cr ∉ acc := by
        refine (or_iff_left ?_).trans (by simp [hpre])
        rintro ⟨body, hbody, -⟩
        rw [hbody] at hlf
        simp at hlf
      simp [hnil, hne, ended_of_lf hno, hiff]
  | cons b t ih =>
    by_cases hb : b = lf
    · subst hb
      have hnext := ih [] [] List.not_mem_nil List.not_mem_nil
        (dvd_zero _) (by decide)
      rw [pieces, if_pos (by simp), linesOf_line hlf, List.forall_mem_cons, List.forall_mem_cons,
        ended_iff_whole hpre hdvd hacc]
      exact and_congr_right' hnext
    · have hlf' : lf ∉ pre ++ (acc ++ [b]) := by
        rw [← List.append_assoc, List.mem_append, List.mem_singleton, not_or]
        exact ⟨hlf, Ne.symm hb⟩
      have hcons : pre ++ acc ++ b :: t = pre ++ (acc ++ [b]) ++ t := by simp
      by_cases hfull : (acc ++ [b]).length = bufsiz - 2
      · have hno : lf ∉ acc ++ [b] := fun h => hlf' (List.mem_append_right _ h)
        rw [pieces, if_pos (by simp [hfull]), List.forall_mem_cons, ended_of_lf hno, hcons]
        by_cases hcr : cr ∈ acc ++ [b]
        · refine iff_of_false (fun h => h.1 hcr) fun h => ?_
          obtain ⟨l, hl⟩ := linesOf_starts hlf' (by simp) t
          exact not_whole hpre hdvd hfull hno hcr l (h _ hl)
        · have hnext := ih (pre ++ (acc ++ [b])) [] (by simp [hpre, hcr])
            (by simpa using hlf') (by rw [List.length_append, hfull]; exact Nat.dvd_add hdvd (dvd_refl _))
            (by decide)
          rw [List.append_nil] at hnext
          rw [hnext]
          exact and_iff_right hcr
      · rw [pieces, if_neg (by simpa [hb] using hfull), hcons]
        refine ih pre (acc ++ [b]) hpre hlf' hdvd ?_
        rw [List.length_append, List.length_singleton] at hfull ⊢
        omega

end Lines

/-! ### The upload -/

section Upload
variable {ω : Type} {net : Network ω} {content : Text}

lemma buffers_ended (content : Text) :
    (∀ c ∈ buffers content, Ended c) ↔ ∀ line ∈ linesOf lf content, Whole line :=
  pieces_ended [] [] List.not_mem_nil List.not_mem_nil (dvd_zero _) (by decide)

/-- No write to the data connection fails, and the file can be read. -/
structure Reliable (net : Network ω) : Prop where
  write : ∀ buffer w, ((net.dtpWrite buffer).run w).1 = none
  read : ∀ w, (net.ferror.run w).1 = none

lemma sendBuffers_reliable (h : Reliable net) (cs : List Text) (s : Client ω) :
    Ends (sendBuffers net cs) s fun ok t => ok = true ∧ t.data = s.data ++ cs.flatten := by
  induction cs generalizing s with
  | nil =>
    rw [sendBuffers, ends_pure]
    simp
  | cons c cs ih =>
    simp only [sendBuffers, ends_bind, ends_outside]
    rw [ends_run, h.write, ends_bind, ends_modify]
    apply (ih _).mono
    intro ok t ht
    rw [List.flatten_cons, ← List.append_assoc]
    exact ht

lemma sendFile_written (h : Reliable net) (content : Text) (s : Client ω) :
    Ends (sendFile net true content) s fun ok t =>
      ok = true ∧ t.data = s.data ++ written (buffers content) := by
  simp only [sendFile, ends_bind, ends_outside, ends_pure, if_true]
  rw [ends_run, h.read]
  apply (sendBuffers_reliable h _ _).mono
  intro ok t ht
  exact ⟨by simp [ht.1], ht.2⟩

/-- Every line end arrives as CR LF and everything else as it is if and only if each line
is whole. -/
theorem ascii_upload_iff (h : Reliable net) (hnul : (0 : UInt8) ∉ content) (s : Client ω) :
    Ends (sendFile net true content) s fun ok t => ok = true ∧
      (t.data = s.data ++ networkLines content ↔ ∀ line ∈ linesOf lf content, Whole line) := by
  apply (sendFile_written h content s).mono
  intro ok t ht
  refine ⟨ht.1, ?_⟩
  have hbuf : ∀ c ∈ buffers content, Buffer c := pieces_buffer List.not_mem_nil (by simpa using hnul)
  have hflat : (buffers content).flatten = content := pieces_flatten _ _ _ _
  rw [ht.2, List.append_cancel_left_eq, ← buffers_ended, ← written_iff hbuf, hflat]

end Upload

lemma accepting_reliable : Reliable acceptingNetwork := ⟨fun _ _ => rfl, fun _ => rfl⟩

theorem ascii_upload_iff_text :
    Ends (sendFile acceptingNetwork true (ascii "one" ++ [lf] ++ ascii "two" ++ [cr, lf]))
      missingStart fun ok t => ok = true ∧
        (t.data = missingStart.data ++
            networkLines (ascii "one" ++ [lf] ++ ascii "two" ++ [cr, lf]) ↔
          ∀ line ∈ linesOf lf (ascii "one" ++ [lf] ++ ascii "two" ++ [cr, lf]), Whole line) :=
  ascii_upload_iff accepting_reliable (by decide) missingStart

def cutLine : Text := ascii "one" ++ [cr] ++ ascii "two" ++ [lf]

/-- Behind a CR in the middle of a line the rest of the line is lost. -/
theorem line_cut_at_cr :
    Reliable acceptingNetwork ∧ (0 : UInt8) ∉ cutLine ∧
      ((sendFile acceptingNetwork true cutLine).run missingStart).2.data = ascii "one" ++ [cr, lf] ∧
      ((sendFile acceptingNetwork true cutLine).run missingStart).2.data ≠
        missingStart.data ++ networkLines cutLine :=
  ⟨accepting_reliable, by decide, by decide +kernel, by decide +kernel⟩

end Sitecopy.AsciiUpload
