import Sitecopy.FtpReplies

/-!
# Framing of replies on the bytes of the control connection

`ne_sock_readline` over the buffer of a socket, however the bytes arrive, and `read_reply`
over `ne_sock_readline`. A line that does not fit into the buffer of the socket is an
error, whatever room the caller has.
-/
namespace Sitecopy.ReplyFraming
open SiteModel FtpSession FtpReplies

/-- `RDBUFSIZ`. -/
def rdbufsiz : ℕ := 4096

/-- `ne_socket`: the bytes in its buffer, and the pieces in which further bytes arrive. An
empty piece stands for the end of the connection. -/
structure Socket where
  buffered : Text
  incoming : List Text
  deriving DecidableEq, Repr

/-- The loop of `ne_sock_readline`, which reads until there is a newline or the buffer is
full. When nothing more comes, the read times out. -/
def fill : List Text → Text → Except SockError Socket
  | [], _ => .error .timeout
  | piece :: rest, buffered =>
    if piece = [] then .error .closed
    else
      let room := rdbufsiz - buffered.length
      let more := buffered ++ piece.take room
      if 10 ∉ more ∧ more.length < rdbufsiz then fill rest more
      else .ok { buffered := more
                 incoming := if room < piece.length then piece.drop room :: rest else rest }

/-- The end of `ne_sock_readline`: the line in the buffer, if there is one that fits. -/
def takeLine (buflen : ℕ) (s : Socket) : Except SockError (Text × Socket) :=
  let len := if 10 ∈ s.buffered then (s.buffered.takeWhile (· ≠ 10)).length + 1 else buflen
  if buflen < len + 1 then .error .error
  else .ok (s.buffered.take len, { s with buffered := s.buffered.drop len })

/-- `ne_sock_readline`. -/
def readline (buflen : ℕ) (s : Socket) : Except SockError (Text × Socket) :=
  if 10 ∉ s.buffered ∧ s.buffered.length < rdbufsiz then
    fill s.incoming s.buffered >>= takeLine buflen
  else takeLine buflen s

def Socket.size (s : Socket) : ℕ := (s.buffered ++ s.incoming.flatten).length

/-- The loop of `read_reply`: the code, the last line, and what is left. -/
def readReplyLoop : ℕ → ℕ → ℕ → Socket → Except SockError (ℕ × Text × Socket)
  | 0, _, _, _ => .error .error
  | fuel + 1, code, multiline, s => do
    let r ← readline (bufsiz - 1) s
    let next := replyStep r.1 code multiline
    if next.2 = 0 then pure (next.1, r.1, r.2) else readReplyLoop fuel next.1 next.2 r.2

/-- `read_reply`. Every turn of its loop takes at least one byte. -/
def readReplyBytes (s : Socket) : Except FtpCode (ℕ × Socket) :=
  match readReplyLoop s.size 0 0 s with
  | .error e => .error (if e.piBroken then .broken else .error)
  | .ok r => .ok (r.1, r.2.2)

/-- The connection after `n` calls of `read_reply`. -/
def afterReads : ℕ → Socket → Except FtpCode Socket
  | 0, s => .ok s
  | n + 1, s => do
    let r ← readReplyBytes s
    afterReads n r.2

/-- These bytes are what is still to be read. -/
structure Socket.Holds (s : Socket) (bytes : Text) : Prop where
  bytes_eq : s.buffered ++ s.incoming.flatten = bytes
  small : s.buffered.length ≤ rdbufsiz
  open_yet : [] ∉ s.incoming

def linesOfReply (r : Reply) : List Text := r.more ++ [r.last]

def bytesOf (r : Reply) : Text := (linesOfReply r).flatten

/-! ### Reading a line -/

section Readline
variable {s : Socket} {body rest bytes : Text}

/-- Filling ends with a newline or a full buffer, and loses nothing. -/
lemma fill_holds (incoming : List Text) (buffered : Text)
    (hnone : 10 ∉ buffered) (hroom : buffered.length < rdbufsiz) (hopen : [] ∉ incoming)
    (hend : 10 ∈ buffered ++ incoming.flatten ∨
      rdbufsiz ≤ (buffered ++ incoming.flatten).length) :
    ∃ s, fill incoming buffered = .ok s ∧ s.Holds (buffered ++ incoming.flatten) ∧
      (10 ∈ s.buffered ∨ s.buffered.length = rdbufsiz) := by
  induction incoming generalizing buffered with
  | nil =>
    rw [List.flatten_nil, List.append_nil] at hend
    obtain h10 | hfull := hend
    · exact absurd h10 hnone
    · omega
  | cons piece rest ih =>
    have hpiece : piece ≠ [] := fun h => hopen (by simp [h])
    have hrest : [] ∉ rest := fun h => hopen (List.mem_cons_of_mem piece h)
    have hlen : (buffered ++ piece.take (rdbufsiz - buffered.length)).length =
        min rdbufsiz (buffered.length + piece.length) := by
      rw [List.length_append, List.length_take]
      omega
    have hstop : ¬ (10 ∉ buffered ++ piece.take (rdbufsiz - buffered.length) ∧
          (buffered ++ piece.take (rdbufsiz - buffered.length)).length < rdbufsiz) →
        10 ∈ buffered ++ piece.take (rdbufsiz - buffered.length) ∨
          (buffered ++ piece.take (rdbufsiz - buffered.length)).length = rdbufsiz := by
      intro h
      by_cases h10 : 10 ∈ buffered ++ piece.take (rdbufsiz - buffered.length)
      · exact Or.inl h10
      · have := not_and.mp h h10
        exact Or.inr (by omega)
    rw [fill, if_neg hpiece]
    simp only
    split_ifs with hmore hcut
    · have hall : piece.take (rdbufsiz - buffered.length) = piece :=
        List.take_of_length_le (by omega)
      rw [hall] at hmore ⊢
      have hflat : buffered ++ (piece :: rest).flatten = buffered ++ piece ++ rest.flatten := by
        simp
      rw [hflat] at hend ⊢
      exact ih (buffered ++ piece) hmore.1 hmore.2 hrest hend
    · refine ⟨_, rfl, ⟨?_, by simp only [hlen]; omega, ?_⟩, ?_⟩
      · rw [List.flatten_cons, List.append_assoc, ← List.append_assoc (piece.take _),
          List.take_append_drop, List.flatten_cons]
      · intro h
        obtain h | h := List.mem_cons.mp h
        · have := congrArg List.length h
          simp only [List.length_nil, List.length_drop] at this
          omega
        · exact hrest h
      · exact hstop hmore
    · have hall : piece.take (rdbufsiz - buffered.length) = piece :=
        List.take_of_length_le (by omega)
      refine ⟨_, rfl, ⟨?_, by simp only [hlen]; omega, hrest⟩, ?_⟩
      · rw [hall, List.flatten_cons, List.append_assoc]
      · exact hstop hmore

/-- Before a line is taken, the buffer holds a newline or is full. -/
lemma readline_filled (buflen : ℕ) (hs : s.Holds bytes)
    (hend : 10 ∈ bytes ∨ rdbufsiz ≤ bytes.length) :
    ∃ s' : Socket, s'.Holds bytes ∧ (10 ∈ s'.buffered ∨ s'.buffered.length = rdbufsiz) ∧
      readline buflen s = takeLine buflen s' := by
  unfold readline
  split_ifs with hempty
  · obtain rfl := hs.bytes_eq
    obtain ⟨s', hfill, hs', hstop⟩ :=
      fill_holds s.incoming s.buffered hempty.1 hempty.2 hs.open_yet hend
    exact ⟨s', hs', hstop, by rw [hfill]; rfl⟩
  · have hstop : 10 ∈ s.buffered ∨ s.buffered.length = rdbufsiz := by
      by_cases h10 : 10 ∈ s.buffered
      · exact Or.inl h10
      · have := not_and.mp hempty h10
        have := hs.small
        exact Or.inr (by omega)
    exact ⟨s, hs, hstop, rfl⟩

/-- The buffer is a prefix of the line, or the line is in it. -/
lemma buffered_cases (hs : s.Holds (body ++ 10 :: rest)) (hbody : 10 ∉ body) :
    10 ∉ s.buffered ∧ s.buffered.length ≤ body.length ∨
      ∃ more, s.buffered = body ++ 10 :: more ∧ more ++ s.incoming.flatten = rest := by
  obtain ⟨pre, hpre, hrest⟩ | ⟨more, hmore, hrest⟩ := List.append_eq_append_iff.mp hs.bytes_eq
  · left
    rw [hpre] at hbody
    exact ⟨fun h => hbody (List.mem_append_left pre h), by rw [hpre, List.length_append]; omega⟩
  · cases more with
    | nil =>
      rw [List.append_nil] at hmore
      exact Or.inl ⟨by rwa [hmore], by rw [hmore]⟩
    | cons c more =>
      obtain ⟨rfl, htail⟩ := List.cons.inj hrest
      exact Or.inr ⟨more, hmore, htail.symm⟩

/-- A line that fits into the buffer is taken, and nothing else. -/
theorem readline_line (hs : s.Holds (body ++ 10 :: rest)) (hbody : 10 ∉ body)
    (hfit : (body ++ [10]).length ≤ rdbufsiz) :
    ∃ s', readline (bufsiz - 1) s = .ok (body ++ [10], s') ∧ s'.Holds rest := by
  obtain ⟨s1, hs1, hstop, hread⟩ := readline_filled (bufsiz - 1) hs (Or.inl (by simp))
  rw [List.length_append, List.length_singleton] at hfit
  obtain ⟨hnone, hshort⟩ | ⟨more, hmore, hrest⟩ := buffered_cases hs1 hbody
  · obtain h10 | hfull := hstop
    · exact absurd h10 hnone
    · omega
  · have hmem : 10 ∈ body ++ 10 :: more := by simp
    have hlen : ((body ++ 10 :: more).takeWhile (· ≠ 10)).length = body.length := by
      rw [List.takeWhile_append_of_pos fun b hb => by
        have : b ≠ 10 := fun h => hbody (h ▸ hb)
        simpa using this]
      simp
    have hroom : ¬ bufsiz - 1 < body.length + 1 + 1 := by
      have : rdbufsiz + 1 ≤ bufsiz - 1 := by decide
      omega
    have hdrop : (body ++ 10 :: more).drop (body.length + 1) = more := by simp
    have htake : (body ++ 10 :: more).take (body.length + 1) = body ++ [10] := by
      rw [List.take_length_add_append]
      rfl
    rw [hread, takeLine, hmore]
    simp only [hmem, ↓reduceIte, hlen, hroom, hdrop, htake]
    refine ⟨_, rfl, hrest, ?_, hs1.open_yet⟩
    have hsmall := hs1.small
    rw [hmore, List.length_append, List.length_cons] at hsmall
    show more.length ≤ rdbufsiz
    omega

/-- A line that does not is an error. -/
theorem readline_long (hs : s.Holds (body ++ rest)) (hbody : 10 ∉ body)
    (hlong : rdbufsiz ≤ body.length) (buflen : ℕ) : readline buflen s = .error .error := by
  obtain ⟨s1, hs1, -, hread⟩ :=
    readline_filled buflen hs (Or.inr (by rw [List.length_append]; omega))
  have hnone : 10 ∉ s1.buffered := by
    have hpre : s1.buffered <+: body :=
      List.prefix_of_prefix_length_le ⟨_, hs1.bytes_eq⟩ (List.prefix_append body rest)
        (hs1.small.trans hlong)
    exact fun h => hbody (hpre.subset h)
  rw [hread, takeLine, if_neg hnone]
  exact if_pos (Nat.lt_succ_self buflen)

end Readline

/-! ### Reading a reply -/

/-- A line with its newline, short enough for the buffer of the socket. -/
def IsLine (t : Text) : Prop := (∃ body, t = body ++ [10] ∧ 10 ∉ body) ∧ t.length ≤ rdbufsiz

/-- The lines of the reply are short enough. -/
def Fits (r : Reply) : Prop := ∀ t ∈ linesOfReply r, t.length ≤ rdbufsiz

section Reading
variable {s : Socket} {r : Reply} {tail : Text}

lemma linesOfReply_isLine (hfit : Fits r) {t : Text} (ht : t ∈ linesOfReply r) : IsLine t := by
  refine ⟨?_, hfit t ht⟩
  obtain hmore | hlast := List.mem_append.mp ht
  · exact r.one_line_each t hmore
  · obtain rfl := List.mem_singleton.mp hlast
    refine ⟨codeDigits r.code ++ 32 :: r.text ++ [13], by simp [Reply.last], ?_⟩
    have hdigits : 10 ∉ codeDigits r.code := fun h =>
      absurd (codeDigits_isDigit r.three_digits.2 10 h) (by decide)
    simp [hdigits, r.one_line]

/-- One turn of the loop, at a line that fits. -/
lemma readReplyLoop_line {t : Text} (ht : IsLine t) (hs : s.Holds (t ++ tail))
    (fuel code multiline : ℕ) :
    ∃ s' : Socket, s'.Holds tail ∧ readReplyLoop (fuel + 1) code multiline s =
      if (replyStep t code multiline).2 = 0 then .ok ((replyStep t code multiline).1, t, s')
      else readReplyLoop fuel (replyStep t code multiline).1 (replyStep t code multiline).2 s' := by
  obtain ⟨⟨body, rfl, hbody⟩, hfit⟩ := ht
  rw [List.append_assoc, List.singleton_append] at hs
  obtain ⟨s', hread, hs'⟩ := readline_line hs hbody hfit
  refine ⟨s', hs', ?_⟩
  rw [readReplyLoop, hread]
  rfl

/-- From any line between the first and the last, the loop goes on to the last one. -/
lemma readReplyLoop_between (mid : List Text) (hmid : ∀ t ∈ mid, t ∈ r.more.tail) (hfit : Fits r)
    (hs : s.Holds ((mid ++ [r.last]).flatten ++ tail)) {fuel : ℕ} (hfuel : mid.length < fuel)
    (before : ℕ) :
    ∃ s' : Socket, s'.Holds tail ∧ readReplyLoop fuel before r.code s = .ok (r.code, r.last, s') := by
  obtain ⟨fuel, rfl⟩ : ∃ n, fuel = n + 1 := ⟨fuel - 1, by omega⟩
  induction mid generalizing s fuel before with
  | nil =>
    have hlast := linesOfReply_isLine hfit (List.mem_append_right r.more (List.mem_singleton_self _))
    rw [List.nil_append, List.flatten_singleton] at hs
    obtain ⟨s', hs', hstep⟩ := readReplyLoop_line hlast hs fuel before r.code
    rw [replyStep_last r before r.code (Or.inr rfl), if_pos rfl] at hstep
    exact ⟨s', hs', hstep⟩
  | cons t mid ih =>
    have h0 : r.code ≠ 0 := by have := r.three_digits.1; omega
    have htail := hmid t List.mem_cons_self
    have ht := linesOfReply_isLine hfit (List.mem_append_left _ (List.mem_of_mem_tail htail))
    rw [List.cons_append, List.flatten_cons, List.append_assoc] at hs
    obtain ⟨s1, hs1, hstep⟩ := readReplyLoop_line ht hs fuel before r.code
    rw [replyStep_between r htail before, if_neg h0] at hstep
    rw [List.length_cons] at hfuel
    obtain ⟨fuel, rfl⟩ : ∃ n, fuel = n + 1 := ⟨fuel - 1, by omega⟩
    obtain ⟨s', hs', hrest⟩ := ih (fun u hu => hmid u (List.mem_cons_of_mem t hu)) hs1
      (replyStep t before r.code).1 fuel (by omega)
    exact ⟨s', hs', hstep.trans hrest⟩

lemma length_le_flatten {ls : List Text} (h : ∀ t ∈ ls, t ≠ []) :
    ls.length ≤ ls.flatten.length := by
  induction ls with
  | nil => simp
  | cons t ls ih =>
    have ht := List.length_pos_iff.mpr (h t List.mem_cons_self)
    have hrest := ih fun u hu => h u (List.mem_cons_of_mem t hu)
    rw [List.length_cons, List.flatten_cons, List.length_append]
    omega

/-- There are enough bytes for the turns that the lines of a reply need. -/
lemma length_le_size (hs : s.Holds (bytesOf r ++ tail)) : (linesOfReply r).length ≤ s.size := by
  have hlines : ∀ t ∈ linesOfReply r, t ≠ [] := by
    intro t ht
    obtain hmore | hlast := List.mem_append.mp ht
    · obtain ⟨body, rfl, -⟩ := r.one_line_each t hmore
      simp
    · obtain rfl := List.mem_singleton.mp hlast
      simp [Reply.last]
  rw [Socket.size, hs.bytes_eq, List.length_append]
  exact (length_le_flatten hlines).trans (Nat.le_add_right _ _)

/-- `read_reply` takes exactly the lines of one reply. -/
theorem readReplyBytes_reply (hfit : Fits r) (hs : s.Holds (bytesOf r ++ tail)) :
    ∃ s' : Socket, s'.Holds tail ∧ readReplyBytes s = .ok (r.code, s') := by
  have hsize := length_le_size hs
  have hloop : ∃ s' : Socket, s'.Holds tail ∧
      readReplyLoop s.size 0 0 s = .ok (r.code, r.last, s') := by
    generalize s.size = fuel at hsize ⊢
    have hlast := linesOfReply_isLine hfit (List.mem_append_right r.more (List.mem_singleton_self _))
    rw [linesOfReply, List.length_append, List.length_singleton] at hsize
    rw [bytesOf, linesOfReply] at hs
    obtain ⟨fuel, rfl⟩ : ∃ n, fuel = n + 1 := ⟨fuel - 1, by omega⟩
    cases hmore : r.more with
    | nil =>
      rw [hmore, List.nil_append, List.flatten_singleton] at hs
      obtain ⟨s', hs', hstep⟩ := readReplyLoop_line hlast hs fuel 0 0
      rw [replyStep_last r 0 0 (Or.inl rfl), if_pos rfl] at hstep
      exact ⟨s', hs', hstep⟩
    | cons first mid =>
      have h0 : r.code ≠ 0 := by have := r.three_digits.1; omega
      have hfirst : first ∈ linesOfReply r := by simp [linesOfReply, hmore]
      rw [hmore, List.cons_append, List.flatten_cons, List.append_assoc] at hs
      obtain ⟨s1, hs1, hstep⟩ := readReplyLoop_line (linesOfReply_isLine hfit hfirst) hs fuel 0 0
      rw [replyStep_first r (t := first) (by simp [hmore]), if_neg h0] at hstep
      rw [hmore, List.length_cons] at hsize
      obtain ⟨s', hs', hrest⟩ := readReplyLoop_between mid (by simp [hmore]) hfit hs1
        (show mid.length < fuel by omega) r.code
      exact ⟨s', hs', hstep.trans hrest⟩
  obtain ⟨s', hs', hread⟩ := hloop
  exact ⟨s', hs', by rw [readReplyBytes, hread]⟩

/-- `read_reply` fails at a line that does not fit. -/
theorem readReplyBytes_long {body : Text} (rest : Text) (hs : s.Holds (body ++ rest)) (hbody : 10 ∉ body)
    (hlong : rdbufsiz ≤ body.length) : readReplyBytes s = .error .error := by
  have hloop : readReplyLoop s.size 0 0 s = .error .error := by
    cases s.size with
    | zero => rfl
    | succ fuel =>
      rw [readReplyLoop, readline_long hs hbody hlong]
      rfl
  rw [readReplyBytes, hloop]
  rfl

/-- Every call of `read_reply` takes the lines of the next reply and returns its code. -/
theorem replies_framed (before after : List Reply) (r : Reply) (tail : Text) (s : Socket)
    (hfit : ∀ q ∈ before ++ r :: after, Fits q)
    (hs : s.Holds ((before ++ r :: after).flatMap bytesOf ++ tail)) :
    ∃ s1 s2 : Socket, afterReads before.length s = .ok s1 ∧
      s1.Holds ((r :: after).flatMap bytesOf ++ tail) ∧
      readReplyBytes s1 = .ok (r.code, s2) ∧ s2.Holds (after.flatMap bytesOf ++ tail) := by
  induction before generalizing s with
  | nil =>
    rw [List.nil_append] at hs hfit
    have hr := hs
    rw [List.flatMap_cons, List.append_assoc] at hr
    obtain ⟨s2, hs2, hread⟩ := readReplyBytes_reply (hfit r List.mem_cons_self) hr
    exact ⟨s, s2, rfl, hs, hread, hs2⟩
  | cons q before ih =>
    rw [List.cons_append, List.flatMap_cons, List.append_assoc] at hs
    obtain ⟨s', hs', hread⟩ := readReplyBytes_reply (hfit q List.mem_cons_self) hs
    obtain ⟨s1, s2, hafter, hrest⟩ := ih s' (fun p hp => hfit p (List.mem_cons_of_mem q hp)) hs'
    refine ⟨s1, s2, ?_, hrest⟩
    rw [List.length_cons, afterReads, hread]
    exact hafter

/-- On whole lines, the loop over bytes does what the loop over lines does. -/
theorem readReplyLoop_lines {ω : Type} {net : Network ω} (hnet : net.readline = pure none)
    {lines taken : List Line} (hlines : ∀ l ∈ lines, IsLine l.text)
    (hs : s.Holds (lines.flatMap (·.text) ++ tail)) {fuel : ℕ} (hfuel : lines.length ≤ fuel)
    {code multiline c : ℕ} {rbuf : Text} {w : ω}
    (hread : ((readLines net lines taken code multiline rbuf).run w).1.result = .ok c) :
    ∃ s', readReplyLoop fuel code multiline s =
        .ok (c, ((readLines net lines taken code multiline rbuf).run w).1.rbuf, s') ∧
      s'.Holds (((readLines net lines taken code multiline rbuf).run w).1.unread.flatMap (·.text)
        ++ tail) := by
  induction lines generalizing s taken code multiline rbuf fuel with
  | nil =>
    rw [readLines, hnet] at hread
    cases hread
  | cons line lines ih =>
    rw [List.length_cons] at hfuel
    obtain ⟨fuel, rfl⟩ : ∃ n, fuel = n + 1 := ⟨fuel - 1, by omega⟩
    rw [List.flatMap_cons, List.append_assoc] at hs
    obtain ⟨s1, hs1, hstep⟩ :=
      readReplyLoop_line (hlines line List.mem_cons_self) hs fuel code multiline
    rw [readLines, hnet] at hread ⊢
    simp only [pure_bind] at hread ⊢
    rw [hstep]
    split_ifs at hread ⊢ with hend
    · obtain rfl := Except.ok.inj hread
      exact ⟨s1, rfl, hs1⟩
    · exact ih (fun l hl => hlines l (List.mem_cons_of_mem line hl)) hs1 (by omega) hread

end Reading

/-- A reply of several lines, with other codes in it. -/
def greetingReply : Reply where
  code := 230
  more := [ascii "230-Hi" ++ [10], ascii "150-no" ++ [10], ascii " 230 x" ++ [10]]
  text := ascii "ok"
  three_digits := by decide
  opened := by decide +kernel
  between := by decide +kernel
  one_line := by decide +kernel
  one_line_each t ht := by
    simp only [List.mem_cons, List.not_mem_nil, or_false] at ht
    rcases ht with rfl | rfl | rfl
    · exact ⟨ascii "230-Hi", rfl, by decide +kernel⟩
    · exact ⟨ascii "150-no", rfl, by decide +kernel⟩
    · exact ⟨ascii " 230 x", rfl, by decide +kernel⟩

def directoryReply : Reply := .single 257 (ascii "/") (by decide) (by decide +kernel)

/-- Two replies that arrive in pieces of their own. -/
theorem replies_framed_two :
    ∃ s1 s2 : Socket, afterReads 1 { buffered := [], incoming := [ascii "230-Hi",
        [10] ++ ascii "150-no" ++ [10] ++ ascii " 230 x" ++ [10] ++ ascii "230 ok",
        [13, 10] ++ ascii "257 /" ++ [13, 10]] } = .ok s1 ∧
      s1.Holds (ascii "257 /" ++ [13, 10]) ∧ readReplyBytes s1 = .ok (257, s2) ∧ s2.Holds [] := by
  have hfit : ∀ q ∈ [greetingReply] ++ directoryReply :: [], Fits q := by
    intro q hq
    unfold Fits
    simp only [List.cons_append, List.nil_append, List.mem_cons, List.not_mem_nil, or_false] at hq
    rcases hq with rfl | rfl
    · decide +kernel
    · decide +kernel
  exact replies_framed [greetingReply] [] directoryReply [] _ hfit
    ⟨by decide +kernel, by decide +kernel, by decide +kernel⟩

def longReply : Reply :=
  .single 230 (List.replicate 5000 97) (by decide) fun h =>
    absurd (List.eq_of_mem_replicate h) (by decide)

/-- A line that is longer than `RDBUFSIZ` is refused although `rbuf` has room for it. -/
theorem long_line_refused :
    (∀ t ∈ linesOfReply longReply, t.length < bufsiz) ∧
      readReplyBytes { buffered := [], incoming := [bytesOf longReply] } = .error .error := by
  let body : Text := codeDigits 230 ++ 32 :: List.replicate 5000 97
  have hlast : longReply.last = body ++ [13, 10] := rfl
  have hlen : body.length = 5004 := by
    rw [List.length_append, List.length_cons, List.length_replicate]
    rfl
  have hbytes : bytesOf longReply = body ++ [13, 10] := by
    rw [← hlast]
    exact List.flatten_singleton
  have hno : 10 ∉ body := by
    rw [List.mem_append, List.mem_cons, not_or, not_or]
    exact ⟨by decide, by decide, fun h => absurd (List.eq_of_mem_replicate h) (by decide)⟩
  constructor
  · intro t ht
    obtain rfl : t = longReply.last := List.mem_singleton.mp ht
    rw [hlast, List.length_append, hlen]
    decide
  · refine readReplyBytes_long [13, 10] ⟨?_, by decide, ?_⟩ hno (by rw [hlen]; decide)
    · rw [List.nil_append, List.flatten_singleton, hbytes]
    · rw [List.mem_singleton, hbytes]
      exact (List.append_ne_nil_of_right_ne_nil body (List.cons_ne_nil _ _)).symm

end Sitecopy.ReplyFraming
