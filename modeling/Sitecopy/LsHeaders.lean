import Sitecopy.LsLines

/-!
# Headers in a recursive listing

A header names the directory of the lines behind it. `ls_parse` clears the flag for a blank
line before it looks at it, so a header with a blank is taken for an entry; and the top
directory is only removed from a header that starts with it as it was passed to `ls_init`.
-/
namespace Sitecopy.LsHeaders
open SiteModel SiteOperations FtpTransfer LsParser LsLines

/-! ### Recursive listings -/

/-- A directory of a recursive listing and its entries. -/
structure Block where
  d : Text
  /-- the slashes between the top directory and `d`, besides one -/
  slashes : ℕ := 0
  entries : List EntryText
  relative : d ≠ [] ∧ d.head? ≠ some slash
  one_line : 10 ∉ d ∧ 13 ∉ d

structure Listing where
  /-- the lines before the first header -/
  top : List EntryText
  blocks : List Block

def junk : Text := [13, 10, 9, 32]

/-- The header behind the top directory. -/
def Block.rest (b : Block) : Text := List.replicate (b.slashes + 1) slash ++ b.d ++ [colon]

def Block.header (topdir : Text) (b : Block) : Text := topdir ++ b.rest

def entryLines (eol : Text) (es : List EntryText) : List Text := es.map fun e => e.text ++ eol

/-- A blank line, the header, and the lines of the entries. -/
def Block.lines (topdir eol : Text) (b : Block) : List Text :=
  eol :: (b.header topdir ++ eol) :: entryLines eol b.entries

/-- The context in which the parser takes the line behind these. -/
def ctxAfter (ctx : LsContext) (lines : List Text) : LsContext :=
  lines.foldl (fun ctx line => (lsParse ctx line).1) ctx

/-- The names under which the entries of a directory should be reported. -/
def keysIn (pre : Text) (es : List EntryText) : List (Option (ProtoFiletype × Text)) :=
  es.map fun e => some (if e.directory then .dir else .file, pre ++ e.name)

/-- The lines of every directory are reported with its name. -/
structure NamesRight (dir eol : Text) (l : Listing) : Prop where
  top : (lsResults (lsInit dir) (entryLines eol l.top)).map resultKey = keysIn [] l.top
  block : ∀ before b after, l.blocks = before ++ b :: after →
    (lsResults (ctxAfter (lsInit dir) (entryLines eol l.top ++
        (before.flatMap (Block.lines (lsInit dir).topdir eol)) ++
        [eol, b.header (lsInit dir).topdir ++ eol])) (entryLines eol b.entries)).map resultKey =
      keysIn (b.d ++ [slash]) b.entries

/-! ### The part of the top directory that stays -/

/-- A Windows drive. -/
def onDrive (t : Text) : Prop :=
  isalpha (t.getD 0 0) = true ∧ t.getD 1 0 = colon ∧ (t.getD 2 0 = slash ∨ t.length = 2)

instance (t : Text) : Decidable (onDrive t) := inferInstanceAs (Decidable (_ ∧ _ ∧ _))

/-- What a header keeps of the top directory. -/
def leftOver (topdir : Text) : Text :=
  let t := topdir.dropWhile (· ∈ junk)
  if onDrive t then t.drop 2
  else if t = topdir then []
  else if t = [dot] ∨ [dot, slash] <+: t then t.drop 2
  else t

/-- Nothing is kept but slashes, which do not count, and no blank stands in the way. -/
def Removed (topdir : Text) : Prop :=
  blank ∉ topdir.dropWhile (· ∈ junk) ∧ ∀ c ∈ leftOver topdir, c = slash

instance (topdir : Text) : Decidable (Removed topdir) := inferInstanceAs (Decidable (_ ∧ _))

section Header
variable {topdir eol : Text} {b : Block}

lemma rest_head (b : Block) : ∃ t, b.rest = slash :: t := by
  refine ⟨List.replicate b.slashes slash ++ b.d ++ [colon], ?_⟩
  rw [Block.rest, List.replicate_succ]
  rfl

/-- The slashes before the directory are skipped, those of the top directory too. -/
lemma rest_trimmed (b : Block) {t : Text} (ht : ∀ c ∈ t, c = slash) :
    (t ++ b.rest).dropWhile (· = slash) = b.d ++ [colon] := by
  have hd : (b.d ++ [colon]).head? ≠ some slash := by
    rw [List.head?_append_of_ne_nil _ b.relative.1]
    exact b.relative.2
  rw [Block.rest, List.append_assoc, ← List.append_assoc, List.dropWhile_append_of_pos]
  · obtain ⟨c, w, hw⟩ := List.exists_cons_of_ne_nil (List.append_ne_nil_of_left_ne_nil b.relative.1 [colon])
    rw [hw] at hd ⊢
    rw [List.dropWhile_cons_of_neg]
    simpa using hd
  · intro c hc
    rcases List.mem_append.mp hc with hc | hc
    · simpa using ht c hc
    · simpa using (List.mem_replicate.mp hc).2

/-- The name in the header once the rest is taken off. -/
lemma headerName_trimmed (b : Block) :
    (if 1 < (b.d ++ [colon]).length then (b.d ++ [colon]).dropLast ++ [slash] else []) =
      b.d ++ [slash] := by
  have hlen : 0 < b.d.length := List.length_pos_iff.mpr b.relative.1
  rw [if_pos, List.dropLast_concat]
  rw [List.length_append, List.length_singleton]
  omega

/-- The test for a drive looks at the top directory only. -/
lemma drive_iff (b : Block) (t : Text) :
    (3 < (t ++ b.rest).length ∧ isalpha ((t ++ b.rest).getD 0 0) = true ∧
      (t ++ b.rest).getD 1 0 = colon ∧ (t ++ b.rest).getD 2 0 = slash) ↔ onDrive t := by
  obtain ⟨w, hw⟩ := rest_head b
  have hlong : 2 < b.rest.length := by
    have hlen : 0 < b.d.length := List.length_pos_iff.mpr b.relative.1
    rw [Block.rest, List.length_append, List.length_append, List.length_replicate,
      List.length_singleton]
    omega
  have hslash : isalpha slash = false := by decide
  have hzero : isalpha 0 = false := by decide
  have hcolon : slash ≠ colon := by decide
  have hcolon' : (0 : UInt8) ≠ colon := by decide
  unfold onDrive
  match t with
  | [] => simp [hw, hslash, hzero]
  | [a] => simp [hw, hcolon, hcolon']
  | [a, c] =>
    have hlen : 3 < ([a, c] ++ b.rest).length := by
      rw [List.length_append]
      exact Nat.lt_of_lt_of_le (by omega) (Nat.add_le_add_left (Nat.succ_le_of_lt hlong) 2)
    simp only [hlen, true_and]
    simp [hw]
  | a :: c :: d :: t =>
    have hlen : 3 < (a :: c :: d :: t ++ b.rest).length := by
      simp only [List.length_append, List.length_cons]
      omega
    simp only [hlen, true_and]
    simp

lemma dropPrefix_self (p t : Text) : dropPrefix p (p ++ t) = t := by
  rw [dropPrefix, if_pos (by simp), List.drop_left]

lemma dropPrefix_head {p t : Text} {c : UInt8} (hp : c ∈ p.head?) (ht : t.head? ≠ some c) :
    dropPrefix p t = t := by
  rw [dropPrefix, if_neg]
  rw [List.isPrefixOf_iff_prefix]
  rintro ⟨u, rfl⟩
  apply ht
  cases p with
  | nil => cases hp
  | cons d p => exact hp

/-- The rest of what `parse_directory` does, behind the test for a drive. -/
lemma rest_dot (b : Block) (t : Text) :
    (dropPrefix [dot, slash] (if t ++ b.rest = [dot, colon] then (t ++ b.rest).drop 1
      else t ++ b.rest)).dropWhile (· = slash) =
    ((if t = [dot] ∨ [dot, slash] <+: t then t.drop 2 else t) ++ b.rest).dropWhile (· = slash) := by
  obtain ⟨w, hw⟩ := rest_head b
  have hne : t ++ b.rest ≠ [dot, colon] := by
    intro h
    have hmem : slash ∈ t ++ b.rest := by simp [hw]
    rw [h] at hmem
    exact absurd hmem (by decide)
  have hslash : slash ≠ dot := by decide
  rw [if_neg hne]
  match t with
  | [] =>
    rw [List.nil_append, dropPrefix_head (c := dot) rfl (by simpa [hw] using hslash)]
    simp
  | [a] =>
    by_cases ha : a = dot
    · subst ha
      have hcut : dropPrefix [dot, slash] ([dot] ++ b.rest) = w := by
        rw [hw]
        exact dropPrefix_self [dot, slash] w
      rw [hcut, if_pos (Or.inl rfl), hw]
      simp
    · rw [dropPrefix_head (c := dot) rfl (by simpa using ha), if_neg]
      simp [ha]
  | a :: c :: t =>
    by_cases hpre : [dot, slash] <+: a :: c :: t
    · obtain ⟨u, hu⟩ := hpre
      rw [← hu, List.append_assoc, dropPrefix_self, if_pos (Or.inr ⟨u, rfl⟩)]
      rfl
    · have hno : ¬ [dot, slash] <+: (a :: c :: t) ++ b.rest := by
        intro h
        exact hpre (List.prefix_of_prefix_length_le h (List.prefix_append _ _) (by simp))
      rw [dropPrefix, if_neg (by rwa [List.isPrefixOf_iff_prefix]), if_neg]
      simpa using hpre

lemma dropWhile_head {t : Text} {c : UInt8} (h : c ∈ (t.dropWhile (· ∈ junk)).head?) : c ∉ junk := by
  have hhead := List.head?_dropWhile_not (· ∈ junk) t
  rw [Option.mem_def.mp h] at hhead
  simpa using hhead

/-- The blanks before the top directory are shaved off. -/
lemma shave_header (topdir : Text) (b : Block) (heol : eol ∈ [[], [10], [13, 10]]) :
    neShave junk (b.header topdir ++ eol) = topdir.dropWhile (· ∈ junk) ++ b.rest := by
  obtain ⟨w, hw⟩ := rest_head b
  have hsplit : b.header topdir = topdir.takeWhile (· ∈ junk) ++
      (topdir.dropWhile (· ∈ junk) ++ b.rest) := by
    rw [← List.append_assoc, List.takeWhile_append_dropWhile]
    rfl
  have hfront : neShave junk (b.header topdir ++ eol) =
      neShave junk (topdir.dropWhile (· ∈ junk) ++ b.rest ++ eol) := by
    rw [neShave, neShave, hsplit, List.append_assoc, List.dropWhile_append_of_pos]
    intro c hc
    exact @List.mem_takeWhile_imp _ (· ∈ junk) _ _ hc
  rw [hfront]
  apply EntryText.neShave_trimmed
  · simp [hw]
  · intro c hc
    rw [List.head?_append] at hc
    cases hhead : (topdir.dropWhile (· ∈ junk)).head? with
    | none =>
      rw [hhead, hw] at hc
      obtain rfl : slash = c := Option.some.inj hc
      decide
    | some d =>
      rw [hhead] at hc
      obtain rfl : d = c := Option.some.inj hc
      exact dropWhile_head hhead
  · intro c hc
    rw [Block.rest, ← List.append_assoc, List.getLast?_concat] at hc
    obtain rfl : colon = c := Option.some.inj hc
    decide
  · simp only [List.mem_cons, List.not_mem_nil, or_false] at heol
    rcases heol with rfl | rfl | rfl <;> simp [junk]

/-- The part of `parse_directory` behind the test for a drive. -/
def trimHeader (topdir line : Text) : Text :=
  let line := dropPrefix topdir line
  let line := if line = [dot, colon] then line.drop 1 else line
  (dropPrefix [dot, slash] line).dropWhile (· = slash)

lemma headerDir_trim (topdir : Text) (b : Block) (t : Text) : headerDir topdir (t ++ b.rest) =
    if 1 < (trimHeader topdir (if onDrive t then (t ++ b.rest).drop 2 else t ++ b.rest)).length then
      (trimHeader topdir (if onDrive t then (t ++ b.rest).drop 2 else t ++ b.rest)).dropLast ++ [slash]
    else [] := by
  have hif : (if onDrive t then (t ++ b.rest).drop 2 else t ++ b.rest) =
      if 3 < (t ++ b.rest).length ∧ isalpha ((t ++ b.rest).getD 0 0) = true ∧
        (t ++ b.rest).getD 1 0 = colon ∧ (t ++ b.rest).getD 2 0 = slash
      then (t ++ b.rest).drop 2 else t ++ b.rest := by
    simp only [drive_iff]
  rw [hif]
  rfl

/-- A header that does not start with the top directory. -/
lemma trimHeader_other {topdir : Text} {c : UInt8} (htop : c ∈ topdir.head?) (t : Text)
    (hhead : (t ++ b.rest).head? ≠ some c) : trimHeader topdir (t ++ b.rest) =
      ((if t = [dot] ∨ [dot, slash] <+: t then t.drop 2 else t) ++ b.rest).dropWhile (· = slash) := by
  rw [trimHeader, dropPrefix_head htop hhead]
  exact rest_dot b t

lemma trimHeader_eq (topdir : Text) (b : Block) :
    trimHeader topdir (if onDrive (topdir.dropWhile (· ∈ junk)) then
        (topdir.dropWhile (· ∈ junk) ++ b.rest).drop 2
      else topdir.dropWhile (· ∈ junk) ++ b.rest) =
      (leftOver topdir ++ b.rest).dropWhile (· = slash) := by
  obtain ⟨w, hw⟩ := rest_head b
  unfold leftOver
  dsimp only
  generalize ht : topdir.dropWhile (· ∈ junk) = t
  by_cases hdrive : onDrive t
  · -- behind the drive there is a slash, with which the top directory does not start
    rw [if_pos hdrive, if_pos hdrive]
    obtain ⟨halpha, hcolon, hlong⟩ := hdrive
    match t with
    | [] => exact absurd halpha (by decide)
    | [a] =>
      have hzero : (0 : UInt8) ≠ colon := by decide
      exact absurd hcolon hzero
    | a :: c :: t =>
      have hslash : ∀ d ∈ t.head?, d = slash := by
        intro d hd
        cases t with
        | nil => cases hd
        | cons e t =>
          obtain rfl : e = d := Option.some.inj hd
          exact hlong.resolve_right (by simp)
      have hhead : (t ++ b.rest).head? = some slash := by
        cases t with
        | nil => rw [hw]; rfl
        | cons e t => exact congrArg some (hslash e rfl)
      obtain ⟨x, w', htopdir⟩ : ∃ x w', topdir = x :: w' := by
        apply List.exists_cons_of_ne_nil
        rintro rfl
        cases ht
      have hx : x ≠ slash := by
        rintro rfl
        rw [htopdir, List.dropWhile_cons_of_neg (by decide)] at ht
        obtain rfl : slash = a := (List.cons.inj ht).1
        have hno : isalpha slash = false := by decide
        rw [List.getD_cons_zero, hno] at halpha
        cases halpha
      have hno : (t ++ b.rest).head? ≠ some x := by
        rw [hhead]
        exact fun h => hx (Option.some.inj h).symm
      have htop : x ∈ topdir.head? := by simp [htopdir]
      have hother := trimHeader_other htop t hno
      have hplain : ¬ (t = [dot] ∨ [dot, slash] <+: t) := by
        rintro (rfl | ⟨u, rfl⟩)
        · exact absurd (hslash dot rfl) (by decide)
        · exact absurd (hslash dot rfl) (by decide)
      rw [if_neg hplain] at hother
      exact hother
  · rw [if_neg hdrive, if_neg hdrive]
    by_cases htop : t = topdir
    · rw [if_pos htop, htop, trimHeader, dropPrefix_self]
      have h := rest_dot b []
      simpa using h
    · rw [if_neg htop]
      -- the top directory starts with white space, and the header no longer does
      obtain ⟨c, w', htopdir⟩ : ∃ c w', topdir = c :: w' := by
        apply List.exists_cons_of_ne_nil
        rintro rfl
        exact htop ht.symm
      have hc : c ∈ junk := by
        by_contra hc
        apply htop
        rw [← ht, htopdir, List.dropWhile_cons_of_neg (by simpa using hc)]
      have hhead : c ∈ topdir.head? := by simp [htopdir]
      apply trimHeader_other hhead
      intro hhead
      rw [List.head?_append] at hhead
      cases h : t.head? with
      | none =>
        rw [h, hw] at hhead
        obtain rfl : slash = c := Option.some.inj hhead
        exact absurd hc (by decide)
      | some d =>
        rw [h] at hhead
        obtain rfl : d = c := Option.some.inj hhead
        rw [← ht] at h
        exact dropWhile_head h hc

lemma headerDir_eq (topdir : Text) (b : Block) : headerDir topdir (topdir.dropWhile (· ∈ junk) ++ b.rest) =
    if 1 < ((leftOver topdir ++ b.rest).dropWhile (· = slash)).length then
      ((leftOver topdir ++ b.rest).dropWhile (· = slash)).dropLast ++ [slash] else [] := by
  rw [headerDir_trim, trimHeader_eq]

/-- The header gives the name of the directory if and only if nothing is left over. -/
lemma headerDir_iff (topdir : Text) (b : Block) :
    headerDir topdir (topdir.dropWhile (· ∈ junk) ++ b.rest) = b.d ++ [slash] ↔
      ∀ c ∈ leftOver topdir, c = slash := by
  rw [headerDir_eq]
  by_cases hall : ∀ c ∈ leftOver topdir, c = slash
  · rw [rest_trimmed b hall]
    exact iff_of_true (headerName_trimmed b) hall
  · refine iff_of_false ?_ hall
    have hdrop : (leftOver topdir).dropWhile (· = slash) ≠ [] := by
      rw [Ne, List.dropWhile_eq_nil_iff]
      simpa using hall
    have hcut : (leftOver topdir ++ b.rest).dropWhile (· = slash) =
        (leftOver topdir).dropWhile (· = slash) ++ b.rest := by
      rw [List.dropWhile_append, if_neg]
      simpa using hdrop
    have hlen : 0 < ((leftOver topdir).dropWhile (· = slash)).length := List.length_pos_iff.mpr hdrop
    have hrest : b.rest.length = b.slashes + 1 + (b.d.length + 1) := by simp [Block.rest]
    rw [hcut, if_pos (by rw [List.length_append]; omega)]
    intro heq
    have hcount := congrArg List.length heq
    simp only [List.length_append, List.length_dropLast, List.length_singleton] at hcount
    omega

lemma mem_leftOver {topdir : Text} {c : UInt8} (h : c ∈ leftOver topdir) :
    c ∈ topdir.dropWhile (· ∈ junk) := by
  unfold leftOver at h
  dsimp only at h
  split_ifs at h
  · exact List.mem_of_mem_drop h
  · exact absurd h List.not_mem_nil
  · exact List.mem_of_mem_drop h
  · exact h

lemma mem_headerDir {topdir : Text} {b : Block} {c : UInt8}
    (h : c ∈ headerDir topdir (topdir.dropWhile (· ∈ junk) ++ b.rest)) :
    c = slash ∨ c ∈ topdir.dropWhile (· ∈ junk) ++ b.rest := by
  rw [headerDir_eq] at h
  split_ifs at h
  · rcases List.mem_append.mp h with h | h
    · have hmem := (List.dropWhile_sublist _).subset (List.mem_of_mem_dropLast h)
      rcases List.mem_append.mp hmem with hm | hm
      · exact Or.inr (List.mem_append_left _ (mem_leftOver hm))
      · exact Or.inr (List.mem_append_right _ hm)
    · exact Or.inl (List.mem_singleton.mp h)
  · exact absurd h List.not_mem_nil

lemma blank_rest (b : Block) : blank ∈ b.rest ↔ blank ∈ b.d := by
  have hslash : blank ≠ slash := by decide
  have hcolon : blank ≠ colon := by decide
  simp [Block.rest, List.mem_replicate, hslash, hcolon]

/-- What holds of the context between the lines of a listing. -/
structure Between (topdir : Text) (ctx : LsContext) : Prop where
  same : ctx.topdir = topdir
  no_blank : blank ∉ ctx.curdir
  stuck : blank ∈ topdir.dropWhile (· ∈ junk) → ctx.curdir = []

/-- A line that is taken for an entry leaves the directory alone. -/
lemma parseFile_curdir (ctx : LsContext) (line : Text) :
    (parseFile ctx line).1.topdir = ctx.topdir ∧ (parseFile ctx line).1.curdir = ctx.curdir := by
  unfold parseFile
  split <;> exact ⟨rfl, rfl⟩

lemma lsParse_header {ctx : LsContext} (b : Block) (h : ctx.topdir = topdir)
    (heol : eol ∈ [[], [10], [13, 10]]) :
    (lsParse ctx (b.header topdir ++ eol)).1.topdir = topdir ∧
      (lsParse ctx (b.header topdir ++ eol)).1.curdir =
        if blank ∉ topdir.dropWhile (· ∈ junk) ++ b.rest then
          headerDir topdir (topdir.dropWhile (· ∈ junk) ++ b.rest) else ctx.curdir := by
  obtain ⟨w, hw⟩ := rest_head b
  have hshave : neShave [13, 10, 9, 32] (b.header topdir ++ eol) = _ := shave_header topdir b heol
  have hlast : (topdir.dropWhile (· ∈ junk) ++ b.rest).getLast? = some colon := by
    rw [Block.rest, ← List.append_assoc, List.getLast?_concat]
  rw [lsParse, hshave, if_neg (by simp [hw])]
  dsimp only
  by_cases hblank : blank ∈ topdir.dropWhile (· ∈ junk) ++ b.rest
  · have hnot : ¬ ((topdir.dropWhile (· ∈ junk) ++ b.rest).getLast? = some colon ∧
        (({ ctx with afterBlank := false } : LsContext).afterBlank = true ∨
          blank ∉ topdir.dropWhile (· ∈ junk) ++ b.rest)) := by
      rintro ⟨-, hfalse | hno⟩
      · cases hfalse
      · exact hno hblank
    rw [if_neg hnot, if_neg (not_not.mpr hblank)]
    split_ifs
    · exact ⟨h, rfl⟩
    · have hkeep := parseFile_curdir { ctx with afterBlank := false }
        (topdir.dropWhile (· ∈ junk) ++ b.rest)
      exact ⟨hkeep.1.trans h, hkeep.2⟩
  · have htotal : ¬ (ascii "total ").isPrefixOf (topdir.dropWhile (· ∈ junk) ++ b.rest) = true := by
      rw [List.isPrefixOf_iff_prefix]
      intro hpre
      exact hblank (hpre.subset (by decide))
    rw [if_neg htotal, if_pos ⟨hlast, Or.inr hblank⟩, if_pos hblank, ← h]
    exact ⟨rfl, rfl⟩

/-- What a header does to the directory. -/
theorem Between.header {ctx : LsContext} (h : Between topdir ctx) (b : Block)
    (heol : eol ∈ [[], [10], [13, 10]]) :
    Between topdir (lsParse ctx (b.header topdir ++ eol)).1 ∧
      ((lsParse ctx (b.header topdir ++ eol)).1.curdir = b.d ++ [slash] ↔
        blank ∉ b.d ∧ Removed topdir) := by
  obtain ⟨htop, hcur⟩ := lsParse_header b h.same heol
  have hmem : blank ∈ topdir.dropWhile (· ∈ junk) ++ b.rest ↔
      blank ∈ topdir.dropWhile (· ∈ junk) ∨ blank ∈ b.d := by
    rw [List.mem_append, blank_rest]
  have hslash : blank ≠ slash := by decide
  by_cases hblank : blank ∈ topdir.dropWhile (· ∈ junk) ++ b.rest
  · rw [if_neg (not_not.mpr hblank)] at hcur
    refine ⟨⟨htop, hcur ▸ h.no_blank, hcur ▸ h.stuck⟩, ?_⟩
    rw [hcur]
    refine iff_of_false ?_ ?_
    · intro heq
      rcases hmem.mp hblank with hb | hb
      · rw [h.stuck hb] at heq
        simp at heq
      · apply h.no_blank
        rw [heq]
        exact List.mem_append_left _ hb
    · rintro ⟨hd, hremoved⟩
      exact (hmem.mp hblank).elim hremoved.1 hd
  · rw [if_pos hblank] at hcur
    rw [hmem, not_or] at hblank
    have hno : blank ∉ headerDir topdir (topdir.dropWhile (· ∈ junk) ++ b.rest) := by
      intro hb
      rcases mem_headerDir hb with hb | hb
      · exact hslash hb
      · exact (hmem.mp hb).elim hblank.1 hblank.2
    refine ⟨⟨htop, hcur ▸ hno, fun hb => absurd hb hblank.1⟩, ?_⟩
    rw [hcur, headerDir_iff]
    constructor
    · intro hall
      exact ⟨hblank.2, hblank.1, hall⟩
    · intro hok
      exact hok.2.2

end Header

/-! ### Whole listings -/

section Run
variable {topdir eol : Text} {ctx : LsContext} {es : List EntryText}

lemma between_blank (h : Between topdir ctx) (heol : eol ∈ [[], [10], [13, 10]]) :
    Between topdir (lsParse ctx eol).1 := by
  have hshave : neShave [13, 10, 9, 32] eol = [] := by
    simp only [List.mem_cons, List.not_mem_nil, or_false] at heol
    rcases heol with rfl | rfl | rfl <;> rfl
  rw [lsParse, hshave, if_pos rfl]
  exact ⟨h.same, h.no_blank, h.stuck⟩

/-- The lines of entries are reported in the current directory, and leave it alone. -/
lemma entries_results (ctx : LsContext) (es : List EntryText)
    (heol : eol ∈ [[], [10], [13, 10]]) :
    (lsResults ctx (entryLines eol es)).map resultKey = keysIn ctx.curdir es ∧
      (ctxAfter ctx (entryLines eol es)).topdir = ctx.topdir ∧
      (ctxAfter ctx (entryLines eol es)).curdir = ctx.curdir := by
  induction es generalizing ctx with
  | nil => exact ⟨rfl, rfl, rfl⟩
  | cons e es ih =>
    have hline := e.lsParse_text ctx heol
    obtain ⟨hkeys, htop, hcur⟩ := ih { ctx with afterBlank := false }
    have hkey : resultKey (e.result ctx.curdir (parsePermissions e.token)) =
        some (if e.directory then .dir else .file, ctx.curdir ++ e.name) := by
      unfold EntryText.result
      split_ifs <;> rfl
    refine ⟨?_, ?_, ?_⟩
    · rw [entryLines, List.map_cons, lsResults, List.map_cons, hline, hkey, ← entryLines, hkeys]
      rfl
    · rw [entryLines, List.map_cons, ctxAfter, List.foldl_cons, hline, ← entryLines, ← ctxAfter]
      exact htop
    · rw [entryLines, List.map_cons, ctxAfter, List.foldl_cons, hline, ← entryLines, ← ctxAfter]
      exact hcur

lemma ctxAfter_append (ctx : LsContext) (l l' : List Text) :
    ctxAfter ctx (l ++ l') = ctxAfter (ctxAfter ctx l) l' := List.foldl_append

lemma between_entries (h : Between topdir ctx) (heol : eol ∈ [[], [10], [13, 10]]) :
    Between topdir (ctxAfter ctx (entryLines eol es)) := by
  obtain ⟨-, htop, hcur⟩ := entries_results ctx es heol
  exact ⟨htop.trans h.same, hcur ▸ h.no_blank, fun hb => hcur.trans (h.stuck hb)⟩

lemma between_blocks (h : Between topdir ctx) (heol : eol ∈ [[], [10], [13, 10]])
    (blocks : List Block) : Between topdir (ctxAfter ctx (blocks.flatMap (Block.lines topdir eol))) := by
  induction blocks generalizing ctx with
  | nil => exact h
  | cons b blocks ih =>
    rw [List.flatMap_cons, ctxAfter_append]
    exact ih (between_entries ((between_blank h heol).header b heol).1 heol)

/-- The prefix counts only where there are entries. -/
lemma keysIn_inj {pre pre' : Text} : keysIn pre es = keysIn pre' es ↔ es = [] ∨ pre = pre' := by
  cases es with
  | nil => simp [keysIn]
  | cons e es =>
    constructor
    · intro h
      have hhead := (List.cons.inj h).1
      have hname := congrArg Prod.snd (Option.some.inj hhead)
      exact Or.inr (List.append_cancel_right hname)
    · rintro (h | rfl)
      · cases h
      · rfl

/-- All entries are reported under their names if and only if no header with entries behind it
has a blank, and the top directory can be taken off. -/
theorem namesRight_iff (dir : Text) (heol : eol ∈ [[], [10], [13, 10]]) (l : Listing) :
    NamesRight dir eol l ↔ ∀ b ∈ l.blocks, b.entries ≠ [] →
      blank ∉ b.d ∧ Removed (lsInit dir).topdir := by
  have hinit : Between (lsInit dir).topdir (lsInit dir) := ⟨rfl, List.not_mem_nil, fun _ => rfl⟩
  have hblock (before : List Block) (b : Block) :
      (lsResults (ctxAfter (lsInit dir) (entryLines eol l.top ++
        (before.flatMap (Block.lines (lsInit dir).topdir eol)) ++
        [eol, b.header (lsInit dir).topdir ++ eol])) (entryLines eol b.entries)).map resultKey =
          keysIn (b.d ++ [slash]) b.entries ↔
        b.entries = [] ∨ blank ∉ b.d ∧ Removed (lsInit dir).topdir := by
    rw [(entries_results _ _ heol).1, keysIn_inj, ctxAfter_append, ctxAfter_append]
    have htop : Between _ (ctxAfter (lsInit dir) (entryLines eol l.top)) := between_entries hinit heol
    have hbefore := between_blocks htop heol before
    exact or_congr_right ((between_blank hbefore heol).header b heol).2
  constructor
  · intro h b hb hne
    obtain ⟨before, after, hsplit⟩ := List.append_of_mem hb
    exact ((hblock before b).mp (h.block before b after hsplit)).resolve_left hne
  · intro h
    refine ⟨(entries_results _ _ heol).1, fun before b after hsplit => ?_⟩
    rw [hblock]
    by_cases hne : b.entries = []
    · exact Or.inl hne
    · exact Or.inr (h b (by simp [hsplit]) hne)

end Run

/-- A listing of `/www` with the directory `a` in it. -/
def listing (d : Text) (h : (d ≠ [] ∧ d.head? ≠ some slash) ∧ 10 ∉ d ∧ 13 ∉ d) : Listing where
  top := [readme]
  blocks := [{ d, entries := [readme], relative := h.1, one_line := h.2 }]

theorem namesRight_iff_plain :
    NamesRight (ascii "/www/") [10] (listing (ascii "a") (by decide +kernel)) ↔
      ∀ b ∈ (listing (ascii "a") (by decide +kernel)).blocks, b.entries ≠ [] →
        blank ∉ b.d ∧ Removed (lsInit (ascii "/www/")).topdir :=
  namesRight_iff (ascii "/www/") (by simp) _

/-- The header of the directory `a b` cannot be parsed, and its file is reported without it. -/
theorem blank_in_header :
    lsResults (lsInit (ascii "/www")) [ascii "", ascii "/www/a b:", readme.text] =
      [.nothing, .error, .file (ascii "read me") 0o644 120] ∧
    ¬ NamesRight (ascii "/www") [] (listing (ascii "a b") (by decide +kernel)) := by
  refine ⟨by decide +kernel, fun h => ?_⟩
  have hblock := h.block [] _ [] rfl
  exact absurd hblock (by decide +kernel)

end Sitecopy.LsHeaders
