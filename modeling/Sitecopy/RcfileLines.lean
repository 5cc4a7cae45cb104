import Sitecopy.Rcfile

/-!
# An rcfile line by line

`rcfile_read` takes what `fgets` puts into a buffer of `LINESIZE` bytes for a line. That
is the fold over the lines of the file as long as they fit. The rest of a longer line is
read as further lines, and moves the numbers of all that follow.
-/
namespace Sitecopy.RcfileLines
open SiteModel Numerals BufferedLines Rcfile

/-! ### Reading by lines -/

/-- The key and the values fit their buffers. -/
def Represented (l : Lexer) : Prop :=
  l.key.length < LINESIZE ∧ l.val.length < LINESIZE ∧ l.val2.length < LINESIZE

instance (l : Lexer) : Decidable (Represented l) :=
  inferInstanceAs (Decidable (l.key.length < LINESIZE ∧ l.val.length < LINESIZE ∧
    l.val2.length < LINESIZE))

/-- One line of the file, which is rejected if it cannot be represented. -/
def readWholeLine (copypath : Text) (r : Reading) (line : Text) : Option Reading :=
  if Represented (lexLine line) then readLine copypath r line else none

/-- The fold over the lines. -/
def readByLine (copypath content : Text) : Except (ℕ × Text) Reading :=
  byLine newline (readWholeLine copypath) {} content

/-- `rcfile_read` gives the sites, or the number of the line, that the fold over the lines
gives. -/
def ReadByLine (copypath content : Text) : Prop :=
  (rcfileRead copypath content).mapError Prod.fst = (readByLine copypath content).mapError Prod.fst

/-! ### Comments -/

/-- Behind a hash nothing of a line matters, unless it is quoted. -/
theorem lexed_comment {l : Lexer} (h : l.state ∉ [.quoted, .quoted2, .slashed]) (rest : Text) :
    (hash :: rest).foldl Lexer.step l = { l with state := .ignored } := by
  have hstep : l.step hash = { l with state := .ignored } := by
    obtain ⟨state, _, _, _, _, _, _⟩ := l
    cases state <;> simp [Lexer.step] at h ⊢
  rw [List.foldl_cons, hstep]
  induction rest with
  | nil => rfl
  | cons c rest ih => exact ih

example : (lexLine (ascii "url x # tempupload")).val = ascii "x" := by decide

/-! ### Lines that fit -/

def Lexer.size (l : Lexer) : ℕ := l.key.length + l.val.length + l.val2.length

lemma storeAt_length (buf : Text) (pos : ℕ) (c : UInt8) :
    (storeAt buf pos c).length ≤ buf.length + 1 := by
  simp only [storeAt, List.length_append, List.length_take, List.length_cons, List.length_drop]
  omega

lemma size_store (l : Lexer) (c : UInt8) : Lexer.size (l.store c) ≤ Lexer.size l + 1 := by
  unfold Lexer.store Lexer.size
  have hkey := storeAt_length l.key l.pos c
  have hval := storeAt_length l.val l.pos c
  have hval2 := storeAt_length l.val2 l.pos c
  split <;> dsimp only <;> omega

lemma size_step (l : Lexer) (c : UInt8) : Lexer.size (l.step c) ≤ Lexer.size l + 1 := by
  have hstore := size_store l c
  have hsame : Lexer.size l ≤ Lexer.size l + 1 := Nat.le_succ _
  unfold Lexer.step
  cases l.state
  case ignored => exact hsame
  case slashed => exact hstore
  all_goals
    dsimp only
    split_ifs
    all_goals first | exact hstore | exact hsame

lemma size_lexed (t : Text) (l : Lexer) :
    Lexer.size (t.foldl Lexer.step l) ≤ Lexer.size l + t.length := by
  induction t generalizing l with
  | nil => exact le_rfl
  | cons c t ih =>
    have hrest := ih (l.step c)
    have hstep := size_step l c
    rw [List.foldl_cons, List.length_cons]
    omega

lemma represented_of_length {line : Text} (h : line.length < LINESIZE) :
    Represented (lexLine line) := by
  have hsize := size_lexed (line.takeWhile (· ≠ 0)) {}
  have hlen := (List.takeWhile_prefix (p := (· ≠ 0)) (l := line)).length_le
  have hlexed : Lexer.size (lexLine line) ≤ 0 + (line.takeWhile (· ≠ 0)).length := hsize
  rw [Lexer.size] at hlexed
  refine ⟨?_, ?_, ?_⟩ <;> omega

lemma readWholeLine_short (copypath : Text) (r : Reading) (line : Text)
    (h : line.length ≤ LINESIZE - 1) :
    readWholeLine copypath r line = readLine copypath r line := by
  have hlt : line.length < LINESIZE := by
    have : LINESIZE = 128 := rfl
    omega
  rw [readWholeLine, if_pos (represented_of_length hlt)]

/-! ### Lines that are rejected whatever precedes them -/

/-- Rejected both outside all blocks and in a block. -/
def Refused (line : Text) : Prop :=
  (lexLine line).line false matches .corrupt ∧ (lexLine line).line true matches .corrupt

lemma readLine_eq_none {copypath : Text} {r : Reading} {line : Text} :
    readLine copypath r line = none ↔
      (lexLine line).line (r.this ≠ .null) matches .corrupt := by
  unfold readLine
  cases (lexLine line).line (r.this ≠ .null) <;> simp

lemma alwaysRejected_iff (copypath line : Text) :
    AlwaysRejected (readLine copypath) line ↔ Refused line := by
  have hin (r : Reading) (h : r.this = .null) : decide (r.this ≠ .null) = false := by simp [h]
  have hout (r : Reading) (h : r.this ≠ .null) : decide (r.this ≠ .null) = true := by simp [h]
  constructor
  · intro h
    have hnull := readLine_eq_none.mp (h { this := .null })
    have hsite := readLine_eq_none.mp (h { this := .site })
    exact ⟨hnull, hsite⟩
  · intro h r
    rw [readLine_eq_none]
    by_cases hthis : r.this = .null
    · rw [hin r hthis]
      exact h.1
    · rw [hout r hthis]
      exact h.2

/-- In a block, what can be read at all can be read after a line `site a`. -/
lemma readLine_reached (copypath : Text) :
    Reached newline (LINESIZE - 1) {} (readLine copypath) := by
  intro line hline
  rw [alwaysRejected_iff, Refused, not_and_or] at hline
  rcases hline with hnull | hsite
  · refine ⟨[], {}, fun _ hl => absurd hl List.not_mem_nil, rfl, ?_⟩
    rw [Ne, readLine_eq_none]
    exact hnull
  · have hread : readLine copypath {} (ascii "site a" ++ [newline]) =
        some { this := .site, sites := [newSite copypath builtinSite (ascii "a")] } := by
      have hlexed : lexLine (ascii "site a" ++ [newline]) =
          { state := .afterValue, ptr := .val2, key := ascii "site", val := ascii "a" } := by decide
      rw [readLine, hlexed]
      rfl
    refine ⟨[ascii "site a"], { this := .site, sites := [newSite copypath builtinSite (ascii "a")] },
      ?_, ?_, ?_⟩
    · intro l hl
      obtain rfl := List.mem_singleton.mp hl
      decide
    · rw [List.map_singleton, foldLines, hread]
      rfl
    · rw [Ne, readLine_eq_none]
      exact hsite

lemma readWholeLine_reached (copypath : Text) :
    Reached newline (LINESIZE - 1) {} (readWholeLine copypath) := by
  intro line hline
  have hread : ∃ r, readWholeLine copypath r line ≠ none := by
    by_contra hno
    exact hline fun r => not_not.mp (not_exists.mp hno r)
  obtain ⟨r, hread⟩ := hread
  have hrep : Represented (lexLine line) := by
    by_contra hno
    exact hread (by rw [readWholeLine, if_neg hno])
  have hwhole (r : Reading) : readWholeLine copypath r line = readLine copypath r line := by
    rw [readWholeLine, if_pos hrep]
  have hline : ¬ AlwaysRejected (readLine copypath) line := by
    intro h
    rw [hwhole] at hread
    exact hread (h r)
  obtain ⟨pre, s, hpre, hs, haccepted⟩ := readLine_reached copypath line hline
  rw [← foldLines_whole_short (readWholeLine_short copypath) hpre] at hs
  exact ⟨pre, s, hpre, hs, by rwa [hwhole]⟩

lemma alwaysRejected_whole_iff (copypath line : Text) :
    AlwaysRejected (readWholeLine copypath) line ↔
      (Represented (lexLine line) → Refused line) := by
  rw [← alwaysRejected_iff copypath]
  constructor
  · intro h hrep r
    have hr := h r
    rwa [readWholeLine, if_pos hrep] at hr
  · intro h r
    rw [readWholeLine]
    split_ifs with hrep
    · exact h hrep r
    · rfl

/-- In every file of otherwise short lines, a line is read as one line if and only if it fits
the buffer together with its newline, or both the line and what `fgets` gets of it are rejected
whatever precedes them. -/
theorem line_read_whole_iff (copypath : Text) {line : Text} (hline : newline ∉ line) :
    (∀ pre post, ShortLines newline (LINESIZE - 1) pre →
      (∀ l ∈ linesOf newline post, l.length ≤ LINESIZE - 1) →
      ReadByLine copypath (terminated newline pre ++ (line ++ newline :: post))) ↔
    line.length + 1 ≤ LINESIZE - 1 ∨
      Refused ((line ++ [newline]).take (LINESIZE - 1)) ∧
        (Represented (lexLine (line ++ [newline])) → Refused (line ++ [newline])) := by
  have hbad : ∃ bad, newline ∉ bad ∧ bad.length + 1 ≤ LINESIZE - 1 ∧
      AlwaysRejected (readLine copypath) (bad ++ [newline]) := by
    refine ⟨ascii "bad", by decide, by decide, ?_⟩
    rw [alwaysRejected_iff]
    exact ⟨by decide +kernel, by decide +kernel⟩
  have hagree := agree_everywhere_iff (by decide) (readWholeLine_short copypath)
    (readLine_reached copypath) (readWholeLine_reached copypath) hbad hline
  rwa [alwaysRejected_iff, alwaysRejected_whole_iff] at hagree

theorem line_read_whole_iff_nodelete :
    newline ∉ ascii "nodelete" ∧
    ((∀ pre post, ShortLines newline (LINESIZE - 1) pre →
      (∀ l ∈ linesOf newline post, l.length ≤ LINESIZE - 1) →
      ReadByLine [] (terminated newline pre ++ (ascii "nodelete" ++ newline :: post))) ↔
    (ascii "nodelete").length + 1 ≤ LINESIZE - 1 ∨
      Refused ((ascii "nodelete" ++ [newline]).take (LINESIZE - 1)) ∧
        (Represented (lexLine (ascii "nodelete" ++ [newline])) →
          Refused (ascii "nodelete" ++ [newline]))) := by
  have hline : newline ∉ ascii "nodelete" := by decide
  exact ⟨hline, line_read_whole_iff [] hline⟩

/-- A comment of 127 bytes, and then `nodelete`. -/
def longComment : Text :=
  ascii "site a\n" ++ hash :: List.replicate 126 (120 : UInt8) ++ ascii "nodelete\n"

def nodeletes (r : Except ℕ Reading) : Option (List Bool) :=
  r.toOption.map fun r => r.sites.map fun s => s.settings.nodelete

/-- Text in a long comment becomes a setting of the site. -/
theorem comment_becomes_setting : ¬ ReadByLine [] longComment := by
  intro h
  have hbuffer : nodeletes ((rcfileRead [] longComment).mapError Prod.fst) = some [true] := by
    decide +kernel
  have hlines : nodeletes ((readByLine [] longComment).mapError Prod.fst) = some [false] := by
    decide +kernel
  rw [ReadByLine] at h
  rw [h, hlines] at hbuffer
  exact absurd hbuffer (by decide)

end Sitecopy.RcfileLines
