import Sitecopy.RcfileOwners

/-!
# The sites of an rcfile

The lines before the first `site` line are the default block; each `site` line starts the
block of a site. What `rcfile_read` leaves in memory is a linked list of one site for each
block, and what a site stands for depends on the default block and on its own block.
-/
namespace Sitecopy.RcfileMemory
open SiteModel BufferedLines Rcfile LinkedCells

/-! ### Blocks of lines -/

def isSiteLine (line : Text) : Bool :=
  match (lexLine line).line true with
  | .site _ => true
  | _ => false

def siteName (line : Text) : Text :=
  match (lexLine line).line true with
  | .site name => name
  | _ => []

/-- What a line changes in the block that it is in. -/
def lineChanges (line : Text) : List Change :=
  match (lexLine line).line true with
  | .changes cs => cs
  | _ => []

/-- The lines up to the next site. -/
def blockLines (lines : List Text) : List Text := lines.takeWhile (! isSiteLine ·)

/-- Each `site` line, with the lines of its block. -/
def siteBlocks : List Text → List (Text × List Text)
  | [] => []
  | line :: lines =>
    if isSiteLine line then (line, blockLines lines) :: siteBlocks lines else siteBlocks lines

def applyLines (lines : List Text) (v : SiteValue) : SiteValue :=
  (lines.flatMap lineChanges).foldl Change.apply v

/-- The default settings of an rcfile. -/
def defaultValue (lines : List Text) : SiteValue := applyLines (blockLines lines) builtinSite

/-- The settings of a site, from the default settings and its block. -/
def siteValue (copypath : Text) (default : SiteValue) (block : Text × List Text) : SiteValue :=
  applyLines block.2 (newSite copypath default (siteName block.1))

/-- One site for each `site` line. -/
lemma siteBlocks_fst (lines : List Text) :
    (siteBlocks lines).map Prod.fst = lines.filter isSiteLine := by
  induction lines with
  | nil => rfl
  | cons line lines ih =>
    rw [siteBlocks]
    split_ifs with hsite
    · rw [List.map_cons, ih, List.filter_cons_of_pos hsite]
    · rw [ih, List.filter_cons_of_neg hsite]

lemma siteBlocks_eq_nil_iff (lines : List Text) :
    siteBlocks lines = [] ↔ ¬ ∃ line ∈ lines, isSiteLine line := by
  rw [← List.map_eq_nil_iff (f := Prod.fst), siteBlocks_fst, List.filter_eq_nil_iff]
  push Not
  rfl

lemma applyLines_cons (line : Text) (lines : List Text) (v : SiteValue) :
    applyLines (line :: lines) v = applyLines lines ((lineChanges line).foldl Change.apply v) := by
  rw [applyLines, List.flatMap_cons, List.foldl_append, applyLines]

lemma applyLines_idle {line : Text} (h : lineChanges line = []) (lines : List Text)
    (v : SiteValue) : applyLines (line :: lines) v = applyLines lines v := by
  rw [applyLines_cons, h]
  rfl

/-! ### Lines in and out of blocks -/

/-- A line outside all blocks is blank, or it starts a block. -/
lemma line_outside (l : Lexer) : l.line false = .corrupt ∨
    l.line false = .default ∧ l.line true = .corrupt ∨
    l.line false = l.line true ∧ (l.line true = .blank ∨ ∃ name, l.line true = .site name) := by
  unfold Lexer.line
  by_cases hkey : l.key = []
  · rw [if_pos hkey, if_pos hkey]
    exact .inr (.inr ⟨rfl, .inl rfl⟩)
  · rw [if_neg hkey, if_neg hkey]
    by_cases hval : l.val = []
    · rw [if_pos hval, if_pos hval]
      by_cases hdefault : l.key = ascii "default"
      · refine .inr (.inl ⟨by simp [hdefault], ?_⟩)
        rw [hdefault]
        rfl
      · exact .inl (by simp [hdefault])
    · rw [if_neg hval, if_neg hval]
      by_cases hval2 : l.val2 = []
      · rw [if_pos hval2, if_pos hval2]
        by_cases hsite : l.key = ascii "site"
        · rw [if_pos hsite, if_pos hsite]
          exact .inr (.inr ⟨rfl, .inr ⟨l.val, rfl⟩⟩)
        · rw [if_neg hsite]
          exact .inl rfl
      · rw [if_neg hval2]
        exact .inl rfl

/-- In a block, no line is `default`. -/
lemma line_inside (l : Lexer) : l.line true ≠ .default := by
  intro h
  unfold Lexer.line at h
  simp only [Bool.not_true, Bool.false_eq_true, if_false] at h
  split_ifs at h
  · cases hflag : keyFlag l.key with
    | none => rw [hflag] at h; exact nomatch h
    | some c => rw [hflag] at h; exact nomatch h
  · cases hvalue : keyValue l.key l.val with
    | none => rw [hvalue] at h; exact nomatch h
    | some cs => rw [hvalue] at h; exact nomatch h

section Lines
variable {line : Text}

lemma blockLines_site (hsite : isSiteLine line = true) (lines : List Text) :
    blockLines (line :: lines) = [] := by
  rw [blockLines, List.takeWhile_cons_of_neg (by simp [hsite])]

lemma blockLines_other (hno : isSiteLine line = false) (lines : List Text) :
    blockLines (line :: lines) = line :: blockLines lines := by
  rw [blockLines, List.takeWhile_cons_of_pos (by simp [hno])]
  rfl

lemma siteBlocks_site (hsite : isSiteLine line = true) (lines : List Text) :
    siteBlocks (line :: lines) = (line, blockLines lines) :: siteBlocks lines :=
  if_pos hsite

lemma siteBlocks_other (hno : isSiteLine line = false) (lines : List Text) :
    siteBlocks (line :: lines) = siteBlocks lines :=
  if_neg (by simp [hno])

end Lines

/-! ### Reading, with sites as values -/

lemma change_nil (r : Reading) : r.change [] = r := by
  obtain ⟨default, this, sites⟩ := r
  cases this <;> cases sites <;> rfl

/-- A line in a block: the block goes on, or the next one starts. -/
lemma readLine_inside {copypath : Text} {r r' : Reading} {line : Text} (hin : r.this ≠ .null)
    (h : Rcfile.readLine copypath r line = some r') :
    isSiteLine line = true ∧
        r' = { r with
          this := .site
          sites := newSite copypath r.default (siteName line) :: r.sites } ∨
      isSiteLine line = false ∧ r' = r.change (lineChanges line) := by
  have hblock : decide (r.this ≠ .null) = true := decide_eq_true hin
  unfold Rcfile.readLine at h
  rw [hblock] at h
  unfold isSiteLine siteName lineChanges
  cases hline : (lexLine line).line true with
  | blank =>
    rw [hline] at h
    obtain rfl := Option.some.inj h
    exact .inr ⟨rfl, (change_nil r).symm⟩
  | default => exact absurd hline (line_inside _)
  | site name =>
    rw [hline] at h
    obtain rfl := Option.some.inj h
    exact .inl ⟨rfl, rfl⟩
  | changes cs =>
    rw [hline] at h
    obtain rfl := Option.some.inj h
    exact .inr ⟨rfl, rfl⟩
  | corrupt =>
    rw [hline] at h
    exact absurd h nofun

/-- A line outside all blocks. -/
lemma readLine_outside {copypath : Text} {r r' : Reading} {line : Text} (hout : r.this = .null)
    (h : Rcfile.readLine copypath r line = some r') :
    isSiteLine line = true ∧
        r' = { r with
          this := .site
          sites := newSite copypath r.default (siteName line) :: r.sites } ∨
      isSiteLine line = false ∧ lineChanges line = [] ∧
        (r' = r ∨ r' = { r with this := .default }) := by
  have hblock : decide (r.this ≠ .null) = false := decide_eq_false (not_not_intro hout)
  unfold Rcfile.readLine at h
  rw [hblock] at h
  unfold isSiteLine siteName lineChanges
  obtain hcorrupt | ⟨hdefault, htrue⟩ | ⟨hsame, hblank | ⟨name, hsite⟩⟩ :=
    line_outside (lexLine line)
  · rw [hcorrupt] at h
    exact absurd h nofun
  · rw [hdefault] at h
    rw [htrue]
    exact .inr ⟨rfl, rfl, .inr (Option.some.inj h).symm⟩
  · rw [hsame, hblank] at h
    rw [hblank]
    exact .inr ⟨rfl, rfl, .inl (Option.some.inj h).symm⟩
  · rw [hsame, hsite] at h
    rw [hsite]
    exact .inl ⟨rfl, (Option.some.inj h).symm⟩

/-- In the block of a site, the rest of its lines are applied to it. -/
lemma foldLines_inside {copypath : Text} {lines : List Text} : ∀ {n : ℕ} {r r' : Reading}
    {v : SiteValue} {older : List SiteValue}, r.this = .site → r.sites = v :: older →
    foldLines (Rcfile.readLine copypath) n r lines = .ok r' →
    r'.sites.reverse = older.reverse ++ applyLines (blockLines lines) v ::
      (siteBlocks lines).map (siteValue copypath r.default) := by
  induction lines with
  | nil =>
    intro n r r' v older _ hsites h
    obtain rfl := Except.ok.inj h
    simp [hsites, siteBlocks, blockLines, applyLines]
  | cons line lines ih =>
    intro n r r' v older hthis hsites h
    rw [foldLines] at h
    cases hline : Rcfile.readLine copypath r line with
    | none =>
      rw [hline] at h
      exact absurd h (by rintro ⟨⟩)
    | some r₁ =>
      rw [hline] at h
      have hin : r.this ≠ .null := by rw [hthis]; rintro ⟨⟩
      obtain ⟨hsite, rfl⟩ | ⟨hno, rfl⟩ := readLine_inside hin hline
      · rw [ih rfl rfl h, blockLines_site hsite, siteBlocks_site hsite, hsites]
        simp [applyLines, siteValue]
      · have hchange : r.change (lineChanges line) =
            { r with sites := (lineChanges line).foldl Change.apply v :: older } := by
          rw [Reading.change, hthis, hsites]
          rfl
        rw [hchange] at h
        rw [ih (by exact hthis) rfl h, blockLines_other hno, siteBlocks_other hno, applyLines_cons]

/-- Before the first site, lines are applied to the default settings. -/
lemma foldLines_outside {copypath : Text} {lines : List Text} : ∀ {n : ℕ} {r r' : Reading},
    r.this ≠ .site → r.sites = [] →
    foldLines (Rcfile.readLine copypath) n r lines = .ok r' →
    r'.sites.reverse = (siteBlocks lines).map
      (siteValue copypath (applyLines (blockLines lines) r.default)) := by
  induction lines with
  | nil =>
    intro n r r' _ hsites h
    obtain rfl := Except.ok.inj h
    simp [hsites, siteBlocks]
  | cons line lines ih =>
    intro n r r' hthis hsites h
    rw [foldLines] at h
    cases hline : Rcfile.readLine copypath r line with
    | none =>
      rw [hline] at h
      exact absurd h (by rintro ⟨⟩)
    | some r₁ =>
      rw [hline] at h
      have hfirst : isSiteLine line = true → r₁ = { r with
          this := .site
          sites := newSite copypath r.default (siteName line) :: r.sites } →
          r'.sites.reverse = (siteBlocks (line :: lines)).map
            (siteValue copypath (applyLines (blockLines (line :: lines)) r.default)) := by
        intro hsite hr₁
        subst hr₁
        rw [foldLines_inside rfl rfl h, blockLines_site hsite, siteBlocks_site hsite, hsites]
        simp [applyLines, siteValue]
      by_cases hnull : r.this = .null
      · obtain ⟨hsite, hr₁⟩ | ⟨hno, hidle, hr₁⟩ := readLine_outside hnull hline
        · exact hfirst hsite hr₁
        · rw [blockLines_other hno, siteBlocks_other hno, applyLines_idle hidle]
          obtain rfl | rfl := hr₁
          · exact ih hthis hsites h
          · exact ih (r := { r with this := .default }) (by rintro ⟨⟩) hsites h
      · obtain ⟨hsite, hr₁⟩ | ⟨hno, rfl⟩ := readLine_inside hnull hline
        · exact hfirst hsite hr₁
        · have hdefault : r.this = .default := by
            cases hr : r.this with
            | null => exact absurd hr hnull
            | default => rfl
            | site => exact absurd hr hthis
          rw [blockLines_other hno, siteBlocks_other hno, applyLines_cons]
          have hchange : r.change (lineChanges line) =
              { r with default := (lineChanges line).foldl Change.apply r.default } := by
            rw [Reading.change, hdefault]
          rw [hchange] at h
          exact ih (by exact hthis) (by exact hsites) h

end Sitecopy.RcfileMemory
