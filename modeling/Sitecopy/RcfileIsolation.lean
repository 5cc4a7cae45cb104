import Sitecopy.RcfileSites

/-!
# Sites do not influence each other

The memory that `rcfile_read` builds is followed line by line beside the reading with sites as
values. No line uses memory that is not allocated, and at the end every site of the list
stands for the value that its own block and the default block give.
-/
namespace Sitecopy.RcfileMemory
open SiteModel BufferedLines Rcfile LinkedCells

/-- Where `this_site` points, and what `last_site` is. -/
def Here (m : Mem) (cells : List (ℕ × Fields)) : ThisSite → Prop
  | .null => m.thisSite = .null ∧ m.lastSite = none ∧ cells = []
  | .default => m.thisSite = .default ∧ m.lastSite = none ∧ cells = []
  | .site => ∃ before a s, cells = before ++ [(a, s)] ∧ m.thisSite = .site a

/-- The memory `m` is that of the reading `r`, with the sites at `cells`. -/
structure Simulates (first : Option ℕ) (m : Mem) (r : Reading) (w : World) (p : Option ℕ)
    (cells : List (ℕ × Fields)) : Prop where
  strings : w.strings = m.strings
  items : w.items = m.items
  fresh : Fresh w
  default : Holds w .default m.default.val r.default
  default_next : m.default.next = none
  linked : Linked m.sites p cells
  first : m.first = if cells = [] then first else p
  sites : List.Forall₂ (fun c v => Holds w (.site c.1) c.2 v) cells.reverse r.sites
  here : Here m cells r.this

def Simulated (first : Option ℕ) (m : Mem) (r : Reading) : Prop :=
  ∃ w p cells, Simulates first m r w p cells

lemma simulated_initial (first : Option ℕ) : Simulated first (initial first) {} := by
  let w : World :=
    { strings := Heap.alloc {} (ascii "ftp")
      items := {}
      ofString := Function.update (fun _ => .null) 0 .default
      ofItem := fun _ => (.default, .excludes) }
  have hfresh : Fresh w := by
    intro a ha
    have hne : a ≠ 0 := Nat.ne_of_gt ha
    exact Function.update_of_ne hne Pointer.default fun _ => Pointer.null
  have hlist : ∀ l, HoldsList w .default l none [] :=
    fun l => ⟨[], rfl, Nat.zero_le _, nofun, .nil⟩
  have hdefault : Holds w .default (initial first).default.val builtinSite :=
    ⟨rfl, rfl, rfl, fun _ => trivial, hlist⟩
  exact ⟨w, none, [], ⟨rfl, rfl, hfresh, hdefault, rfl, rfl, rfl, .nil, rfl, rfl, rfl⟩⟩

/-! ### Keys -/

/-- A key changes the site that it belongs to, and only that. -/
lemma change_simulated {first : Option ℕ} {m : Mem} {r : Reading} (h : Simulated first m r)
    (hin : r.this ≠ .null) (c : Change) :
    ∃ m', m.change c = some m' ∧ Simulated first m' (r.change [c]) := by
  obtain ⟨w, p, cells, hstrings, hitems, hfresh, hdefault, hnext, hlinked, hfirst, hsites, hhere⟩ := h
  cases hthis : r.this with
  | null => exact absurd hthis hin
  | default =>
    rw [hthis] at hhere
    obtain ⟨hpointer, hlast, rfl⟩ := hhere
    obtain ⟨w', s', hrun, hfresh', hholds, -⟩ :=
      runChange_cases hfresh (by rintro ⟨⟩) hdefault c
    have hempty : r.sites = [] := List.forall₂_nil_left_iff.mp hsites
    let m' : Mem :=
      { m with
        strings := w'.strings, items := w'.items, default := { m.default with val := s' }
        thisSite := .default }
    have hthis' : (r.change [c]).this = .default := by rw [Reading.change, hthis]
    refine ⟨m', ?_, ⟨w', p, [], ⟨rfl, rfl, hfresh', ?_, hnext, hlinked, hfirst, ?_, ?_⟩⟩⟩
    · simp only [Mem.change, Mem.this, hpointer, ← hstrings, ← hitems, hrun, Mem.setThis,
        Option.bind_eq_bind, Option.bind_some]
      rfl
    · rw [Reading.change, hthis]
      exact hholds
    · rw [Reading.change, hthis, hempty]
      exact .nil
    · rw [hthis']
      exact ⟨rfl, hlast, rfl⟩
  | site =>
    rw [hthis] at hhere
    obtain ⟨before, a, s, rfl, hpointer⟩ := hhere
    have hne := hlinked.concat_cases.2.2
    rw [List.reverse_append] at hsites
    obtain ⟨v, older, hv, holder, hcons⟩ := List.forall₂_cons_left_iff.mp hsites
    obtain ⟨w', s', hrun, hfresh', hholds, hothers⟩ := runChange_cases hfresh (by rintro ⟨⟩) hv c
    obtain ⟨n, sites, hget, hval, hset, -, hlinked'⟩ := hlinked.set_last s'
    let m' : Mem :=
      { m with
        strings := w'.strings, items := w'.items, sites := sites, thisSite := .site a }
    have hthis' : (r.change [c]).this = .site := by rw [Reading.change, hthis]
    have hfirst' : m.first = if before ++ [(a, s')] = [] then first else p := by
      rw [hfirst, if_neg (by simp), if_neg (by simp)]
    have hbefore : List.Forall₂ (fun c v => Holds w' (.site c.1) c.2 v) before.reverse older := by
      have hboth := (List.forall₂_and_left _ _).mpr
        ⟨fun c hc => hne c (List.mem_reverse.mp hc), holder⟩
      refine hboth.imp fun c v hcv => hothers _ _ _ (fun heq => hcv.1 ?_) hcv.2
      exact Pointer.site.inj heq
    refine ⟨m', ?_, ⟨w', p, before ++ [(a, s')], ⟨rfl, rfl, hfresh', ?_, hnext, hlinked',
      hfirst', ?_, ?_⟩⟩⟩
    · simp only [Mem.change, Mem.this, hpointer, hget, hval, ← hstrings, ← hitems, hrun,
        Mem.setThis, hset, Option.bind_eq_bind, Option.bind_some, Option.map_some]
      rfl
    · rw [Reading.change, hthis]
      exact hothers _ _ _ (by rintro ⟨⟩) hdefault
    · rw [Reading.change, hthis, hcons, List.reverse_append]
      exact .cons hholds hbefore
    · rw [hthis']
      exact ⟨before, a, s', rfl, rfl⟩

lemma change_this (r : Reading) (cs : List Change) : (r.change cs).this = r.this := by
  cases hthis : r.this <;> rw [Reading.change, hthis]; exact hthis

lemma change_cons (r : Reading) (c : Change) (cs : List Change) :
    r.change (c :: cs) = (r.change [c]).change cs := by
  obtain ⟨default, this, sites⟩ := r
  cases this <;> cases sites <;> rfl

lemma changes_simulated {first : Option ℕ} (cs : List Change) : ∀ {m : Mem} {r : Reading},
    Simulated first m r → r.this ≠ .null →
    ∃ m', cs.foldlM Mem.change m = some m' ∧ Simulated first m' (r.change cs) := by
  induction cs with
  | nil =>
    intro m r h _
    exact ⟨m, rfl, by rwa [change_nil]⟩
  | cons c cs ih =>
    intro m r h hin
    obtain ⟨m₁, hm₁, h₁⟩ := change_simulated h hin c
    obtain ⟨m', hm', h'⟩ := ih h₁ (by rwa [change_this])
    refine ⟨m', ?_, by rwa [change_cons]⟩
    rw [List.foldlM_cons, hm₁]
    exact hm'

/-! ### Lines -/

lemma siteBefore_eq {m : Mem} {cells : List (ℕ × Fields)} {this : ThisSite}
    (h : Here m cells this) : m.siteBefore = lastAddr none cells := by
  cases this with
  | null =>
    obtain ⟨hpointer, -, rfl⟩ := h
    rw [Mem.siteBefore, hpointer]
    rfl
  | default =>
    obtain ⟨hpointer, hlast, rfl⟩ := h
    rw [Mem.siteBefore, hpointer]
    exact hlast
  | site =>
    obtain ⟨before, a, s, rfl, hpointer⟩ := h
    rw [Mem.siteBefore, hpointer, lastAddr_concat]

lemma beginSite_simulated {first : Option ℕ} {m : Mem} {r : Reading} (h : Simulated first m r)
    (copypath name : Text) : ∃ m', m.beginSite copypath name = some m' ∧
      Simulated first m'
        { r with this := .site, sites := newSite copypath r.default name :: r.sites } := by
  obtain ⟨w, p, cells, hstrings, hitems, hfresh, hdefault, hnext, hlinked, hfirst, hsites, hhere⟩ := h
  obtain ⟨w', s', hrun, hle, hfresh', hholds⟩ :=
    newFields_cases hfresh hdefault (.site m.sites.size) copypath name
  have hlast := siteBefore_eq hhere
  have hnone : (lastAddr none cells = none) = (cells = []) := by
    cases cells using List.reverseRecOn with
    | nil => simp [lastAddr]
    | append_singleton before c => simp
  obtain ⟨sites, happend, -, hlinked', -⟩ :=
    hlinked.append (n := { m.default with val := s' }) hnext
  let m' : Mem :=
    { m with
      strings := w'.strings, items := w'.items, sites := sites
      thisSite := .site m.sites.size
      lastSite := lastAddr none cells
      first := if lastAddr none cells = none then some m.sites.size else m.first }
  refine ⟨m', ?_, ⟨w', if cells = [] then some m.sites.size else p,
    cells ++ [(m.sites.size, s')], ⟨rfl, rfl, hfresh', hdefault.mono hle, hnext, hlinked', ?_, ?_,
      ⟨cells, m.sites.size, s', rfl, rfl⟩⟩⟩⟩
  · simp only [Mem.beginSite, hlast, ← hstrings, ← hitems, hrun, happend, Option.bind_eq_bind,
      Option.bind_some]
    rfl
  · rw [if_neg (by simp)]
    simp only [m', hnone, hfirst]
    split_ifs <;> rfl
  · rw [List.reverse_append]
    exact .cons hholds (hsites.imp fun _ _ hcv => hcv.mono hle)

lemma thisSite_eq_null_iff {first : Option ℕ} {m : Mem} {r : Reading} (h : Simulated first m r) :
    m.thisSite = .null ↔ r.this = .null := by
  obtain ⟨w, p, cells, hsim⟩ := h
  have hhere := hsim.here
  cases hthis : r.this with
  | null =>
    rw [hthis] at hhere
    simp [hhere.1]
  | default =>
    rw [hthis] at hhere
    simp [hhere.1]
  | site =>
    rw [hthis] at hhere
    obtain ⟨-, a, -, -, hpointer⟩ := hhere
    simp [hpointer]

/-- A line is accepted for memory if it is for values, and what it builds is the same. -/
lemma readLine_simulated {first : Option ℕ} {m : Mem} {r : Reading} (h : Simulated first m r)
    (copypath line : Text) : match Rcfile.readLine copypath r line with
      | none => readLine copypath (some m) line = none
      | some r' => ∃ m', readLine copypath (some m) line = some (some m') ∧
          Simulated first m' r' := by
  have hnull := thisSite_eq_null_iff h
  have hblock : decide (m.thisSite ≠ .null) = decide (r.this ≠ .null) := by simp [hnull]
  unfold Rcfile.readLine readLine
  simp only [hblock]
  cases hline : (lexLine line).line (decide (r.this ≠ .null)) with
  | blank => exact ⟨m, rfl, h⟩
  | corrupt => rfl
  | site name =>
    obtain ⟨m', hm', h'⟩ := beginSite_simulated h copypath name
    exact ⟨m', congrArg some hm', h'⟩
  | changes cs =>
    have hin : r.this ≠ .null := by
      intro hout
      rw [decide_eq_false (not_not_intro hout)] at hline
      obtain hcorrupt | ⟨hdefault, -⟩ | ⟨hsame, hblank | ⟨name, hsite⟩⟩ :=
        line_outside (lexLine line)
      · rw [hline] at hcorrupt
        cases hcorrupt
      · rw [hline] at hdefault
        cases hdefault
      · rw [← hsame, hline] at hblank
        cases hblank
      · rw [← hsame, hline] at hsite
        cases hsite
    obtain ⟨m', hm', h'⟩ := changes_simulated cs h hin
    exact ⟨m', congrArg some hm', h'⟩
  | default =>
    -- only outside all blocks
    have hout : r.this = .null := by
      by_contra hin
      rw [decide_eq_true hin] at hline
      exact line_inside _ hline
    obtain ⟨w, p, cells, hsim⟩ := h
    have hhere := hsim.here
    rw [hout] at hhere
    obtain ⟨-, hlast, rfl⟩ := hhere
    exact ⟨{ m with thisSite := .default }, rfl, w, p, [], { hsim with here := ⟨rfl, hlast, rfl⟩ }⟩

/-! ### Files -/

lemma foldLines_simulated {first : Option ℕ} (copypath : Text) (lines : List Text) :
    ∀ {n : ℕ} {m : Mem} {r : Reading}, Simulated first m r →
      match foldLines (Rcfile.readLine copypath) n r lines with
      | .error e => foldLines (readLine copypath) n (some m) lines = .error e
      | .ok r' => ∃ m', foldLines (readLine copypath) n (some m) lines = .ok (some m') ∧
          Simulated first m' r' := by
  induction lines with
  | nil => exact fun {n m r} h => ⟨m, rfl, h⟩
  | cons line lines ih =>
    intro n m r h
    have hstep := readLine_simulated h copypath line
    rw [foldLines, foldLines]
    cases hline : Rcfile.readLine copypath r line with
    | none =>
      rw [hline] at hstep
      rw [hstep]
    | some r₁ =>
      rw [hline] at hstep
      obtain ⟨m₁, hm₁, h₁⟩ := hstep
      rw [hm₁]
      exact ih h₁

/-- In memory and with values, the same rcfiles are accepted, and no memory is used that is
not allocated. -/
theorem rcfileRead_simulated (copypath content : Text) (first : Option ℕ) :
    match Rcfile.rcfileRead copypath content with
    | .error e => rcfileRead copypath first content = .error e
    | .ok r => ∃ m, rcfileRead copypath first content = .ok (some m) ∧ Simulated first m r :=
  foldLines_simulated copypath _ (simulated_initial first)

/-- There is one site for each `site` line, in order and properly linked, and each stands for
what the default block and its own block say. -/
def SitesIsolated (copypath : Text) (first : Option ℕ) (content : Text) : Prop :=
  let lines := linesOf newline content
  ∃ m cells, rcfileRead copypath first content = .ok (some m) ∧ Linked m.sites m.first cells ∧
    List.Forall₂ (fun c block => Represents m.strings m.items c.2
      (siteValue copypath (defaultValue lines) block)) cells (siteBlocks lines)

/-- The sites of an accepted rcfile do not influence each other, if and only if there is one
or the list that they are put in is empty. -/
theorem sites_isolated_iff {copypath content : Text} {first : Option ℕ} {mem : Option Mem}
    (hshort : ∀ line ∈ linesOf newline content, line.length ≤ LINESIZE - 1)
    (hread : rcfileRead copypath first content = .ok mem) :
    SitesIsolated copypath first content ↔
      first = none ∨ ∃ line ∈ linesOf newline content, isSiteLine line := by
  have hsim := rcfileRead_simulated copypath content first
  cases hvalue : Rcfile.rcfileRead copypath content with
  | error e =>
    rw [hvalue] at hsim
    rw [hsim] at hread
    cases hread
  | ok r =>
    rw [hvalue] at hsim
    obtain ⟨m, hm, w, p, cells, hstrings, hitems, -, -, -, hlinked, hfirst, hsites, -⟩ := hsim
    have hlines : foldLines (Rcfile.readLine copypath) 0 {} (linesOf newline content) = .ok r := by
      rw [← hvalue, Rcfile.rcfileRead, throughBuffer,
        piecesOf_short (fun l hl => hshort l (List.mem_of_mem_head? hl)) hshort]
    have hblocks := foldLines_outside (r := {}) (by rintro ⟨⟩) rfl hlines
    rw [← List.forall₂_reverse_iff, List.reverse_reverse, hblocks] at hsites
    have hvalues := List.forall₂_map_right_iff.mp hsites
    have hempty : cells = [] ↔ siteBlocks (linesOf newline content) = [] := by
      rw [← List.length_eq_zero_iff, ← List.length_eq_zero_iff, hvalues.length_eq]
    have hnone := siteBlocks_eq_nil_iff (linesOf newline content)
    constructor
    · rintro ⟨m', cells', hm', hlinked', hvalues'⟩
      obtain rfl : m' = m := Option.some.inj (Except.ok.inj (hm'.symm.trans hm))
      by_contra hno
      rw [not_or, ← hnone] at hno
      rw [hno.2] at hvalues'
      obtain rfl := List.forall₂_nil_right_iff.mp hvalues'
      rw [if_pos (hempty.mpr hno.2)] at hfirst
      have hnull : m'.first = none := hlinked'
      exact hno.1 (hfirst.symm.trans hnull)
    · intro hcond
      have hlist : m.first = p := by
        rw [hfirst]
        split_ifs with hcells
        · have hsite := hnone.mp (hempty.mp hcells)
          rw [hcells] at hlinked
          have hp : p = none := hlinked
          rw [hp]
          exact hcond.resolve_right hsite
        · rfl
      rw [← hlist] at hlinked
      refine ⟨m, cells, hm, hlinked, hvalues.imp fun c block hc => ?_⟩
      rw [← hstrings, ← hitems]
      exact hc.represents

/-- A default block and two sites. -/
def twoSites : Text :=
  ascii "default\n  exclude *.bak\nsite a\n  protocol ssh\nsite b\n  exclude /tmp\n"

theorem sites_isolated_two : ∃ mem,
    (∀ line ∈ linesOf newline twoSites, line.length ≤ LINESIZE - 1) ∧
      rcfileRead [] none twoSites = .ok mem ∧ SitesIsolated [] none twoSites := by
  have hshort : ∀ line ∈ linesOf newline twoSites, line.length ≤ LINESIZE - 1 := by
    rw [twoSites, ascii_ofList]
    decide +kernel
  cases hread : rcfileRead [] none twoSites with
  | error e =>
    have hok : (rcfileRead [] none twoSites).toOption.isSome = true := by
      rw [twoSites, ascii_ofList]
      decide +kernel
    rw [hread] at hok
    exact nomatch hok
  | ok mem => exact ⟨mem, hshort, rfl, (sites_isolated_iff hshort hread).mpr (.inl rfl)⟩

/-- Nothing is written to the list when there is no site. -/
theorem siteless_keeps_list : ¬ SitesIsolated [] (some 0) (ascii "# no site\n") := by
  rintro ⟨m, cells, hread, hlinked, hvalues⟩
  have hrun : rcfileRead [] (some 0) (ascii "# no site\n") = .ok (some (initial (some 0))) := rfl
  have hm := Option.some.inj (Except.ok.inj (hread.symm.trans hrun))
  have hblocks : siteBlocks (linesOf newline (ascii "# no site\n")) = [] := by decide
  rw [hblocks] at hvalues
  obtain rfl := List.forall₂_nil_right_iff.mp hvalues
  have hnull : m.first = none := hlinked
  rw [hm] at hnull
  exact nomatch hnull

end Sitecopy.RcfileMemory
