import Mathlib

/-!
# Lines read through a buffer

A text is cut into lines, or into the pieces that a reader gets who has room for `size`
elements at a time and stops behind each separator. A line-based reader folds a step over
what it gets and stops at the first one that is rejected, naming its number.
-/
namespace Sitecopy.BufferedLines

variable {α σ τ : Type} [DecidableEq α] (sep : α)

/-- Put an element at the front of the first line. -/
def consHead (c : α) : List (List α) → List (List α)
  | [] => [[c]]
  | l :: ls => (c :: l) :: ls

/-- The lines of a text, each with the separator that ends it. -/
def linesOf : List α → List (List α)
  | [] => []
  | c :: t => if c = sep then [c] :: linesOf t else consHead c (linesOf t)

/-- The pieces of a text for a buffer with room for `size` elements, `room` of which are
left in the first one. -/
def piecesOf (size : ℕ) : ℕ → List α → List (List α)
  | _, [] => []
  | room, c :: t =>
    if c = sep ∨ room ≤ 1 then [c] :: piecesOf size size t
    else consHead c (piecesOf size (room - 1) t)

/-- Lines with a separator behind each. -/
def terminated (ls : List (List α)) : List α := ls.flatMap (· ++ [sep])

/-- Fold a step over lines. The error has the number of the line and the line. -/
def foldLines (step : σ → τ → Option σ) : ℕ → σ → List τ → Except (ℕ × τ) σ
  | _, s, [] => .ok s
  | n, s, l :: ls =>
    match step s l with
    | none => .error (n + 1, l)
    | some s' => foldLines step (n + 1) s' ls

/-! ### Cutting -/

section Cutting
variable {sep}

omit [DecidableEq α] in
lemma consHead_append (c : α) {ls : List (List α)} (h : ls ≠ []) (more : List (List α)) :
    consHead c (ls ++ more) = consHead c ls ++ more := by
  cases ls with
  | nil => exact absurd rfl h
  | cons l ls => rfl

lemma linesOf_line {l : List α} (hl : sep ∉ l) (t : List α) :
    linesOf sep (l ++ sep :: t) = (l ++ [sep]) :: linesOf sep t := by
  induction l with
  | nil => simp [linesOf]
  | cons c l ih =>
    rw [List.mem_cons, not_or] at hl
    rw [List.cons_append, linesOf, if_neg (Ne.symm hl.1), ih hl.2]
    rfl

lemma linesOf_terminated {ls : List (List α)} (hls : ∀ l ∈ ls, sep ∉ l) (t : List α) :
    linesOf sep (terminated sep ls ++ t) = ls.map (· ++ [sep]) ++ linesOf sep t := by
  induction ls with
  | nil => rfl
  | cons l ls ih =>
    have hrest := ih fun l hl => hls l (List.mem_cons_of_mem _ hl)
    rw [terminated, List.flatMap_cons, ← terminated]
    simp only [List.append_assoc, List.cons_append, List.nil_append]
    rw [linesOf_line (hls l List.mem_cons_self), hrest]
    rfl

/-- A line that fits is one piece, and the next one starts with an empty buffer. -/
lemma piecesOf_line {size : ℕ} {l : List α} (hl : sep ∉ l) (t : List α) :
    ∀ {room : ℕ}, l.length + 1 ≤ room →
      piecesOf sep size room (l ++ sep :: t) = (l ++ [sep]) :: piecesOf sep size size t := by
  induction l with
  | nil =>
    intro room _
    rw [List.nil_append, piecesOf, if_pos (.inl rfl)]
    rfl
  | cons c l ih =>
    intro room hroom
    rw [List.mem_cons, not_or] at hl
    rw [List.length_cons] at hroom
    have hno : ¬ (c = sep ∨ room ≤ 1) := by
      rintro (h | h)
      · exact hl.1 h.symm
      · omega
    rw [List.cons_append, piecesOf, if_neg hno, ih hl.2 (by omega)]
    rfl

/-- Behind a separator the buffer is empty, however long the line was. -/
lemma piecesOf_append_sep {size : ℕ} (l t : List α) : ∀ room,
    piecesOf sep size room (l ++ sep :: t) =
      piecesOf sep size room (l ++ [sep]) ++ piecesOf sep size size t := by
  induction l with
  | nil =>
    intro room
    simp [piecesOf]
  | cons c l ih =>
    intro room
    rw [List.cons_append, List.cons_append, piecesOf, piecesOf]
    split_ifs
    · rw [ih size]
      rfl
    · rw [ih (room - 1), consHead_append]
      cases l with
      | nil => simp [piecesOf]
      | cons d l =>
        rw [List.cons_append, piecesOf]
        split_ifs
        · simp
        · cases piecesOf sep size (room - 1 - 1) (l ++ [sep]) <;> simp [consHead]

/-- The first piece of a line that does not fit. -/
lemma piecesOf_full {size room : ℕ} (hroom : 1 ≤ room) : ∀ {t : List α}, room ≤ t.length →
    sep ∉ t.take (room - 1) →
    piecesOf sep size room t = t.take room :: piecesOf sep size size (t.drop room) := by
  induction room, hroom using Nat.le_induction with
  | base =>
    intro t ht _
    cases t with
    | nil => exact absurd ht (by simp)
    | cons c t => simp [piecesOf]
  | succ room hroom ih =>
    intro t ht hsep
    cases t with
    | nil => exact absurd ht (by simp)
    | cons c t =>
      obtain ⟨k, rfl⟩ : ∃ k, room = k + 1 := ⟨room - 1, by omega⟩
      rw [Nat.add_sub_cancel, List.take_succ_cons, List.mem_cons, not_or] at hsep
      rw [List.length_cons] at ht
      have hno : ¬ (c = sep ∨ k + 1 + 1 ≤ 1) := by
        rintro (h | h)
        · exact hsep.1 h.symm
        · omega
      rw [piecesOf, if_neg hno, Nat.add_sub_cancel, ih (by omega) hsep.2]
      rfl

lemma piecesOf_terminated {size : ℕ} {ls : List (List α)}
    (hls : ∀ l ∈ ls, sep ∉ l ∧ l.length + 1 ≤ size) (t : List α) :
    piecesOf sep size size (terminated sep ls ++ t) =
      ls.map (· ++ [sep]) ++ piecesOf sep size size t := by
  induction ls with
  | nil => rfl
  | cons l ls ih =>
    obtain ⟨hl, hlen⟩ := hls l List.mem_cons_self
    have hrest := ih fun l hl => hls l (List.mem_cons_of_mem _ hl)
    rw [terminated, List.flatMap_cons, ← terminated]
    simp only [List.append_assoc, List.cons_append, List.nil_append]
    rw [piecesOf_line hl _ hlen, hrest]
    rfl

lemma linesOf_eq_nil {t : List α} : linesOf sep t = [] ↔ t = [] := by
  cases t with
  | nil => simp [linesOf]
  | cons c t =>
    rw [linesOf]
    split_ifs
    · simp
    · cases linesOf sep t <;> simp [consHead]

lemma ne_nil_of_mem_linesOf {t : List α} : ∀ l ∈ linesOf sep t, l ≠ [] := by
  induction t with
  | nil => simp [linesOf]
  | cons c t ih =>
    rw [linesOf]
    split_ifs
    · simpa using ih
    · cases h : linesOf sep t with
      | nil => simp [consHead]
      | cons l ls =>
        rw [h] at ih
        simpa [consHead] using fun l hl => ih l (List.mem_cons_of_mem _ hl)

lemma linesOf_rest {t : List α} (ht : sep ∉ t) : linesOf sep t = if t = [] then [] else [t] := by
  induction t with
  | nil => rfl
  | cons c t ih =>
    rw [List.mem_cons, not_or] at ht
    rw [linesOf, if_neg (Ne.symm ht.1), ih ht.2, if_neg (List.cons_ne_nil _ _)]
    split_ifs with hnil
    · rw [hnil, consHead]
    · rw [consHead]

/-- The first line starts with what stands before the first separator. -/
lemma linesOf_starts {p : List α} (hp : sep ∉ p) (hne : p ≠ []) (t : List α) :
    ∃ l, p ++ l ∈ linesOf sep (p ++ t) := by
  by_cases ht : sep ∈ t
  · obtain ⟨l, rest, rfl, hl⟩ := List.eq_append_cons_of_mem ht
    refine ⟨l ++ [sep], ?_⟩
    have hline : sep ∉ p ++ l := by simp [hp, hl]
    rw [← List.append_assoc, ← List.append_assoc, linesOf_line hline]
    exact List.mem_cons_self
  · have hline : sep ∉ p ++ t := by simp [hp, ht]
    exact ⟨t, by rw [linesOf_rest hline]; simp [hne]⟩

/-- When every line fits the pieces are the lines. -/
lemma piecesOf_short {size : ℕ} {t : List α} : ∀ {room : ℕ},
    (∀ l ∈ (linesOf sep t).head?, l.length ≤ room) → (∀ l ∈ linesOf sep t, l.length ≤ size) →
      piecesOf sep size room t = linesOf sep t := by
  induction t with
  | nil =>
    intro room _ _
    rfl
  | cons c t ih =>
    intro room hhead hall
    by_cases hc : c = sep
    · rw [linesOf, if_pos hc] at hall ⊢
      rw [piecesOf, if_pos (.inl hc), ih]
      · exact fun l hl => hall l (List.mem_cons_of_mem _ (List.mem_of_mem_head? hl))
      · exact fun l hl => hall l (List.mem_cons_of_mem _ hl)
    · rw [linesOf, if_neg hc] at hhead hall ⊢
      cases h : linesOf sep t with
      | nil =>
        obtain rfl := linesOf_eq_nil.mp h
        simp [piecesOf, consHead]
      | cons l ls =>
        have hl : l ≠ [] := ne_nil_of_mem_linesOf l (by rw [h]; exact List.mem_cons_self)
        have hpos := List.length_pos_iff.mpr hl
        rw [h] at hhead hall ih
        have hroom : l.length + 1 ≤ room := hhead (c :: l) rfl
        have hno : ¬ (c = sep ∨ room ≤ 1) := by
          rintro (h | h)
          · exact hc h
          · omega
        rw [piecesOf, if_neg hno, ih]
        · intro l' hl'
          obtain rfl := Option.some.inj hl'
          omega
        · intro l' hl'
          rcases List.mem_cons.mp hl' with rfl | hmem
          · have := hall (c :: l') List.mem_cons_self
            rw [List.length_cons] at this
            omega
          · exact hall l' (List.mem_cons_of_mem _ hmem)

end Cutting

/-! ### Folding -/

section Folding
variable {step : σ → τ → Option σ}

lemma foldLines_append (n : ℕ) (s : σ) (ls ls' : List τ) :
    foldLines step n s (ls ++ ls') = match foldLines step n s ls with
      | .ok s' => foldLines step (n + ls.length) s' ls'
      | .error e => .error e := by
  induction ls generalizing n s with
  | nil => rfl
  | cons l ls ih =>
    rw [List.cons_append, foldLines, foldLines]
    cases step s l with
    | none => rfl
    | some s' =>
      simp only [ih, List.length_cons]
      rw [show n + 1 + ls.length = n + (ls.length + 1) by omega]

lemma foldLines_append_ok {n : ℕ} {s s' : σ} {ls : List τ}
    (h : foldLines step n s ls = .ok s') (ls' : List τ) :
    foldLines step n s (ls ++ ls') = foldLines step (n + ls.length) s' ls' := by
  rw [foldLines_append, h]

lemma foldLines_append_error {n : ℕ} {s : σ} {ls : List τ} {e : ℕ × τ}
    (h : foldLines step n s ls = .error e) (ls' : List τ) :
    foldLines step n s (ls ++ ls') = .error e := by
  rw [foldLines_append, h]

/-- The number of the rejected line. -/
lemma foldLines_error {n : ℕ} {s : σ} {ls : List τ} {e : ℕ × τ}
    (h : foldLines step n s ls = .error e) : n < e.1 ∧ e.1 ≤ n + ls.length := by
  induction ls generalizing n s with
  | nil => exact absurd h nofun
  | cons l ls ih =>
    rw [foldLines] at h
    rw [List.length_cons]
    cases hstep : step s l with
    | none =>
      simp only [hstep] at h
      obtain rfl := Except.error.inj h
      exact ⟨Nat.lt_succ_self n, by omega⟩
    | some s' =>
      simp only [hstep] at h
      have := ih h
      omega

lemma foldLines_congr {step' : σ → τ → Option σ} {ls : List τ}
    (h : ∀ s, ∀ l ∈ ls, step s l = step' s l) (n : ℕ) (s : σ) :
    foldLines step n s ls = foldLines step' n s ls := by
  induction ls generalizing n s with
  | nil => rfl
  | cons l ls ih =>
    rw [foldLines, foldLines, h s l List.mem_cons_self]
    cases step' s l with
    | none => rfl
    | some s' => exact ih (fun s l hl => h s l (List.mem_cons_of_mem _ hl)) _ _

end Folding

/-! ### Reading line by line and through the buffer -/

section Reading
variable (size : ℕ) (step whole : σ → List α → Option σ) (s₀ : σ)

/-- The step gets what is in the buffer. -/
def throughBuffer (t : List α) : Except (ℕ × List α) σ :=
  foldLines step 0 s₀ (piecesOf sep size size t)

/-- The step gets the lines. -/
def byLine (t : List α) : Except (ℕ × List α) σ := foldLines whole 0 s₀ (linesOf sep t)

/-- Both end in the same state, or reject the line with the same number. -/
def Agree (t : List α) : Prop :=
  (throughBuffer sep size step s₀ t).mapError Prod.fst = (byLine sep whole s₀ t).mapError Prod.fst

/-- Rejected whatever has been read before. -/
def AlwaysRejected (step : σ → List α → Option σ) (l : List α) : Prop := ∀ s, step s l = none

/-- Lines without their separators, all of which fit. -/
def ShortLines (ls : List (List α)) : Prop := ∀ l ∈ ls, sep ∉ l ∧ l.length + 1 ≤ size

/-- What can be read at all can be read after some lines that fit. -/
def Reached (step : σ → List α → Option σ) : Prop :=
  ∀ l, ¬ AlwaysRejected step l → ∃ pre s, ShortLines sep size pre ∧
    foldLines step 0 s₀ (pre.map (· ++ [sep])) = .ok s ∧ step s l ≠ none

variable {sep size step whole s₀}

lemma Agree.error {t : List α} (h : Agree sep size step whole s₀ t) {e : ℕ × List α}
    (he : throughBuffer sep size step s₀ t = .error e) :
    ∃ e', byLine sep whole s₀ t = .error e' ∧ e'.1 = e.1 := by
  rw [Agree, he] at h
  cases hline : byLine sep whole s₀ t with
  | error e' =>
    rw [hline] at h
    exact ⟨e', rfl, (Except.error.inj h).symm⟩
  | ok s =>
    rw [hline] at h
    exact absurd h nofun

section Context
variable (hshort : ∀ s l, l.length ≤ size → whole s l = step s l)
include hshort

omit [DecidableEq α] in
lemma foldLines_whole {ls : List (List α)} (hls : ∀ l ∈ ls, l.length ≤ size) (n : ℕ) (s : σ) :
    foldLines whole n s ls = foldLines step n s ls :=
  foldLines_congr (fun s l hl => hshort s l (hls l hl)) n s

omit [DecidableEq α] in
lemma foldLines_whole_short {ls : List (List α)} (hls : ShortLines sep size ls) (n : ℕ) (s : σ) :
    foldLines whole n s (ls.map (· ++ [sep])) = foldLines step n s (ls.map (· ++ [sep])) := by
  refine foldLines_whole hshort (fun l hl => ?_) n s
  obtain ⟨l', hl', rfl⟩ := List.mem_map.mp hl
  simpa using (hls l' hl').2

/-- A file of lines that fit is read line by line. -/
theorem agree_of_short {t : List α} (ht : ∀ l ∈ linesOf sep t, l.length ≤ size) :
    throughBuffer sep size step s₀ t = byLine sep whole s₀ t := by
  rw [throughBuffer, byLine, foldLines_whole hshort ht, piecesOf_short _ ht]
  exact fun l hl => ht l (List.mem_of_mem_head? hl)

lemma byLine_context {pre : List (List α)} (hpre : ShortLines sep size pre) {s : σ}
    (hs : foldLines step 0 s₀ (pre.map (· ++ [sep])) = .ok s) {l : List α} (hl : sep ∉ l)
    (post : List α) : byLine sep whole s₀ (terminated sep pre ++ (l ++ sep :: post)) =
      foldLines whole pre.length s ((l ++ [sep]) :: linesOf sep post) := by
  rw [← foldLines_whole_short hshort hpre] at hs
  rw [byLine, linesOf_terminated (fun l hl => (hpre l hl).1), foldLines_append_ok hs,
    List.length_map, Nat.zero_add, linesOf_line hl]

end Context

lemma throughBuffer_context {pre : List (List α)} (hpre : ShortLines sep size pre) {s : σ}
    (hs : foldLines step 0 s₀ (pre.map (· ++ [sep])) = .ok s) (l post : List α) :
    throughBuffer sep size step s₀ (terminated sep pre ++ (l ++ sep :: post)) =
      foldLines step pre.length s (piecesOf sep size size (l ++ [sep]) ++
        piecesOf sep size size post) := by
  rw [throughBuffer, piecesOf_terminated hpre, foldLines_append_ok hs, List.length_map,
    Nat.zero_add, piecesOf_append_sep]

/-- A line that does not fit is at least two pieces. -/
lemma piecesOf_long (hsize : 1 ≤ size) {l : List α} (hl : sep ∉ l) (hlong : size < l.length + 1) :
    ∃ q ps, piecesOf sep size size (l ++ [sep]) = (l ++ [sep]).take size :: q :: ps := by
  have hlen : (l ++ [sep]).length = l.length + 1 := by simp
  have hsep : sep ∉ (l ++ [sep]).take (size - 1) := by
    rw [List.take_append_of_le_length (by omega)]
    exact fun h => hl (List.mem_of_mem_take h)
  rw [piecesOf_full hsize (by omega) hsep]
  cases hrest : piecesOf sep size size ((l ++ [sep]).drop size) with
  | nil =>
    have hflat : ∀ {room : ℕ} {t : List α}, piecesOf sep size room t = [] → t = [] := by
      intro room t ht
      cases t with
      | nil => rfl
      | cons c t =>
        rw [piecesOf] at ht
        split_ifs at ht
        revert ht
        cases piecesOf sep size (room - 1) t <;> simp [consHead]
    have := congrArg List.length (hflat hrest)
    rw [List.length_drop, hlen, List.length_nil] at this
    omega
  | cons q ps => exact ⟨q, ps, rfl⟩

/-- In every file of otherwise short lines: a line is read as one line if and only if it fits,
or both it and the start of it that fits are rejected whatever precedes them. -/
theorem agree_everywhere_iff (hsize : 1 ≤ size)
    (hshort : ∀ s l, l.length ≤ size → whole s l = step s l)
    (hstep : Reached sep size s₀ step) (hwhole : Reached sep size s₀ whole)
    (hbad : ∃ bad, sep ∉ bad ∧ bad.length + 1 ≤ size ∧ AlwaysRejected step (bad ++ [sep]))
    {l : List α} (hl : sep ∉ l) :
    (∀ pre post, ShortLines sep size pre → (∀ x ∈ linesOf sep post, x.length ≤ size) →
      Agree sep size step whole s₀ (terminated sep pre ++ (l ++ sep :: post))) ↔
    l.length + 1 ≤ size ∨
      AlwaysRejected step ((l ++ [sep]).take size) ∧ AlwaysRejected whole (l ++ [sep]) := by
  constructor
  · intro hagree
    by_contra hno
    rw [not_or, not_le, not_and_or] at hno
    obtain ⟨hlong, hno⟩ := hno
    obtain ⟨q, ps, hpieces⟩ := piecesOf_long hsize hl hlong
    by_cases hfirst : AlwaysRejected step ((l ++ [sep]).take size)
    · -- the line is accepted somewhere, but its start is not
      obtain ⟨pre, s, hpre, hs, hacc⟩ := hwhole _ (hno.resolve_left (not_not_intro hfirst))
      have h := hagree pre [] hpre nofun
      rw [foldLines_whole_short hshort hpre] at hs
      rw [Agree, throughBuffer_context hpre hs, byLine_context hshort hpre hs hl, hpieces] at h
      obtain ⟨s', hs'⟩ := Option.ne_none_iff_exists'.mp hacc
      simp [foldLines, hfirst s, hs', linesOf, Except.mapError] at h
    · -- the start is accepted somewhere, and what follows moves all later lines
      obtain ⟨pre, s, hpre, hs, hacc⟩ := hstep _ hfirst
      obtain ⟨s₁, hs₁⟩ := Option.ne_none_iff_exists'.mp hacc
      cases hrest : foldLines step (pre.length + 1) s₁ (q :: ps) with
      | error e =>
        obtain ⟨hnum, -⟩ := foldLines_error hrest
        have hbuffer : throughBuffer sep size step s₀ (terminated sep pre ++ (l ++ sep :: [])) =
            .error e := by
          rw [throughBuffer_context hpre hs, hpieces, List.cons_append, foldLines, hs₁]
          exact foldLines_append_error hrest _
        obtain ⟨e', he', hsame⟩ := (hagree pre [] hpre nofun).error hbuffer
        rw [byLine_context hshort hpre hs hl] at he'
        have hbound := (foldLines_error he').2
        simp only [linesOf, List.length_cons, List.length_nil] at hbound
        omega
      | ok s₂ =>
        obtain ⟨bad, hbadsep, hbadlen, hbad⟩ := hbad
        have hpost : linesOf sep (bad ++ [sep]) = [bad ++ [sep]] := by
          rw [linesOf_line hbadsep]
          rfl
        have hbuffer : throughBuffer sep size step s₀
            (terminated sep pre ++ (l ++ sep :: (bad ++ [sep]))) =
            .error (pre.length + 1 + (q :: ps).length + 1, bad ++ [sep]) := by
          rw [throughBuffer_context hpre hs, hpieces, List.cons_append, foldLines, hs₁]
          refine (foldLines_append_ok hrest _).trans ?_
          rw [piecesOf_line hbadsep [] hbadlen, foldLines, hbad]
        have hshortpost : ∀ x ∈ linesOf sep (bad ++ [sep]), x.length ≤ size := by
          rw [hpost]
          simpa using hbadlen
        obtain ⟨e', he', hsame⟩ := (hagree pre _ hpre hshortpost).error hbuffer
        rw [byLine_context hshort hpre hs hl, hpost] at he'
        have hbound := (foldLines_error he').2
        simp only [List.length_cons, List.length_nil] at hbound hsame
        omega
  · intro hline pre post hpre hpost
    by_cases hfits : l.length + 1 ≤ size
    · rw [Agree, agree_of_short hshort]
      intro x hx
      rw [linesOf_terminated (fun l hl => (hpre l hl).1), linesOf_line hl, List.mem_append,
        List.mem_cons, List.mem_map] at hx
      rcases hx with ⟨l', hl', rfl⟩ | rfl | hx
      · simpa using (hpre l' hl').2
      · simpa using hfits
      · exact hpost x hx
    · obtain ⟨hfirst, hwholeline⟩ := hline.resolve_left hfits
      obtain ⟨q, ps, hpieces⟩ := piecesOf_long hsize hl (not_le.mp hfits)
      cases hs : foldLines step 0 s₀ (pre.map (· ++ [sep])) with
      | error e =>
        have hs' := (foldLines_whole_short hshort hpre 0 s₀).trans hs
        rw [Agree, throughBuffer, byLine, piecesOf_terminated hpre,
          linesOf_terminated (fun l hl => (hpre l hl).1), foldLines_append_error hs,
          foldLines_append_error hs']
      | ok s =>
        rw [Agree, throughBuffer_context hpre hs, byLine_context hshort hpre hs hl, hpieces]
        simp [foldLines, hfirst s, hwholeline s, Except.mapError]

end Reading

end Sitecopy.BufferedLines
