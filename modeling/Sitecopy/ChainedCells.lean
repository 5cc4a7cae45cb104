import Sitecopy.LinkedCells

/-!
# Singly linked lists in a heap

The cells have a link forward only, so a list that grows at both ends needs a pointer to its
last cell as well.
-/
namespace Sitecopy.ChainedCells
open LinkedCells

variable {α : Type}

structure Link (α : Type) where
  val : α
  next : Option ℕ

/-- The cells of the list at `p`, with their addresses and values. -/
def Chain (h : Heap (Link α)) : Option ℕ → List (ℕ × α) → Prop
  | p, [] => p = none
  | p, (a, x) :: cells => p = some a ∧ ∃ next, h.get a = some ⟨x, next⟩ ∧ Chain h next cells

section Chains
variable {h h' : Heap (Link α)} {p : Option ℕ} {cells : List (ℕ × α)}

/-- A chain stays one while its cells do. -/
lemma Chain.frame (hchain : Chain h p cells) (hkeep : ∀ c ∈ cells, h'.get c.1 = h.get c.1) :
    Chain h' p cells := by
  induction cells generalizing p with
  | nil => exact hchain
  | cons c cells ih =>
    obtain ⟨hp, next, ha, hrest⟩ := hchain
    have hhead := hkeep c List.mem_cons_self
    have htail := ih hrest fun c' hc' => hkeep c' (List.mem_cons_of_mem _ hc')
    exact ⟨hp, next, hhead.trans ha, htail⟩

lemma Chain.lt_size (hchain : Chain h p cells) {c : ℕ × α} (hc : c ∈ cells) : c.1 < h.size := by
  induction cells generalizing p with
  | nil => exact absurd hc List.not_mem_nil
  | cons c' cells ih =>
    obtain ⟨-, next, ha, hrest⟩ := hchain
    cases List.mem_cons.mp hc with
    | inl heq => exact heq ▸ Heap.lt_size ha
    | inr hmem => exact ih hrest hmem

lemma Chain.le (hchain : Chain h p cells) (hle : h ≤ h') : Chain h' p cells := by
  induction cells generalizing p with
  | nil => exact hchain
  | cons c cells ih =>
    obtain ⟨hp, next, ha, hrest⟩ := hchain
    exact ⟨hp, next, Heap.get_le hle ha, ih hrest⟩

lemma Chain.eq_none_iff (hchain : Chain h p cells) : p = none ↔ cells = [] := by
  cases cells with
  | nil => exact iff_of_true hchain rfl
  | cons c cells => simp [hchain.1]

/-- The cells before the last one have a next cell, so none of them is the last one. -/
lemma Chain.concat_cases {a : ℕ} {x : α} (hchain : Chain h p (cells ++ [(a, x)])) :
    h.get a = some ⟨x, none⟩ ∧ ∀ c ∈ cells, c.1 ≠ a := by
  induction cells generalizing p with
  | nil =>
    obtain ⟨-, next, ha, rfl⟩ := hchain
    exact ⟨ha, nofun⟩
  | cons c cells ih =>
    obtain ⟨-, next, hc, hrest⟩ := hchain
    obtain ⟨ha, hne⟩ := ih hrest
    refine ⟨ha, ?_⟩
    rintro c' hc' heq
    cases List.mem_cons.mp hc' with
    | inr hmem => exact hne c' hmem heq
    | inl hhead =>
      rw [hhead] at heq
      rw [heq, ha] at hc
      obtain rfl : none = next := (Link.mk.inj (Option.some.inj hc)).2
      cases cells with
      | nil => exact nomatch hrest.1
      | cons c'' cells => exact nomatch hrest.1

/-- A new first cell, written to before the old one is linked to it. -/
lemma Chain.prepend (hchain : Chain h p cells) (y : Link α) (x : α) :
    ∃ h', (h.alloc y).set h.size ⟨x, p⟩ = some h' ∧ h'.size = h.size + 1 ∧
      Chain h' (some h.size) ((h.size, x) :: cells) := by
  obtain ⟨h', hset, hsize, hnew, hkeep⟩ := Heap.set_cases (h.get_alloc_size y) ⟨x, p⟩
  refine ⟨h', hset, by simp [hsize], rfl, p, hnew, hchain.frame fun c hc => ?_⟩
  have hlt := hchain.lt_size hc
  rw [hkeep _ hlt.ne, h.get_alloc_lt y hlt]

/-- A new last cell behind the cell `a`. -/
lemma Chain.append {a : ℕ} {x : α} (hchain : Chain h p (cells ++ [(a, x)])) {b : ℕ} {y : α}
    (hb : h.get b = some ⟨y, none⟩) (hfresh : ∀ c ∈ cells ++ [(a, x)], c.1 ≠ b) :
    ∃ n h', h.get a = some n ∧ h.set a { n with next := some b } = some h' ∧ h'.size = h.size ∧
      Chain h' p (cells ++ [(a, x)] ++ [(b, y)]) := by
  obtain ⟨ha, hne⟩ := hchain.concat_cases
  obtain ⟨h', hset, hsize, hnew, hkeep⟩ := Heap.set_cases ha ⟨x, some b⟩
  refine ⟨_, h', ha, hset, hsize, ?_⟩
  have hlast : h'.get b = some ⟨y, none⟩ := by
    rw [hkeep b (hfresh (a, x) (by simp)).symm, hb]
  clear hfresh
  induction cells generalizing p with
  | nil => exact ⟨hchain.1, some b, hnew, rfl, none, hlast, rfl⟩
  | cons c cells ih =>
    obtain ⟨hp, next, hc, hrest⟩ := hchain
    have hcell := (hkeep _ (hne c List.mem_cons_self)).trans hc
    exact ⟨hp, next, hcell, ih hrest fun c' hc' => hne c' (List.mem_cons_of_mem _ hc')⟩

end Chains

end Sitecopy.ChainedCells
