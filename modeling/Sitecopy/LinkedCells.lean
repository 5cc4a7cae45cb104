import Mathlib

/-!
# Doubly linked lists in a heap

An address is given out once, so that freed memory has no value. The cells of a list are
reached through their links; a list that is not written to is the same list afterwards.
-/
namespace Sitecopy.LinkedCells

variable {α β σ : Type}

/-- The objects by address. A freed object leaves a hole. -/
structure Heap (α : Type) where
  cells : List (Option α) := []

namespace Heap

def size (h : Heap α) : ℕ := h.cells.length

/-- The object at an address, if it is allocated. -/
def get (h : Heap α) (a : ℕ) : Option α := h.cells[a]?.join

/-- A new object, at the address `h.size`. -/
def alloc (h : Heap α) (x : α) : Heap α := ⟨h.cells ++ [some x]⟩

/-- Write to an object that is allocated. -/
def set (h : Heap α) (a : ℕ) (x : α) : Option (Heap α) :=
  if (h.get a).isSome then some ⟨h.cells.set a (some x)⟩ else none

/-- Free an object that is allocated. -/
def free (h : Heap α) (a : ℕ) : Option (Heap α) :=
  if (h.get a).isSome then some ⟨h.cells.set a none⟩ else none

/-- Nothing is lost from one heap to the other. -/
instance : Preorder (Heap α) where
  le h h' := h.size ≤ h'.size ∧ ∀ a x, h.get a = some x → h'.get a = some x
  le_refl h := ⟨le_rfl, fun _ _ hx => hx⟩
  le_trans h₁ h₂ h₃ h₁₂ h₂₃ :=
    ⟨h₁₂.1.trans h₂₃.1, fun a x hx => h₂₃.2 a x (h₁₂.2 a x hx)⟩

lemma size_le {h h' : Heap α} (hle : h ≤ h') : h.size ≤ h'.size := hle.1

lemma get_le {h h' : Heap α} (hle : h ≤ h') {a : ℕ} {x : α} (ha : h.get a = some x) :
    h'.get a = some x :=
  hle.2 a x ha

lemma lt_size {h : Heap α} {a : ℕ} {x : α} (ha : h.get a = some x) : a < h.size := by
  by_contra hno
  rw [get, List.getElem?_eq_none (not_lt.mp hno)] at ha
  exact absurd ha nofun

@[simp] lemma size_alloc (h : Heap α) (x : α) : (h.alloc x).size = h.size + 1 := by
  simp [size, alloc]

@[simp] lemma get_alloc_size (h : Heap α) (x : α) : (h.alloc x).get h.size = some x := by
  simp [get, alloc, size]

lemma get_alloc_lt (h : Heap α) (x : α) {a : ℕ} (ha : a < h.size) :
    (h.alloc x).get a = h.get a := by
  rw [get, alloc, List.getElem?_append_left ha, get]

lemma le_alloc (h : Heap α) (x : α) : h ≤ h.alloc x := by
  refine ⟨by simp, fun a y ha => ?_⟩
  rw [get_alloc_lt h x (lt_size ha), ha]

/-- What a write to one address does, for `set` and for `free`. -/
lemma write_cases {h : Heap α} {a : ℕ} {x : α} (ha : h.get a = some x) (y : Option α) :
    (⟨h.cells.set a y⟩ : Heap α).size = h.size ∧
      (⟨h.cells.set a y⟩ : Heap α).get a = y ∧
      ∀ b, b ≠ a → (⟨h.cells.set a y⟩ : Heap α).get b = h.get b := by
  have hlt := lt_size ha
  refine ⟨by simp [size], ?_, fun b hb => ?_⟩
  · rw [get, List.getElem?_set_self hlt]
    rfl
  · rw [get, List.getElem?_set_ne (Ne.symm hb), get]

lemma set_cases {h : Heap α} {a : ℕ} {x : α} (ha : h.get a = some x) (y : α) :
    ∃ h', h.set a y = some h' ∧ h'.size = h.size ∧ h'.get a = some y ∧
      ∀ b, b ≠ a → h'.get b = h.get b := by
  have hwrite := write_cases ha (some y)
  exact ⟨⟨h.cells.set a (some y)⟩, by rw [set, ha]; rfl, hwrite⟩

lemma free_cases {h : Heap α} {a : ℕ} {x : α} (ha : h.get a = some x) :
    ∃ h', h.free a = some h' ∧ h'.size = h.size ∧ h'.get a = none ∧
      ∀ b, b ≠ a → h'.get b = h.get b := by
  have hwrite := write_cases ha none
  exact ⟨⟨h.cells.set a none⟩, by rw [free, ha]; rfl, hwrite⟩

end Heap

/-! ### Lists -/

structure Node (α : Type) where
  val : α
  prev : Option ℕ
  next : Option ℕ

/-- The cells from `p` up to `q`, behind a cell `prev`: their addresses and their values. -/
def Segment (h : Heap (Node α)) : Option ℕ → Option ℕ → List (ℕ × α) → Option ℕ → Prop
  | _, p, [], q => p = q
  | prev, p, (a, x) :: cells, q =>
    p = some a ∧ ∃ next, h.get a = some ⟨x, prev, next⟩ ∧ Segment h (some a) next cells q

/-- A whole list, from its first cell on. -/
def Linked (h : Heap (Node α)) (p : Option ℕ) (cells : List (ℕ × α)) : Prop :=
  Segment h none p cells none

/-- The address of the last cell, or `prev`. -/
def lastAddr (prev : Option ℕ) (cells : List (ℕ × α)) : Option ℕ :=
  cells.foldl (fun _ c => some c.1) prev

@[simp] lemma lastAddr_concat (prev : Option ℕ) (cells : List (ℕ × α)) (c : ℕ × α) :
    lastAddr prev (cells ++ [c]) = some c.1 := by
  simp [lastAddr]

lemma lastAddr_eq_none {cells : List (ℕ × α)} : lastAddr none cells = none ↔ cells = [] := by
  cases cells using List.reverseRecOn <;> simp [lastAddr]

lemma lastAddr_append {before after : List (ℕ × α)} : lastAddr none (before ++ after) =
    if after = [] then lastAddr none before else lastAddr none after := by
  cases after using List.reverseRecOn with
  | nil => simp
  | append_singleton after c =>
    rw [if_neg (by simp), ← List.append_assoc, lastAddr_concat, lastAddr_concat]

section Segments
variable {h h' : Heap (Node α)} {prev p q : Option ℕ} {cells : List (ℕ × α)}

lemma Segment.append {cells' : List (ℕ × α)} : Segment h prev p (cells ++ cells') q ↔
    ∃ mid, Segment h prev p cells mid ∧ Segment h (lastAddr prev cells) mid cells' q := by
  induction cells generalizing prev p with
  | nil => simp [Segment, lastAddr]
  | cons c cells ih =>
    constructor
    · rintro ⟨hp, next, ha, hrest⟩
      obtain ⟨mid, hleft, hright⟩ := ih.mp hrest
      exact ⟨mid, ⟨hp, next, ha, hleft⟩, hright⟩
    · rintro ⟨mid, ⟨hp, next, ha, hleft⟩, hright⟩
      exact ⟨hp, next, ha, ih.mpr ⟨mid, hleft, hright⟩⟩

/-- A segment stays one while its cells do. -/
lemma Segment.frame (hseg : Segment h prev p cells q)
    (hkeep : ∀ c ∈ cells, h'.get c.1 = h.get c.1) : Segment h' prev p cells q := by
  induction cells generalizing prev p with
  | nil => exact hseg
  | cons c cells ih =>
    obtain ⟨hp, next, ha, hrest⟩ := hseg
    have hhead := hkeep c List.mem_cons_self
    have htail := ih hrest fun c' hc' => hkeep c' (List.mem_cons_of_mem _ hc')
    exact ⟨hp, next, hhead.trans ha, htail⟩

lemma Segment.get (hseg : Segment h prev p cells q) {c : ℕ × α} (hc : c ∈ cells) :
    ∃ n, h.get c.1 = some n ∧ n.val = c.2 := by
  induction cells generalizing prev p with
  | nil => exact absurd hc List.not_mem_nil
  | cons c' cells ih =>
    obtain ⟨-, next, ha, hrest⟩ := hseg
    cases List.mem_cons.mp hc with
    | inl heq => exact ⟨⟨c'.2, prev, next⟩, by rw [heq]; exact ha, by rw [heq]⟩
    | inr hmem => exact ih hrest hmem

lemma Segment.lt_size (hseg : Segment h prev p cells q) {c : ℕ × α} (hc : c ∈ cells) :
    c.1 < h.size := by
  obtain ⟨n, hn, -⟩ := hseg.get hc
  exact Heap.lt_size hn

/-- The links determine the cells and their values. -/
lemma Segment.unique {cells' : List (ℕ × α)} (hseg : Segment h prev p cells none)
    (hseg' : Segment h prev p cells' none) : cells = cells' := by
  induction cells generalizing prev p cells' with
  | nil =>
    obtain rfl : p = none := hseg
    cases cells' with
    | nil => rfl
    | cons c' cells' => exact nomatch hseg'.1
  | cons c cells ih =>
    obtain ⟨rfl, next, ha, hrest⟩ := hseg
    cases cells' with
    | nil => exact nomatch hseg'
    | cons c' cells' =>
      obtain ⟨hp, next', ha', hrest'⟩ := hseg'
      have haddr : c.1 = c'.1 := Option.some.inj hp
      rw [← haddr, ha] at ha'
      have hnode := Node.mk.inj (Option.some.inj ha')
      rw [← haddr, ← hnode.2.2] at hrest'
      rw [ih hrest hrest', Prod.ext haddr hnode.1]

/-- In front of another cell, every cell has a next one. -/
lemma Segment.next_ne_none {b : ℕ} (hseg : Segment h prev p cells (some b)) {c : ℕ × α}
    (hc : c ∈ cells) : ∃ n, h.get c.1 = some n ∧ n.next ≠ none := by
  induction cells generalizing prev p with
  | nil => exact absurd hc List.not_mem_nil
  | cons c' cells ih =>
    obtain ⟨-, next, ha, hrest⟩ := hseg
    cases List.mem_cons.mp hc with
    | inr hmem => exact ih hrest hmem
    | inl heq =>
      refine ⟨⟨c'.2, prev, next⟩, by rw [heq]; exact ha, ?_⟩
      cases cells with
      | nil =>
        have hnext : next = some b := hrest
        rw [hnext]
        nofun
      | cons c'' cells =>
        have hnext : next = some c''.1 := hrest.1
        rw [hnext]
        nofun

/-- Behind another cell, every cell has a previous one. -/
lemma Segment.prev_ne_none {b : ℕ} (hseg : Segment h (some b) p cells q) {c : ℕ × α}
    (hc : c ∈ cells) : ∃ n, h.get c.1 = some n ∧ n.prev ≠ none := by
  induction cells generalizing b p with
  | nil => exact absurd hc List.not_mem_nil
  | cons c' cells ih =>
    obtain ⟨-, next, ha, hrest⟩ := hseg
    cases List.mem_cons.mp hc with
    | inr hmem => exact ih hrest hmem
    | inl heq => exact ⟨⟨c'.2, some b, next⟩, by rw [heq]; exact ha, nofun⟩

/-- The last cell of a list, and the cells before it, of which it is none. -/
lemma Linked.concat_cases {a : ℕ} {x : α} (hlist : Linked h p (cells ++ [(a, x)])) :
    Segment h none p cells (some a) ∧ h.get a = some ⟨x, lastAddr none cells, none⟩ ∧
      ∀ c ∈ cells, c.1 ≠ a := by
  obtain ⟨mid, hfront, rfl, next, ha, hend⟩ := Segment.append.mp hlist
  obtain rfl : next = none := hend
  refine ⟨hfront, ha, fun c hc heq => ?_⟩
  obtain ⟨n, hn, hnext⟩ := hfront.next_ne_none hc
  rw [heq, ha] at hn
  obtain rfl := Option.some.inj hn
  exact hnext rfl

end Segments

/-! ### Operations -/

/-- A new first cell. -/
def Heap.prepend (h : Heap (Node α)) (p : Option ℕ) (x : α) : Option (Heap (Node α)) :=
  let h' := h.alloc ⟨x, none, p⟩
  match p with
  | none => some h'
  | some a => do
    let n ← h'.get a
    h'.set a { n with prev := some h.size }

/-- A new last cell behind `last`, which is a copy of `n` with its own link back. -/
def Heap.append (h : Heap (Node α)) (last : Option ℕ) (n : Node α) : Option (Heap (Node α)) :=
  let h' := h.alloc { n with prev := last }
  match last with
  | none => some h'
  | some a => do
    let m ← h'.get a
    h'.set a { m with next := some h.size }

section Operations
variable {h : Heap (Node α)} {p : Option ℕ} {cells : List (ℕ × α)}

/-- Only the old first cell is written to. -/
lemma Linked.prepend (hlist : Linked h p cells) (x : α) : ∃ h', h.prepend p x = some h' ∧
    h'.size = h.size + 1 ∧ Linked h' (some h.size) ((h.size, x) :: cells) ∧
    ∀ b < h.size, (∀ c ∈ cells, c.1 ≠ b) → h'.get b = h.get b := by
  cases cells with
  | nil =>
    obtain rfl : p = none := hlist
    refine ⟨h.alloc ⟨x, none, none⟩, rfl, by simp, ?_, fun b hb _ => h.get_alloc_lt _ hb⟩
    exact ⟨rfl, none, h.get_alloc_size _, rfl⟩
  | cons c cells =>
    obtain ⟨rfl, next, ha, hrest⟩ := hlist
    have hlt := Heap.lt_size ha
    have hold := (h.get_alloc_lt ⟨x, none, some c.1⟩ hlt).trans ha
    obtain ⟨h', hset, hsize, hnew, hkeep⟩ :=
      Heap.set_cases hold ⟨c.2, some h.size, next⟩
    have hother : ∀ b < h.size, b ≠ c.1 → h'.get b = h.get b := by
      intro b hb hne
      rw [hkeep b hne, h.get_alloc_lt _ hb]
    refine ⟨h', ?_, by simp [hsize], ⟨rfl, some c.1, ?_, rfl, next, hnew, ?_⟩, ?_⟩
    · simp only [Heap.prepend, hold, Option.bind_eq_bind, Option.bind_some]
      exact hset
    · rw [hkeep _ (Nat.ne_of_gt hlt), Heap.get_alloc_size]
    · refine hrest.frame fun c' hc' => hother _ (hrest.lt_size hc') fun heq => ?_
      obtain ⟨n, hn, hprev⟩ := hrest.prev_ne_none hc'
      rw [heq, ha] at hn
      obtain rfl := Option.some.inj hn
      exact hprev rfl
    · exact fun b hb hno => hother b hb (Ne.symm (hno c List.mem_cons_self))

/-- Only the old last cell is written to. -/
lemma Linked.append (hlist : Linked h p cells) {n : Node α} (hn : n.next = none) :
    ∃ h', h.append (lastAddr none cells) n = some h' ∧ h'.size = h.size + 1 ∧
      Linked h' (if cells = [] then some h.size else p) (cells ++ [(h.size, n.val)]) ∧
      ∀ b < h.size, (∀ c ∈ cells, c.1 ≠ b) → h'.get b = h.get b := by
  obtain ⟨x, prev, next⟩ := n
  obtain rfl : next = none := hn
  cases cells using List.reverseRecOn with
  | nil =>
    refine ⟨h.alloc ⟨x, none, none⟩, rfl, by simp, ?_, fun b hb _ => h.get_alloc_lt _ hb⟩
    exact ⟨rfl, none, h.get_alloc_size _, rfl⟩
  | append_singleton cells c _ =>
    obtain ⟨a, y⟩ := c
    obtain ⟨hfront, ha, hne⟩ := Linked.concat_cases hlist
    have hlt := Heap.lt_size ha
    have hold := (h.get_alloc_lt ⟨x, some a, none⟩ hlt).trans ha
    obtain ⟨h', hset, hsize, hnew, hkeep⟩ :=
      Heap.set_cases hold ⟨y, lastAddr none cells, some h.size⟩
    have hother : ∀ b < h.size, b ≠ a → h'.get b = h.get b := by
      intro b hb hba
      rw [hkeep b hba, h.get_alloc_lt _ hb]
    refine ⟨h', ?_, by simp [hsize], ?_, ?_⟩
    · simp only [Heap.append, lastAddr_concat, hold, Option.bind_eq_bind, Option.bind_some]
      exact hset
    · rw [if_neg (by simp), List.append_assoc, Linked, Segment.append]
      have hcells := hfront.frame fun c hc => hother _ (hfront.lt_size hc) (hne c hc)
      refine ⟨some a, hcells, rfl, some h.size, hnew, rfl, none, ?_, rfl⟩
      rw [hkeep _ (Nat.ne_of_gt hlt), Heap.get_alloc_size]
    · exact fun b hb hno => hother b hb (Ne.symm (hno (a, y) (by simp)))

/-- A write to the value of the last cell. -/
lemma Linked.set_last {a : ℕ} {x : α} (hlist : Linked h p (cells ++ [(a, x)])) (y : α) :
    ∃ n h', h.get a = some n ∧ n.val = x ∧ h.set a { n with val := y } = some h' ∧
      h'.size = h.size ∧ Linked h' p (cells ++ [(a, y)]) := by
  obtain ⟨hfront, ha, hne⟩ := hlist.concat_cases
  obtain ⟨h', hset, hsize, hnew, hkeep⟩ := Heap.set_cases ha ⟨y, lastAddr none cells, none⟩
  have hcells := hfront.frame fun c hc => hkeep _ (hne c hc)
  have hlast : Linked h' p (cells ++ [(a, y)]) :=
    Segment.append.mpr ⟨some a, hcells, rfl, none, hnew, rfl⟩
  exact ⟨_, h', ha, rfl, hset, hsize, hlast⟩

end Operations

/-! ### Copies -/

section Copies
variable (copy : σ → α → Option (σ × α))

/-- The loop that copies the cells from `iter` on behind the cell `prev`. -/
def copyLoop : ℕ → σ → Heap (Node α) → (iter dest prev : Option ℕ) →
    Option (σ × Heap (Node α) × Option ℕ)
  | _, s, h, none, dest, _ => some (s, h, dest)
  | 0, _, _, some _, _, _ => none
  | fuel + 1, s, h, some a, dest, prev => do
    let n ← h.get a
    let (s, x) ← copy s n.val
    let h' ← h.append prev ⟨x, none, none⟩
    copyLoop fuel s h' n.next (if prev = none then some h.size else dest) (some h.size)

/-- A copy of the list at `src`, with a copy of each value. No list has more cells than the
heap. -/
def deepCopy (s : σ) (h : Heap (Node α)) (src : Option ℕ) :
    Option (σ × Heap (Node α) × Option ℕ) :=
  copyLoop copy h.size s h src none none

variable [Preorder σ] {copy} {Stands : σ → α → β → Prop}

/-- The cells that are copied are older than `old`, and the copies are not. -/
lemma copyLoop_cases
    (hcopy : ∀ s x v, Stands s x v →
      ∃ s' y, copy s x = some (s', y) ∧ s ≤ s' ∧ Stands s' y v)
    (hmono : ∀ {s s' x v}, s ≤ s' → Stands s x v → Stands s' x v)
    {old : ℕ} {src : List (ℕ × α)} {vs : List β} : ∀ {fuel : ℕ} {s : σ} {h : Heap (Node α)}
      {prev iter dest : Option ℕ} {done : List (ℕ × α)} {ws : List β},
      src.length ≤ fuel → Segment h prev iter src none → (∀ c ∈ src, c.1 < old) →
      List.Forall₂ (fun c v => Stands s c.2 v) src vs →
      Linked h dest done → (∀ c ∈ done, old ≤ c.1) → old ≤ h.size →
      List.Forall₂ (fun c v => Stands s c.2 v) done ws →
      ∃ s' h' dest' cells, copyLoop copy fuel s h iter dest (lastAddr none done) =
          some (s', h', dest') ∧ s ≤ s' ∧ h'.size = h.size + src.length ∧ Linked h' dest' cells ∧
        cells.length = done.length + src.length ∧
        (∀ c ∈ cells, old ≤ c.1) ∧ (∀ b < old, h'.get b = h.get b) ∧
        List.Forall₂ (fun c v => Stands s' c.2 v) cells (ws ++ vs) := by
  induction src generalizing vs with
  | nil =>
    intro fuel s h prev iter dest done ws _ hseg _ hvs hdone hnew _ hws
    obtain rfl : iter = none := hseg
    obtain rfl := List.forall₂_nil_left_iff.mp hvs
    refine ⟨s, h, dest, done, by cases fuel <;> rfl, le_rfl, rfl, hdone, rfl, hnew,
      fun _ _ => rfl, by simpa using hws⟩
  | cons c src ih =>
    intro fuel s h prev iter dest done ws hfuel hseg hold hvs hdone hnew hsize hws
    obtain ⟨fuel, rfl⟩ : ∃ k, fuel = k + 1 := ⟨fuel - 1, by simp at hfuel; omega⟩
    obtain ⟨a, x⟩ := c
    obtain ⟨rfl, next, ha, hrest⟩ := hseg
    obtain ⟨v, vs, hv, htail, rfl⟩ := List.forall₂_cons_left_iff.mp hvs
    obtain ⟨s₁, y, hstep, hle, hy⟩ := hcopy s x v hv
    obtain ⟨h₁, happ, hsize₁, hlinked, hkeep⟩ := hdone.append (n := ⟨y, none, none⟩) rfl
    have hfar : ∀ b < old, h₁.get b = h.get b :=
      fun b hb => hkeep b (by omega) fun c hc => by have := hnew c hc; omega
    have hrest₁ : Segment h₁ (some a) next src none := hrest.frame
      fun c hc => hfar c.1 (hold c (List.mem_cons_of_mem _ hc))
    have hdone₁ : ∀ c ∈ done ++ [(h.size, y)], old ≤ c.1 := by
      intro c hc
      cases List.mem_append.mp hc with
      | inl hmem => exact hnew c hmem
      | inr hmem => rw [List.mem_singleton.mp hmem]; exact hsize
    have hws₁ : List.Forall₂ (fun c v => Stands s₁ c.2 v) (done ++ [(h.size, y)]) (ws ++ [v]) :=
      List.rel_append (hws.imp fun _ _ hst => hmono hle hst) (.cons hy .nil)
    have hvs₁ := htail.imp fun _ _ hst => hmono hle hst
    have hold₁ := fun c hc => hold c (List.mem_cons_of_mem _ hc)
    obtain ⟨s', h', dest', cells, hrun, hle', hsize', hlist, hlen, hcells, hkeep', hvals⟩ :=
      ih (Nat.le_of_succ_le_succ hfuel) hrest₁ hold₁ hvs₁ hlinked hdone₁ (by omega) hws₁
    refine ⟨s', h', dest', cells, ?_, hle.trans hle', ?_, hlist, ?_, hcells, ?_, ?_⟩
    · rw [lastAddr_concat] at hrun
      have hdest : (if lastAddr none done = none then some h.size else dest) =
          if done = [] then some h.size else dest := by
        cases done using List.reverseRecOn with
        | nil => rfl
        | append_singleton done c => simp
      simp only [copyLoop, ha, hstep, happ, hdest, Option.bind_eq_bind, Option.bind_some]
      exact hrun
    · rw [hsize', hsize₁, List.length_cons]
      omega
    · rw [hlen, List.length_append, List.length_singleton, List.length_cons]
      omega
    · exact fun b hb => (hkeep' b hb).trans (hfar b hb)
    · simpa using hvals

/-- The copy has its own cells, and nothing that was there is written to. -/
theorem deepCopy_cases
    (hcopy : ∀ s x v, Stands s x v →
      ∃ s' y, copy s x = some (s', y) ∧ s ≤ s' ∧ Stands s' y v)
    (hmono : ∀ {s s' x v}, s ≤ s' → Stands s x v → Stands s' x v)
    {s : σ} {h : Heap (Node α)} {p : Option ℕ} {src : List (ℕ × α)} {vs : List β}
    (hlist : Linked h p src) (hlen : src.length ≤ h.size)
    (hvs : List.Forall₂ (fun c v => Stands s c.2 v) src vs) :
    ∃ s' h' dest cells, deepCopy copy s h p = some (s', h', dest) ∧ s ≤ s' ∧
      h'.size = h.size + src.length ∧ Linked h' dest cells ∧ cells.length = src.length ∧
      (∀ c ∈ cells, h.size ≤ c.1) ∧ (∀ b < h.size, h'.get b = h.get b) ∧
      List.Forall₂ (fun c v => Stands s' c.2 v) cells vs := by
  have hold := fun c hc => Segment.lt_size hlist (c := c) hc
  have hnothing : Linked h none ([] : List (ℕ × α)) := rfl
  obtain ⟨s', h', dest, cells, hrun, hle, hsize, hcopied, hcells, hnew, hkeep, hvals⟩ :=
    copyLoop_cases hcopy hmono hlen hlist hold hvs hnothing nofun le_rfl .nil
  exact ⟨s', h', dest, cells, hrun, hle, hsize, hcopied, by simpa using hcells, hnew, hkeep, hvals⟩

end Copies

end Sitecopy.LinkedCells
