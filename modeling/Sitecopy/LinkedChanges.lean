import Sitecopy.LinkedCells

/-!
# Changes within a doubly linked list

A cell that is written to or taken out of a list is found by its address alone, which no
other cell of the list has.
-/
namespace Sitecopy.LinkedCells

variable {α : Type}

section Distinct
variable {h h' : Heap (Node α)} {prev p q : Option ℕ} {cells : List (ℕ × α)}

/-- From a cell on, its links determine the list. -/
lemma Segment.nodup (hseg : Segment h prev p cells none) : (cells.map Prod.fst).Nodup := by
  induction cells generalizing prev p with
  | nil => exact List.nodup_nil
  | cons c cells ih =>
    obtain ⟨hp, next, ha, hrest⟩ := hseg
    rw [List.map_cons, List.nodup_cons]
    refine ⟨fun hmem => ?_, ih hrest⟩
    obtain ⟨c', hc', heq⟩ := List.mem_map.mp hmem
    obtain ⟨before, after, rfl⟩ := List.append_of_mem hc'
    obtain ⟨mid, -, hmid, next', ha', hafter⟩ := Segment.append.mp hrest
    rw [heq, ha] at ha'
    obtain ⟨hval, hprev, hnext⟩ := Node.mk.inj (Option.some.inj ha')
    have hwhole : Segment h prev (some c.1) (c :: (before ++ c' :: after)) none :=
      ⟨rfl, next, ha, hrest⟩
    have hsuffix : Segment h prev (some c.1) (c' :: after) none :=
      ⟨heq ▸ rfl, next, by rw [heq, ha, hval], by rwa [hnext]⟩
    have hlen := congrArg List.length (hwhole.unique hsuffix)
    simp at hlen
    omega

/-- The cells before and behind a cell have other addresses. -/
lemma Linked.middle_ne {a : ℕ} {x : α} {before after : List (ℕ × α)}
    (hlist : Linked h p (before ++ (a, x) :: after)) :
    (∀ c ∈ before, c.1 ≠ a) ∧ ∀ c ∈ after, c.1 ≠ a := by
  have hnd := Segment.nodup hlist
  rw [List.map_append, List.map_cons] at hnd
  obtain ⟨-, hafter, hbefore⟩ := List.nodup_append.mp hnd
  constructor
  · intro c hc
    exact hbefore c.1 (List.mem_map_of_mem hc) a List.mem_cons_self
  · intro c hc heq
    have hmem : c.1 ∈ after.map Prod.fst := List.mem_map_of_mem hc
    rw [heq] at hmem
    exact (List.nodup_cons.mp hafter).1 hmem

/-- The last address does not depend on the values. -/
lemma lastAddr_congr {cells' : List (ℕ × α)} (haddr : cells.map Prod.fst = cells'.map Prod.fst) :
    lastAddr prev cells = lastAddr prev cells' := by
  have hfold : ∀ l : List (ℕ × α), lastAddr prev l = (l.map Prod.fst).foldl (fun _ a => some a) prev :=
    fun l => List.foldl_map.symm
  rw [hfold, hfold, haddr]

/-- A write to the value of a cell. -/
lemma Linked.set_val {a : ℕ} {x : α} {before after : List (ℕ × α)}
    (hlist : Linked h p (before ++ (a, x) :: after)) (y : α) :
    ∃ n h', h.get a = some n ∧ n.val = x ∧ h.set a { n with val := y } = some h' ∧
      h'.size = h.size ∧ Linked h' p (before ++ (a, y) :: after) := by
  obtain ⟨hbefore, hafter⟩ := hlist.middle_ne
  obtain ⟨mid, hfront, rfl, next, ha, hback⟩ := Segment.append.mp hlist
  obtain ⟨h', hset, hsize, hnew, hkeep⟩ := Heap.set_cases ha ⟨y, lastAddr none before, next⟩
  have hfront' := hfront.frame fun c hc => hkeep _ (hbefore c hc)
  have hback' := hback.frame fun c hc => hkeep _ (hafter c hc)
  exact ⟨_, h', ha, rfl, hset, hsize,
    Segment.append.mpr ⟨some a, hfront', rfl, next, hnew, hback'⟩⟩

/-- Links forward and back are inverse to each other. -/
lemma Linked.next_iff_prev (hlist : Linked h p cells) {c c' : ℕ × α} (hc : c ∈ cells)
    (hc' : c' ∈ cells) {n n' : Node α} (hn : h.get c.1 = some n) (hn' : h.get c'.1 = some n') :
    n.next = some c'.1 ↔ n'.prev = some c.1 := by
  constructor
  · intro hnext
    obtain ⟨before, after, rfl⟩ := List.append_of_mem hc
    obtain ⟨mid, -, -, next, hget, hback⟩ := Segment.append.mp hlist
    obtain rfl := Option.some.inj (hn.symm.trans hget)
    obtain rfl : next = some c'.1 := hnext
    cases after with
    | nil => exact nomatch hback
    | cons d after =>
      obtain ⟨heq, next', hget', -⟩ := hback
      rw [← Option.some.inj heq, hn'] at hget'
      rw [Option.some.inj hget']
  · intro hprev
    obtain ⟨before, after, rfl⟩ := List.append_of_mem hc'
    obtain ⟨mid, hfront, rfl, next, hget, -⟩ := Segment.append.mp hlist
    obtain rfl := Option.some.inj (hn'.symm.trans hget)
    cases before using List.reverseRecOn with
    | nil => exact nomatch hprev
    | append_singleton before d =>
      rw [lastAddr_concat] at hprev
      obtain ⟨mid, -, -, next', hget', hend⟩ := Segment.append.mp hfront
      rw [Option.some.inj hprev, hn] at hget'
      rw [Option.some.inj hget']
      exact hend

end Distinct

/-! ### Taking a cell out -/

/-- Link the cell before a gap, if there is one, to the cell behind it. -/
def Heap.setNext (h : Heap (Node α)) : Option ℕ → Option ℕ → Option (Heap (Node α))
  | none, _ => some h
  | some b, next => do
    let n ← h.get b
    h.set b { n with next }

/-- Link the cell behind a gap, if there is one, to the cell before it. -/
def Heap.setPrev (h : Heap (Node α)) : Option ℕ → Option ℕ → Option (Heap (Node α))
  | none, _ => some h
  | some b, prev => do
    let n ← h.get b
    h.set b { n with prev }

section Gap
variable {h : Heap (Node α)} {prev p q : Option ℕ} {cells : List (ℕ × α)}

lemma Segment.setNext (hseg : Segment h none p cells q) (hnd : (cells.map Prod.fst).Nodup)
    (q' : Option ℕ) : ∃ h', h.setNext (lastAddr none cells) q' = some h' ∧ h'.size = h.size ∧
      Segment h' none (if cells = [] then q' else p) cells q' ∧
      ∀ b, (∀ c ∈ cells, c.1 ≠ b) → h'.get b = h.get b := by
  cases cells using List.reverseRecOn with
  | nil => exact ⟨h, rfl, rfl, rfl, fun _ _ => rfl⟩
  | append_singleton cells c _ =>
    obtain ⟨mid, hfront, rfl, next, hc, -⟩ := Segment.append.mp hseg
    obtain ⟨h', hset, hsize, hnew, hkeep⟩ :=
      Heap.set_cases hc ⟨c.2, lastAddr none cells, q'⟩
    rw [List.map_append] at hnd
    have hne : ∀ c' ∈ cells, c'.1 ≠ c.1 := fun c' hc' =>
      (List.nodup_append.mp hnd).2.2 _ (List.mem_map_of_mem hc') _ (by simp)
    refine ⟨h', ?_, hsize, ?_, fun b hb => hkeep b (Ne.symm (hb c (by simp)))⟩
    · rw [lastAddr_concat, Heap.setNext, hc]
      exact hset
    · rw [if_neg (by simp)]
      have hcells := hfront.frame fun c' hc' => hkeep _ (hne c' hc')
      exact Segment.append.mpr ⟨some c.1, hcells, rfl, q', hnew, rfl⟩

lemma Segment.setPrev (hseg : Segment h prev p cells none) (prev' : Option ℕ) :
    ∃ h', h.setPrev p prev' = some h' ∧ h'.size = h.size ∧ Segment h' prev' p cells none ∧
      ∀ b, (∀ c ∈ cells, c.1 ≠ b) → h'.get b = h.get b := by
  have hnd := hseg.nodup
  cases cells with
  | nil =>
    obtain rfl : p = none := hseg
    exact ⟨h, rfl, rfl, rfl, fun _ _ => rfl⟩
  | cons c cells =>
    obtain ⟨rfl, next, hc, hrest⟩ := hseg
    obtain ⟨h', hset, hsize, hnew, hkeep⟩ := Heap.set_cases hc ⟨c.2, prev', next⟩
    rw [List.map_cons, List.nodup_cons] at hnd
    have hne : ∀ c' ∈ cells, c'.1 ≠ c.1 := fun c' hc' heq =>
      hnd.1 (heq ▸ List.mem_map_of_mem hc')
    refine ⟨h', ?_, hsize, ⟨rfl, next, hnew, ?_⟩, fun b hb => hkeep b (Ne.symm (hb c (by simp)))⟩
    · rw [Heap.setPrev, hc]
      exact hset
    · exact hrest.frame fun c' hc' => hkeep _ (hne c' hc')

/-- Take the cell `a` out of the list from `first` to `last` and free it. -/
def Heap.unlink (h : Heap (Node α)) (first last : Option ℕ) (a : ℕ) :
    Option (Heap (Node α) × Option ℕ × Option ℕ) := do
  let item ← h.get a
  let h ← h.setNext item.prev item.next
  let first := if item.prev = none then item.next else first
  let h ← h.setPrev item.next item.prev
  let last := if item.next = none then item.prev else last
  let h ← h.free a
  pure (h, first, last)

/-- The other cells stay in place. -/
theorem Linked.unlink {a : ℕ} {x : α} {before after : List (ℕ × α)}
    (hlist : Linked h p (before ++ (a, x) :: after)) :
    ∃ h' p', h.unlink p (lastAddr none (before ++ (a, x) :: after)) a =
        some (h', p', lastAddr none (before ++ after)) ∧
      h'.size = h.size ∧ Linked h' p' (before ++ after) := by
  obtain ⟨hbefore, hafter⟩ := hlist.middle_ne
  have hnd := Segment.nodup hlist
  rw [List.map_append, List.map_cons] at hnd
  obtain ⟨hndb, hnda, hdisj⟩ := List.nodup_append.mp hnd
  obtain ⟨mid, hfront, rfl, next, ha, hback⟩ := Segment.append.mp hlist
  obtain ⟨h₁, hnext, hsize₁, hfront₁, hkeep₁⟩ := hfront.setNext hndb next
  have hapart : ∀ c ∈ after, ∀ c' ∈ before, c'.1 ≠ c.1 := fun c hc c' hc' =>
    hdisj _ (List.mem_map_of_mem hc') _ (List.mem_cons_of_mem _ (List.mem_map_of_mem hc))
  have hback₁ := hback.frame fun c hc => hkeep₁ c.1 (hapart c hc)
  obtain ⟨h₂, hprev, hsize₂, hback₂, hkeep₂⟩ := hback₁.setPrev (lastAddr none before)
  have hfront₂ := hfront₁.frame fun c hc => hkeep₂ c.1 fun c' hc' => (hapart c' hc' c hc).symm
  have ha₂ : h₂.get a = some ⟨x, lastAddr none before, next⟩ := by
    rw [hkeep₂ a hafter, hkeep₁ a hbefore, ha]
  obtain ⟨h₃, hfree, hsize₃, -, hkeep₃⟩ := Heap.free_cases ha₂
  have hfront₃ := hfront₂.frame fun c hc => hkeep₃ _ (hbefore c hc)
  have hback₃ := hback₂.frame fun c hc => hkeep₃ _ (hafter c hc)
  refine ⟨h₃, if before = [] then next else p, ?_, by rw [hsize₃, hsize₂, hsize₁], ?_⟩
  · rw [Heap.unlink, ha]
    simp only [Option.bind_eq_bind, Option.bind_some, hnext, hprev, hfree, lastAddr_eq_none]
    cases after with
    | nil =>
      obtain rfl : next = none := hback
      simp
    | cons c after =>
      obtain rfl : next = some c.1 := hback.1
      rw [lastAddr_append, lastAddr_append]
      simp
      rfl
  · exact Segment.append.mpr ⟨next, hfront₃, hback₃⟩

end Gap

end Sitecopy.LinkedCells
