import Mathlib

/-!
# Depth-first search with a stack

A search pops a node, pushes the children that fit on the stack, and drops the others. The
place of a node on the stack is determined by the tree: the `i`-th child of a node from
place `n` goes to place `n + i`. A node is visited exactly if its place is below the
capacity, and so are the places of all nodes above it. A search whose stack grows as needed
visits the whole tree.
-/
namespace Sitecopy.StackSearch

variable {α : Type}

/-- `Pending children cap root d n`: the search comes to put `d` at place `n`. -/
inductive Pending (children : α → List α) (cap : ℕ) (root : α) : α → ℕ → Prop
  | root : Pending children cap root root 0
  | child {d e : α} {n i : ℕ} : Pending children cap root d n → n < cap →
      (children d)[i]? = some e → Pending children cap root e (n + i)

/-- In a tree every node has one place. -/
theorem Pending.unique {children : α → List α} {cap : ℕ} {root : α}
    (hroot : ∀ d, root ∉ children d) (hparent : ∀ {d d' e}, e ∈ children d → e ∈ children d' → d = d')
    (hnodup : ∀ d, (children d).Nodup) {d : α} {n m : ℕ} (hn : Pending children cap root d n)
    (hm : Pending children cap root d m) : n = m := by
  induction hn generalizing m with
  | root =>
    cases hm with
    | root => rfl
    | child _ _ he => exact absurd (List.mem_of_getElem? he) (hroot _)
  | child _ _ he ih =>
    cases hm with
    | root => exact absurd (List.mem_of_getElem? he) (hroot _)
    | child hp' _ he' =>
      obtain rfl := hparent (List.mem_of_getElem? he) (List.mem_of_getElem? he')
      rw [ih hp']
      congr 1
      have hlt := (List.getElem?_eq_some_iff.mp he).1
      exact (List.getElem?_inj hlt (hnodup _)).mp (he.trans he'.symm)

/-- Push what fits, the last element on top. -/
def push (cap : ℕ) (stack l : List α) : List α := (l.take (cap - stack.length)).reverse ++ stack

section Push
variable {cap : ℕ} {stack l : List α}

lemma push_nil : push cap stack [] = stack := by simp [push]

/-- Pushing one element after another. -/
lemma push_cons (a : α) : push cap stack (a :: l) =
    push cap (if stack.length < cap then a :: stack else stack) l := by
  unfold push
  split_ifs with h
  · have hsub : cap - stack.length = cap - (a :: stack).length + 1 := by
      rw [List.length_cons]
      omega
    rw [hsub, List.take_succ_cons, List.reverse_cons, List.append_assoc]
    rfl
  · have hzero : cap - stack.length = 0 := by omega
    rw [hzero]
    simp

lemma push_length (h : stack.length ≤ cap) : (push cap stack l).length ≤ cap := by
  simp only [push, List.length_append, List.length_reverse, List.length_take]
  omega

lemma push_reverse : (push cap stack l).reverse = stack.reverse ++ l.take (cap - stack.length) := by
  simp [push]

lemma mem_of_mem_push {a : α} (h : a ∈ push cap stack l) : a ∈ l ∨ a ∈ stack := by
  rw [push, List.mem_append, List.mem_reverse] at h
  exact h.imp_left List.mem_of_mem_take

end Push

/-- What is known of a search: the visited nodes with their places, and the stack. -/
structure Searching (children : α → List α) (cap : ℕ) (root : α) (visited : List (α × ℕ))
    (stack : List α) : Prop where
  bounded : stack.length ≤ cap
  pending : ∀ p ∈ visited, Pending children cap root p.1 p.2 ∧ p.2 < cap
  stacked : ∀ n d, stack.reverse[n]? = some d → Pending children cap root d n
  closed : ∀ p ∈ visited, ∀ i e, (children p.1)[i]? = some e → p.2 + i < cap →
    (e, p.2 + i) ∈ visited ∨ stack.reverse[p.2 + i]? = some e
  started : (root, 0) ∈ visited ∨ stack.reverse[0]? = some root
  parents : ∀ d ∈ stack, d = root ∨ ∃ p ∈ visited, d ∈ children p.1
  /-- a node is visited after its parent, so it stands before it -/
  ordered : ∀ xs p ys, visited = xs ++ p :: ys → p.1 = root ∨ ∃ q ∈ ys, p.1 ∈ children q.1

section Searching
variable {children : α → List α} {cap : ℕ} {root d : α} {visited : List (α × ℕ)} {stack : List α}

lemma Searching.init (hcap : 0 < cap) : Searching children cap root [] [root] where
  bounded := hcap
  pending := by simp
  stacked n d h := by
    rw [List.reverse_singleton, List.getElem?_singleton] at h
    split_ifs at h with hn
    obtain rfl := Option.some.inj h
    rw [hn]
    exact .root
  closed := by simp
  started := by simp
  parents := by simp
  ordered xs p ys hv := by simp at hv

/-- Popping the top of the stack leaves its other places alone. -/
lemma top_or_below {n : ℕ} {e : α} (h : (d :: stack).reverse[n]? = some e) :
    e = d ∧ n = stack.length ∨ stack.reverse[n]? = some e := by
  rw [List.reverse_cons, List.getElem?_append] at h
  split_ifs at h with hn
  · exact Or.inr h
  · rw [List.length_reverse] at h hn
    rw [List.getElem?_singleton] at h
    split_ifs at h with hz
    exact Or.inl ⟨(Option.some.inj h).symm, by omega⟩

lemma getElem?_push_of_stack {n : ℕ} {e : α} {l : List α} (h : stack.reverse[n]? = some e) :
    (push cap stack l).reverse[n]? = some e := by
  rw [push_reverse]
  have hn := (List.getElem?_eq_some_iff.mp h).1
  rw [List.getElem?_append_left hn, h]

theorem Searching.step (h : Searching children cap root visited (d :: stack)) :
    Searching children cap root ((d, stack.length) :: visited) (push cap stack (children d)) := by
  have hlen : stack.length < cap := h.bounded
  have htop : Pending children cap root d stack.length := by
    apply h.stacked
    simp
  -- what was visited or on the stack still is, the popped node being visited now
  have hkeep : ∀ n e, (e, n) ∈ visited ∨ (d :: stack).reverse[n]? = some e →
      (e, n) ∈ (d, stack.length) :: visited ∨
        (push cap stack (children d)).reverse[n]? = some e := by
    rintro n e (hv | hs)
    · exact Or.inl (List.mem_cons_of_mem _ hv)
    · rcases top_or_below hs with ⟨rfl, rfl⟩ | hs
      · exact Or.inl (by simp)
      · exact Or.inr (getElem?_push_of_stack hs)
  refine ⟨push_length hlen.le, fun p hp => ?_, fun n e hs => ?_, fun p hp i e he hi => ?_,
    hkeep 0 root h.started, fun e he => ?_, fun xs p ys hv => ?_⟩
  · rcases List.mem_cons.mp hp with rfl | hp
    · exact ⟨htop, hlen⟩
    · exact h.pending p hp
  · rw [push_reverse, List.getElem?_append] at hs
    split_ifs at hs with hn
    · apply h.stacked
      rw [List.reverse_cons, List.getElem?_append_left hn, hs]
    · rw [List.length_reverse] at hs hn
      rw [List.getElem?_take] at hs
      split_ifs at hs
      have hplace : n = stack.length + (n - stack.length) := by omega
      rw [hplace]
      exact htop.child hlen hs
  · rcases List.mem_cons.mp hp with rfl | hp
    · refine Or.inr ?_
      dsimp only at he hi ⊢
      rw [push_reverse, List.getElem?_append_right (by simp), List.length_reverse,
        Nat.add_sub_cancel_left, List.getElem?_take, if_pos (by omega), he]
    · exact hkeep _ _ (h.closed p hp i e he hi)
  · rcases mem_of_mem_push he with he | he
    · exact Or.inr ⟨_, List.mem_cons_self, he⟩
    · apply (h.parents e (List.mem_cons_of_mem d he)).imp_right
      rintro ⟨p, hp, he⟩
      exact ⟨p, List.mem_cons_of_mem _ hp, he⟩
  · rcases List.cons_eq_append_iff.mp hv with ⟨rfl, hp⟩ | ⟨xs', rfl, hrest⟩
    · obtain ⟨rfl, rfl⟩ := List.cons.inj hp
      exact h.parents d (by simp)
    · exact h.ordered xs' p ys hrest

/-- When the stack is empty, all nodes whose places fit have been visited. -/
theorem Searching.done (h : Searching children cap root visited []) {d : α} {n : ℕ} :
    (d, n) ∈ visited ↔ Pending children cap root d n ∧ n < cap := by
  constructor
  · exact h.pending (d, n)
  · rintro ⟨hp, hn⟩
    induction hp with
    | root => exact h.started.resolve_right (by simp)
    | child hp hlt he ih =>
      exact (h.closed _ (ih hlt) _ _ he hn).resolve_right (by simp)

end Searching

/-! ### Finite trees -/

/-- No path down from `d` is longer than `h`. -/
def HeightAtMost (children : α → List α) : ℕ → α → Prop
  | 0, d => children d = []
  | h + 1, d => ∀ e ∈ children d, HeightAtMost children h e

/-- The number of nodes down to depth `h`. -/
def size (children : α → List α) : ℕ → α → ℕ
  | 0, _ => 1
  | h + 1, d => 1 + ((children d).map (size children h)).sum

section Finite
variable {children : α → List α} {d : α} {h : ℕ}

lemma HeightAtMost.succ (hd : HeightAtMost children h d) : HeightAtMost children (h + 1) d := by
  induction h generalizing d with
  | zero =>
    intro e he
    rw [show children d = [] from hd] at he
    cases he
  | succ h ih => exact fun e he => ih (hd e he)

lemma HeightAtMost.child (hd : HeightAtMost children h d) {e : α} (he : e ∈ children d) :
    HeightAtMost children h e := by
  cases h with
  | zero =>
    rw [show children d = [] from hd] at he
    cases he
  | succ h => exact (hd e he).succ

lemma HeightAtMost.mono {children' : α → List α} (hsub : ∀ d, children' d ⊆ children d)
    (hd : HeightAtMost children h d) : HeightAtMost children' h d := by
  induction h generalizing d with
  | zero =>
    apply List.eq_nil_iff_forall_not_mem.mpr
    intro e he
    have hmem := hsub d he
    rw [show children d = [] from hd] at hmem
    cases hmem
  | succ h ih => exact fun e he => ih (hd e (hsub d he))

lemma size_succ (hd : HeightAtMost children h d) : size children (h + 1) d = size children h d := by
  induction h generalizing d with
  | zero =>
    have hnil : children d = [] := hd
    simp [size, hnil]
  | succ h ih =>
    rw [size, size]
    congr 2
    exact List.map_congr_left fun e he => ih (hd e he)

lemma size_eq (hd : HeightAtMost children h d) :
    size children h d = 1 + ((children d).map (size children h)).sum := by
  rw [← size_succ hd, size]

/-- A step of the search makes the nodes still to come fewer. -/
theorem size_push_lt {cap : ℕ} {stack : List α} (hd : HeightAtMost children h d) :
    ((push cap stack (children d)).map (size children h)).sum <
      ((d :: stack).map (size children h)).sum := by
  have htake : ((children d).take (cap - stack.length)).Sublist (children d) :=
    List.take_sublist _ _
  have hle := (htake.map (size children h)).sum_le_sum fun _ _ => Nat.zero_le _
  rw [push, List.map_append, List.sum_append, List.map_reverse, List.sum_reverse, List.map_cons,
    List.sum_cons, size_eq hd]
  omega

end Finite

/-! ### A stack that grows -/

/-- The nodes of the tree below `root`. -/
inductive Reach (children : α → List α) (root : α) : α → Prop
  | root : Reach children root root
  | child {d e : α} : Reach children root d → e ∈ children d → Reach children root e

/-- What is known of a search that pushes all children. -/
structure Exploring (children : α → List α) (root : α) (visited stack : List α) : Prop where
  reached : ∀ d, d ∈ visited ∨ d ∈ stack → Reach children root d
  closed : ∀ d ∈ visited, ∀ e ∈ children d, e ∈ visited ∨ e ∈ stack
  started : root ∈ visited ∨ root ∈ stack

section Exploring
variable {children : α → List α} {root d : α} {visited stack : List α}

lemma Exploring.init : Exploring children root [] [root] where
  reached d hd := by
    obtain rfl : d = root := by simpa using hd
    exact .root
  closed := by simp
  started := by simp

theorem Exploring.step (h : Exploring children root visited (d :: stack)) :
    Exploring children root (d :: visited) ((children d).reverse ++ stack) where
  reached e he := by
    simp only [List.mem_cons, List.mem_append, List.mem_reverse] at he
    rcases he with (rfl | he) | (he | he)
    · exact h.reached e (by simp)
    · exact h.reached e (Or.inl he)
    · exact (h.reached d (by simp)).child he
    · exact h.reached e (by simp [he])
  closed x hx e he := by
    simp only [List.mem_cons, List.mem_append, List.mem_reverse]
    rcases List.mem_cons.mp hx with rfl | hx
    · exact Or.inr (Or.inl he)
    · rcases h.closed x hx e he with hv | hs
      · exact Or.inl (Or.inr hv)
      · rcases List.mem_cons.mp hs with rfl | hs
        · exact Or.inl (Or.inl rfl)
        · exact Or.inr (Or.inr hs)
  started := by
    simp only [List.mem_cons, List.mem_append, List.mem_reverse]
    rcases h.started with hv | hs
    · exact Or.inl (Or.inr hv)
    · rcases List.mem_cons.mp hs with rfl | hs
      · exact Or.inl (Or.inl rfl)
      · exact Or.inr (Or.inr hs)

/-- When the stack is empty, the whole tree has been visited. -/
theorem Exploring.done (h : Exploring children root visited []) {d : α} :
    d ∈ visited ↔ Reach children root d := by
  constructor
  · exact fun hd => h.reached d (Or.inl hd)
  · intro hd
    induction hd with
    | root => exact h.started.resolve_right (by simp)
    | child _ he ih => exact (h.closed _ ih _ he).resolve_right (by simp)

/-- The nodes still to come get fewer here too. -/
theorem size_children_lt {h : ℕ} (hd : HeightAtMost children h d) :
    (((children d).reverse ++ stack).map (size children h)).sum <
      ((d :: stack).map (size children h)).sum := by
  rw [List.map_append, List.sum_append, List.map_reverse, List.sum_reverse, List.map_cons,
    List.sum_cons, size_eq hd]
  omega

end Exploring

end Sitecopy.StackSearch
