import Sitecopy.StackSearch

/-!
# The order of a depth-first search

A search whose stack grows as needed visits a tree of finite height in preorder, the last
child of a node first. In a tree whose nodes are the words over some letters no node is
visited after one that it is a prefix of, so every node is visited once and after its parent.
-/
namespace Sitecopy.PreorderSearch
open StackSearch

variable {α β : Type}

/-- The nodes that a search visits, in order; `none` when the fuel runs out. -/
def visits (children : α → List α) : ℕ → List α → Option (List α)
  | 0, _ => none
  | _ + 1, [] => some []
  | fuel + 1, d :: stack =>
    (visits children fuel ((children d).reverse ++ stack)).map fun l => d :: l

/-- The nodes of the tree down to depth `h`, a node before those below it. -/
def preorder (children : α → List α) : ℕ → α → List α
  | 0, d => [d]
  | h + 1, d => d :: (children d).reverse.flatMap (preorder children h)

section Trees
variable {children : α → List α} {d : α} {h : ℕ}

lemma preorder_succ (hd : HeightAtMost children h d) :
    preorder children (h + 1) d = preorder children h d := by
  induction h generalizing d with
  | zero =>
    have hnil : children d = [] := hd
    simp [preorder, hnil]
  | succ h ih =>
    rw [preorder, preorder]
    congr 1
    apply List.flatMap_congr
    intro e he
    exact ih (hd e (List.mem_reverse.mp he))

lemma preorder_eq (hd : HeightAtMost children h d) :
    preorder children h d = d :: (children d).reverse.flatMap (preorder children h) := by
  rw [← preorder_succ hd, preorder]

/-- With enough fuel the search visits the trees on its stack in preorder. -/
theorem visits_preorder (fuel : ℕ) {stack : List α}
    (hheight : ∀ d ∈ stack, HeightAtMost children h d)
    (hfuel : (stack.map (size children h)).sum < fuel) :
    visits children fuel stack = some (stack.flatMap (preorder children h)) := by
  induction fuel generalizing stack with
  | zero => omega
  | succ fuel ih =>
    cases stack with
    | nil => rfl
    | cons d stack =>
      have hd := hheight d (by simp)
      have hlt := @size_children_lt α children d stack h hd
      have hnext : ∀ e ∈ (children d).reverse ++ stack, HeightAtMost children h e := by
        intro e he
        rcases List.mem_append.mp he with he | he
        · exact hd.child (List.mem_reverse.mp he)
        · exact hheight e (List.mem_cons_of_mem d he)
      rw [visits, ih hnext (by omega), Option.map_some, List.flatMap_append, List.flatMap_cons,
        preorder_eq hd, List.cons_append]

lemma reach_head {x : α} (hr : Reach children d x) : x = d ∨ ∃ c ∈ children d, Reach children c x := by
  induction hr with
  | root => exact Or.inl rfl
  | @child y e _ he ih =>
    rcases ih with rfl | ⟨c, hc, hy⟩
    · exact Or.inr ⟨e, he, .root⟩
    · exact Or.inr ⟨c, hc, hy.child he⟩

lemma reach_trans {x y : α} (hx : Reach children d x) (hy : Reach children x y) :
    Reach children d y := by
  induction hy with
  | root => exact hx
  | child _ he ih => exact ih.child he

lemma mem_preorder {x : α} (hd : HeightAtMost children h d) :
    x ∈ preorder children h d ↔ Reach children d x := by
  constructor
  · intro hx
    induction h generalizing d with
    | zero =>
      obtain rfl := List.mem_singleton.mp hx
      exact .root
    | succ h ih =>
      rcases List.mem_cons.mp hx with rfl | hx
      · exact .root
      · obtain ⟨c, hc, hx⟩ := List.mem_flatMap.mp hx
        have hmem := List.mem_reverse.mp hc
        exact reach_trans (Reach.root.child hmem) (ih (hd c hmem) hx)
  · intro hr
    induction h generalizing d with
    | zero =>
      have hnil : children d = [] := hd
      rcases reach_head hr with rfl | ⟨c, hc, _⟩
      · simp [preorder]
      · rw [hnil] at hc
        cases hc
    | succ h ih =>
      rcases reach_head hr with rfl | ⟨c, hc, hx⟩
      · simp [preorder]
      · rw [preorder]
        refine List.mem_cons_of_mem d (List.mem_flatMap.mpr ⟨c, List.mem_reverse.mpr hc, ?_⟩)
        exact ih (hd c hc) hx

/-! ### Renaming the nodes -/

variable {children' : β → List β} {code : α → β}

lemma heightAtMost_code (hcode : ∀ d, children' (code d) = (children d).map code) :
    HeightAtMost children' h (code d) ↔ HeightAtMost children h d := by
  induction h generalizing d with
  | zero =>
    rw [HeightAtMost, HeightAtMost, hcode]
    exact List.map_eq_nil_iff
  | succ h ih => simp [HeightAtMost, hcode, ih]

lemma visits_code (hcode : ∀ d, children' (code d) = (children d).map code) (fuel : ℕ)
    (stack : List α) : visits children' fuel (stack.map code) =
      (visits children fuel stack).map (List.map code) := by
  induction fuel generalizing stack with
  | zero => rfl
  | succ fuel ih =>
    cases stack with
    | nil => rfl
    | cons d stack =>
      rw [List.map_cons, visits, visits, hcode, ← List.map_reverse, ← List.map_append, ih,
        Option.map_map, Option.map_map]
      rfl

end Trees

/-! ### Words -/

/-- The words that extend `d` by one of its letters. -/
def extend (letters : List β → List β) (d : List β) : List (List β) :=
  (letters d).map fun n => d ++ [n]

section Words
variable {letters : List β → List β} {d x : List β} {h : ℕ}

lemma prefix_of_mem_preorder (hx : x ∈ preorder (extend letters) h d) : d <+: x := by
  induction h generalizing d with
  | zero =>
    obtain rfl := List.mem_singleton.mp hx
    exact List.prefix_refl x
  | succ h ih =>
    rcases List.mem_cons.mp hx with rfl | hx
    · exact List.prefix_refl x
    · obtain ⟨c, hc, hx⟩ := List.mem_flatMap.mp hx
      obtain ⟨n, _, rfl⟩ := List.mem_map.mp (List.mem_reverse.mp hc)
      exact (List.prefix_append d [n]).trans (ih hx)

/-- No word comes after one that it is a prefix of. -/
theorem preorder_pairwise (hletters : ∀ d, (letters d).Nodup) (h : ℕ) (d : List β) :
    (preorder (extend letters) h d).Pairwise fun x y => ¬ y <+: x := by
  induction h generalizing d with
  | zero => exact List.pairwise_singleton _ _
  | succ h ih =>
    rw [preorder, List.pairwise_cons, List.pairwise_flatMap]
    refine ⟨fun y hy => ?_, fun c _ => ih c, ?_⟩
    · obtain ⟨c, hc, hy⟩ := List.mem_flatMap.mp hy
      obtain ⟨n, _, rfl⟩ := List.mem_map.mp (List.mem_reverse.mp hc)
      intro hyd
      have hlen := ((prefix_of_mem_preorder hy).trans hyd).length_le
      simp at hlen
    · have hnodup : (extend letters d).reverse.Nodup := by
        apply List.nodup_reverse.mpr
        exact (hletters d).map fun n m hnm => by simpa using hnm
      apply List.Pairwise.imp_of_mem _ hnodup
      intro a b ha hb hab x hx y hy hyx
      obtain ⟨n, _, rfl⟩ := List.mem_map.mp (List.mem_reverse.mp ha)
      obtain ⟨m, _, rfl⟩ := List.mem_map.mp (List.mem_reverse.mp hb)
      -- words of one length that start the same word are the same
      have hm := (prefix_of_mem_preorder hy).trans hyx
      have hn := prefix_of_mem_preorder hx
      apply hab
      exact (List.prefix_of_prefix_length_le hn hm (by simp)).eq_of_length (by simp)

end Words

/-! ### When a search ends -/

section Ends
variable {children : α → List α} {root : α}

/-- A search that ends has visited all that it could reach. -/
lemma mem_of_visits {fuel : ℕ} {stack l : List α} (hv : visits children fuel stack = some l) :
    ∀ d ∈ stack, ∀ x, Reach children d x → x ∈ l := by
  induction fuel generalizing stack l with
  | zero => cases hv
  | succ fuel ih =>
    cases stack with
    | nil =>
      intro d hd
      cases hd
    | cons d stack =>
      obtain ⟨l, hl, rfl⟩ := Option.map_eq_some_iff.mp hv
      intro e he x hx
      rcases List.mem_cons.mp he with rfl | he
      · rcases reach_head hx with rfl | ⟨c, hc, hx⟩
        · exact List.mem_cons_self
        · exact List.mem_cons_of_mem e (ih hl c (by simp [hc]) x hx)
      · exact List.mem_cons_of_mem d (ih hl e (by simp [he]) x hx)

/-- Below a node from which only nodes of bounded rank can be reached, paths are bounded. -/
lemma heightAtMost_of_rank {rank : α → ℕ} (hrank : ∀ d, ∀ e ∈ children d, rank d < rank e)
    {bound : ℕ} (hbound : ∀ x, Reach children root x → rank x ≤ bound) (h : ℕ) {x : α}
    (hx : Reach children root x) (hle : bound ≤ rank x + h) : HeightAtMost children h x := by
  induction h generalizing x with
  | zero =>
    apply List.eq_nil_iff_forall_not_mem.mpr
    intro e he
    have hlt := hrank x e he
    have hmost := hbound e (hx.child he)
    omega
  | succ h ih =>
    intro e he
    have hlt := hrank x e he
    exact ih (hx.child he) (by omega)

/-- If ranks grow towards the leaves, a search ends exactly if it can reach only finitely many
nodes. -/
theorem visits_ends_iff {rank : α → ℕ} (hrank : ∀ d, ∀ e ∈ children d, rank d < rank e) :
    (∃ fuel, (visits children fuel [root]).isSome) ↔ {x | Reach children root x}.Finite := by
  constructor
  · rintro ⟨fuel, hsome⟩
    obtain ⟨l, hl⟩ := Option.isSome_iff_exists.mp hsome
    apply (List.finite_toSet l).subset
    intro x hx
    exact mem_of_visits hl root (by simp) x hx
  · intro hfin
    obtain ⟨bound, hbound⟩ := (hfin.image rank).bddAbove
    have hmost : ∀ x, Reach children root x → rank x ≤ bound := fun x hx => hbound ⟨x, hx, rfl⟩
    have hheight : HeightAtMost children bound root :=
      heightAtMost_of_rank hrank hmost bound .root (by omega)
    refine ⟨size children bound root + 1, ?_⟩
    rw [visits_preorder (h := bound) _ (by simpa using hheight) (by simp)]
    rfl

end Ends

end Sitecopy.PreorderSearch
