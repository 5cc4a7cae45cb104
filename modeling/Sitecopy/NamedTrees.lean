import Mathlib

/-!
# Trees of named nodes

A tree that only grows is kept as a table of its nodes in the order in which they were added,
which is the order of the children of each node too. A path is walked by the names of its
components.
-/
namespace Sitecopy.NamedTrees

variable {κ α : Type}

structure Node (κ α : Type) where
  parent : Option ℕ
  name : κ
  val : α

section Walks
variable [DecidableEq κ] {tree : List (Node κ α)} {b i : ℕ} {name : κ} {path : List κ}

/-- The first child of `b` with the name. -/
def firstChild (tree : List (Node κ α)) (b : ℕ) (name : κ) : Option ℕ :=
  tree.findIdx? fun n => n.parent = some b ∧ n.name = name

/-- The end of a path; a component without a node is passed over. -/
def walk (tree : List (Node κ α)) (b : ℕ) (path : List κ) : ℕ :=
  path.foldl (fun b name => (firstChild tree b name).getD b) b

/-- The node at a path. -/
def lookup (tree : List (Node κ α)) (b : ℕ) (path : List κ) : Option ℕ :=
  path.foldlM (firstChild tree) b

lemma lookup_nil : lookup tree b [] = some b := rfl

lemma lookup_concat (h : lookup tree b path = some i) :
    lookup tree b (path ++ [name]) = firstChild tree i name := by
  rw [lookup, List.foldlM_append, ← lookup, h]
  exact bind_pure (firstChild tree i name)

/-- A child has its parent and its name. -/
lemma firstChild_cases (h : firstChild tree b name = some i) :
    ∃ n, tree[i]? = some n ∧ n.parent = some b ∧ n.name = name := by
  obtain ⟨hlt, hn, -⟩ := List.findIdx?_eq_some_iff_getElem.mp h
  exact ⟨tree[i], List.getElem?_eq_getElem hlt, of_decide_eq_true hn⟩

/-- What is added later comes behind the first child. -/
lemma firstChild_append (h : firstChild tree b name = some i) (more : List (Node κ α)) :
    firstChild (tree ++ more) b name = some i := by
  rw [firstChild] at h
  rw [firstChild, List.findIdx?_append, h]
  rfl

/-- A node that has been added is found, or another one before it. -/
lemma exists_firstChild {n : Node κ α} (hn : n ∈ tree) (hparent : n.parent = some b) :
    ∃ i, firstChild tree b n.name = some i := by
  apply Option.isSome_iff_exists.mp
  rw [firstChild, List.findIdx?_isSome, List.any_eq_true]
  exact ⟨n, hn, by simp [hparent]⟩

lemma lookup_append (h : lookup tree b path = some i) (more : List (Node κ α)) :
    lookup (tree ++ more) b path = some i := by
  induction path generalizing b with
  | nil => exact h
  | cons name path ih =>
    rw [lookup, List.foldlM_cons] at h ⊢
    obtain ⟨j, hj, hrest⟩ := Option.bind_eq_some_iff.mp h
    exact Option.bind_eq_some_iff.mpr ⟨j, firstChild_append hj more, ih hrest⟩

/-- A walk to a node that is there passes nothing over. -/
lemma walk_eq_of_lookup (h : lookup tree b path = some i) : walk tree b path = i := by
  induction path generalizing b with
  | nil => exact Option.some.inj h
  | cons name path ih =>
    rw [lookup, List.foldlM_cons] at h
    obtain ⟨j, hj, hrest⟩ := Option.bind_eq_some_iff.mp h
    rw [walk, List.foldl_cons, hj]
    exact ih hrest

end Walks

end Sitecopy.NamedTrees
