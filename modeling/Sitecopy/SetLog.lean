import Mathlib

/-!
# Logs of changes to a set

Every event of a log adds some elements to a set and drops others. An element is in the
set after the log exactly when it was there or was added, and whatever dropped it was
followed by something that added it again.
-/
namespace Sitecopy.SetLog

/-- What the events of a log do to a set. -/
structure Effects (ε α : Type) where
  adds : ε → Set α
  drops : ε → Set α

variable {ε α : Type} (E : Effects ε α)

def Effects.apply (s : Set α) (e : ε) : Set α := (s \ E.drops e) ∪ E.adds e

/-- The set after the log. -/
def Effects.replay (s : Set α) (l : List ε) : Set α := l.foldl E.apply s

/-- Every event that drops the element is followed by one that adds it. -/
def Effects.Restored (a : α) : List ε → Prop
  | [] => True
  | e :: l => (a ∈ E.drops e → a ∉ E.adds e → ∃ e' ∈ l, a ∈ E.adds e') ∧ Restored a l

variable {E}

theorem replay_append (s : Set α) (l m : List ε) :
    E.replay s (l ++ m) = E.replay (E.replay s l) m := List.foldl_append

theorem mem_replay {a : α} {s : Set α} {l : List ε} :
    a ∈ E.replay s l ↔ (a ∈ s ∨ ∃ e ∈ l, a ∈ E.adds e) ∧ E.Restored a l := by
  induction l generalizing s with
  | nil => simp [Effects.replay, Effects.Restored]
  | cons e l ih =>
    change a ∈ E.replay (E.apply s e) l ↔ _
    rw [ih, Effects.Restored, List.exists_mem_cons_iff]
    simp only [Effects.apply, Set.mem_union, Set.mem_sdiff]
    tauto

end Sitecopy.SetLog
