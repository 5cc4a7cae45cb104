import Mathlib

/-!
# Properties of the steps of a run

A run is the list of its events, newest first. A property of a step may look at the
events before it. `Upheld meets holds` says that the property held in every state that
was reached by steps which all met the condition.
-/
namespace Sitecopy.RunTrace

variable {ε : Type} {meets holds : List ε → ε → Prop}

/-- Every event satisfies `P`, given the events before it. -/
def Steps (P : List ε → ε → Prop) : List ε → Prop
  | [] => True
  | e :: tr => P tr e ∧ Steps P tr

instance Steps.decidable (P : List ε → ε → Prop) [∀ tr e, Decidable (P tr e)] :
    ∀ tr, Decidable (Steps P tr)
  | [] => .isTrue trivial
  | e :: tr =>
    have := Steps.decidable P tr
    inferInstanceAs (Decidable (P tr e ∧ Steps P tr))

lemma Steps.mono {P Q : List ε → ε → Prop} {tr : List ε} (h : Steps P tr)
    (hPQ : ∀ tr e, P tr e → Q tr e) : Steps Q tr := by
  induction tr with
  | nil => trivial
  | cons e tr ih => exact ⟨hPQ tr e h.1, ih h.2⟩

lemma Steps.of_suffix {P : List ε → ε → Prop} {tr tr' : List ε} (h : Steps P tr)
    (hs : tr' <:+ tr) : Steps P tr' := by
  induction tr with
  | nil =>
    obtain rfl := List.suffix_nil.mp hs
    exact h
  | cons e tr ih =>
    rcases List.suffix_cons_iff.mp hs with rfl | hs
    · exact h
    · exact ih h.2 hs

lemma Steps.step {P : List ε → ε → Prop} {e : ε} {tr tr' : List ε} (h : Steps P tr)
    (hs : e :: tr' <:+ tr) : P tr' e := (h.of_suffix hs).1

/-- What is said of the steps after `start` says nothing of those before. -/
lemma steps_before {P : List ε → ε → Prop} {start tr : List ε} (h : tr <:+ start) :
    Steps (fun tr e => start <:+ tr → P tr e) tr := by
  induction tr with
  | nil => trivial
  | cons e tr ih =>
    refine ⟨fun hs => ?_, ih ((List.suffix_cons e tr).trans h)⟩
    have hlen := h.length_le.trans hs.length_le
    rw [List.length_cons] at hlen
    omega

def Upheld (meets holds : List ε → ε → Prop) (tr : List ε) : Prop :=
  ∀ tr', tr' <:+ tr → Steps meets tr' → Steps holds tr'

theorem upheld_nil : Upheld meets holds [] := by
  intro tr' hs _
  obtain rfl := List.suffix_nil.mp hs
  trivial

/-- A further step only has to be looked at when all steps so far met the condition. -/
theorem Upheld.cons {e : ε} {tr : List ε} (h : Upheld meets holds tr)
    (he : Steps meets tr → meets tr e → holds tr e) : Upheld meets holds (e :: tr) := by
  intro tr' hs hm
  rcases List.suffix_cons_iff.mp hs with rfl | hs
  · exact ⟨he hm.2 hm.1, h tr (List.suffix_refl tr) hm.2⟩
  · exact h tr' hs hm

/-- After a step that failed the condition nothing is claimed any more. -/
theorem Upheld.of_failed {tr tr' : List ε} (h : Upheld meets holds tr) (hf : ¬ Steps meets tr)
    (hs : tr <:+ tr') : Upheld meets holds tr' ∧ ¬ Steps meets tr' := by
  refine ⟨fun p hp hm => ?_, fun hm => hf (hm.of_suffix hs)⟩
  rcases List.suffix_or_suffix_of_suffix hp hs with hle | hle
  · exact h p hle hm
  · exact absurd (hm.of_suffix hle) hf

end Sitecopy.RunTrace
