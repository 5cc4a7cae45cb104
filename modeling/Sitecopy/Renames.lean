import Mathlib

/-!
# Renaming one file at a time

A store maps paths to contents. A list of renames is meant as one simultaneous change of
names, but it is run from left to right, and each rename replaces what is at its new path.
The two agree on every store exactly when no rename disturbs an earlier one.
-/
namespace Sitecopy.Renames

structure Rename (α : Type*) where
  src : α
  dst : α
  deriving DecidableEq, Repr

variable {α C : Type*} [DecidableEq α] {R R' R'' : α → Option C} {m n : Rename α}
  {ms : List (Rename α)} {d : α}

/-- Move what is at the old path to the new one. -/
def Rename.apply (m : Rename α) (R : α → Option C) : α → Option C :=
  Function.update (Function.update R m.src none) m.dst (R m.src)

@[simp] lemma Rename.apply_dst : m.apply R m.dst = R m.src := Function.update_self _ _ _

lemma Rename.apply_src (h : m.src ≠ m.dst) : m.apply R m.src = none := by
  rw [apply, Function.update_of_ne h, Function.update_self]

lemma Rename.apply_other (hs : d ≠ m.src) (hd : d ≠ m.dst) : m.apply R d = R d := by
  rw [apply, Function.update_of_ne hd, Function.update_of_ne hs]

/-- Renaming a file to its own name does nothing. -/
lemma Rename.apply_self (h : m.src = m.dst) : m.apply R = R := by
  funext d
  by_cases hd : d = m.dst
  · rw [hd, apply_dst, h]
  · exact apply_other (by rwa [h]) hd

/-- The renames succeed from `R` on, each of a file that is there, and lead to `R'`. -/
def Runs : List (Rename α) → (α → Option C) → (α → Option C) → Prop
  | [], R, R' => R' = R
  | m :: ms, R, R' => (R m.src).isSome ∧ Runs ms (m.apply R) R'

lemma Runs.snoc (h : Runs ms R R') (hm : (R' m.src).isSome) :
    Runs (ms ++ [m]) R (m.apply R') := by
  induction ms generalizing R with
  | nil =>
    obtain rfl := h
    exact ⟨hm, rfl⟩
  | cons n ms ih => exact ⟨h.1, ih h.2⟩

/-- Every file is at its new path, with the contents it had at the old one. -/
def Simultaneous (ms : List (Rename α)) (R R' : α → Option C) : Prop :=
  ∀ m ∈ ms, R' m.dst = R m.src

/-- The later rename `n` leaves the file that `m` has put in place. The second case cannot
succeed: `m` took the file of `n` away. -/
def Undisturbed (m n : Rename α) : Prop :=
  m = n ∧ m.src = m.dst ∨ m.src = n.src ∧ m.src ≠ m.dst ∨
    n.src ≠ m.src ∧ n.src ≠ m.dst ∧ n.dst ≠ m.dst

/-- A rename still to come does not touch the path `d`, or it has nothing to move. -/
def Clear (d : α) (R : α → Option C) (n : Rename α) : Prop :=
  n.src = d ∧ n.dst = d ∨ R n.src = none ∨ n.src ≠ d ∧ n.dst ≠ d

lemma Undisturbed.clear (h : Undisturbed m n) : Clear m.dst (m.apply R) n := by
  rcases h with ⟨rfl, hself⟩ | ⟨hsrc, hne⟩ | ⟨_, hsrc, hdst⟩
  · exact Or.inl ⟨hself, rfl⟩
  · refine Or.inr (Or.inl ?_)
    rw [← hsrc, Rename.apply_src hne]
  · exact Or.inr (Or.inr ⟨hsrc, hdst⟩)

/-- What has nothing to move has nothing to move after an undisturbing rename either. -/
lemma Undisturbed.clear_apply (h : Undisturbed m n) (hm : (R m.src).isSome)
    (hn : Clear d R n) : Clear d (m.apply R) n := by
  rcases hn with hself | hnone | hother
  · exact Or.inl hself
  · have hne : m.src ≠ n.src := by
      intro he
      rw [he, hnone] at hm
      exact Bool.noConfusion hm
    rcases h with ⟨rfl, _⟩ | ⟨hsrc, _⟩ | ⟨hs, hd, _⟩
    · exact absurd rfl hne
    · exact absurd hsrc hne
    · refine Or.inr (Or.inl ?_)
      rw [Rename.apply_other hs hd]
      exact hnone
  · exact Or.inr (Or.inr hother)

/-- A path that the renames to come do not touch keeps its contents. -/
lemma Runs.keeps (h : Runs ms R R') (hp : ms.Pairwise Undisturbed)
    (hc : ∀ n ∈ ms, Clear d R n) : R' d = R d := by
  induction ms generalizing R with
  | nil => rw [show R' = R from h]
  | cons m ms ih =>
    obtain ⟨hm, hrun⟩ := h
    obtain ⟨hhead, htail⟩ := List.pairwise_cons.mp hp
    have hstep : m.apply R d = R d := by
      rcases hc m List.mem_cons_self with ⟨hs, hd⟩ | hnone | ⟨hs, hd⟩
      · rw [Rename.apply_self (hs.trans hd.symm)]
      · rw [hnone] at hm
        exact Bool.noConfusion hm
      · exact Rename.apply_other hs.symm hd.symm
    rw [ih hrun htail, hstep]
    intro n hn
    exact (hhead n hn).clear_apply hm (hc n (List.mem_cons_of_mem m hn))

/-- While they run, the file of a rename to come is as it was, or gone. -/
lemma Undisturbed.source (h : Undisturbed m n) :
    m.apply R n.src = R n.src ∨ m.apply R n.src = none := by
  rcases h with ⟨rfl, hself⟩ | ⟨hsrc, hne⟩ | ⟨hs, hd, _⟩
  · exact Or.inl (by rw [Rename.apply_self hself])
  · exact Or.inr (by rw [← hsrc, Rename.apply_src hne])
  · exact Or.inl (Rename.apply_other hs hd)

/-- Renames that do not disturb earlier ones do what they do simultaneously. -/
theorem Runs.simultaneous (h : Runs ms R R') (hp : ms.Pairwise Undisturbed) :
    Simultaneous ms R R' := by
  suffices hgen : ∀ start : α → Option C, (∀ m ∈ ms, R m.src = start m.src ∨ R m.src = none) →
      Simultaneous ms start R' from hgen R fun _ _ => Or.inl rfl
  induction ms generalizing R with
  | nil => intro _ _ m hm; cases hm
  | cons m ms ih =>
    intro start hstart
    obtain ⟨hm, hrun⟩ := h
    obtain ⟨hhead, htail⟩ := List.pairwise_cons.mp hp
    intro n hn
    rcases List.mem_cons.mp hn with rfl | hn
    · have hsrc : R n.src = start n.src := by
        rcases hstart n List.mem_cons_self with hs | hnone
        · exact hs
        · rw [hnone] at hm
          exact Bool.noConfusion hm
      rw [hrun.keeps htail fun k hk => (hhead k hk).clear, Rename.apply_dst, hsrc]
    · refine ih hrun htail start (fun k hk => ?_) n hn
      rcases (hhead k hk).source (R := R) with hs | hnone
      · rw [hs]
        exact hstart k (List.mem_cons_of_mem m hk)
      · exact Or.inr hnone

/-- A store in which every path holds contents of its own. -/
def ownContents : α → Option α := some

/-- On that store a disturbing pair succeeds and loses a file. -/
theorem disturbed_pair (h : ¬ Undisturbed m n) :
    ∃ R' : α → Option α, Runs [m, n] ownContents R' ∧ ¬ Simultaneous [m, n] ownContents R' := by
  have hsrc : m.src = n.src → m.src = m.dst := by
    intro he
    by_contra hne
    exact h (Or.inr (Or.inl ⟨he, hne⟩))
  by_cases hcross : n.src = m.dst
  · -- `n` takes away what `m` has put in place
    refine ⟨_, ⟨rfl, ?_, rfl⟩, fun hsim => ?_⟩
    · rw [hcross, Rename.apply_dst]
      rfl
    · have hm := hsim m (by simp)
      have hn := hsim n (by simp)
      by_cases hself : n.dst = m.dst
      · rw [← hself, hn] at hm
        obtain hs := Option.some.inj hm
        refine h (Or.inl ⟨?_, hs.symm.trans hcross⟩)
        cases m
        cases n
        exact congrArg₂ Rename.mk hs.symm hself.symm
      · rw [← hcross, Rename.apply_src (hcross.trans_ne (Ne.symm hself))] at hm
        cases hm
  · have hne : n.src ≠ m.src := fun he => hcross (he.trans (hsrc he.symm))
    have hdst : n.dst = m.dst := by
      by_contra hd
      exact h (Or.inr (Or.inr ⟨hne, hcross, hd⟩))
    -- `n` replaces it
    refine ⟨_, ⟨rfl, ?_, rfl⟩, fun hsim => ?_⟩
    · rw [Rename.apply_other hne hcross]
      rfl
    · have hm := hsim m (by simp)
      have hn := hsim n (by simp)
      rw [hdst, hm] at hn
      exact hne (Option.some.inj hn).symm

end Sitecopy.Renames
