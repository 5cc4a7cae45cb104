import Mathlib

/-!
# Paths over a separator

A path is a list of names with a separator between them; the empty path is the root.
-/
namespace Sitecopy.Paths

variable {α : Type}

/-- The entry `n` of the directory `d`. -/
def join [DecidableEq α] (sep : α) (d n : List α) : List α := if d = [] then n else d ++ sep :: n

/-- A path of one component. -/
structure IsName (sep : α) (n : List α) : Prop where
  nonempty : n ≠ []
  plain : sep ∉ n

/-- The path `a` lies below the path `b`. -/
def Below (sep : α) (a b : List α) : Prop := ∃ t, a = b ++ sep :: t

/-- No path comes before one that it lies below. -/
def ParentsFirst (sep : α) (l : List (List α)) : Prop := l.Pairwise fun a b => ¬ Below sep a b

section Append
variable {sep : α} {a b n m : List α}

/-- A path is cut at its last separator in one way only. -/
lemma append_sep_inj (hn : sep ∉ n) (hm : sep ∉ m) (h : a ++ sep :: n = b ++ sep :: m) :
    a = b ∧ n = m := by
  rcases List.append_eq_append_iff.mp h with ⟨l, rfl, hl⟩ | ⟨l, rfl, hl⟩
  · cases l with
    | nil =>
      obtain ⟨_, rfl⟩ := List.cons.inj hl
      simp
    | cons c l =>
      obtain ⟨_, rfl⟩ := List.cons.inj hl
      simp at hn
  · cases l with
    | nil =>
      obtain ⟨_, rfl⟩ := List.cons.inj hl
      simp
    | cons c l =>
      obtain ⟨_, rfl⟩ := List.cons.inj hl
      simp at hm

lemma Below.trans {c : List α} (hab : Below sep a b) (hbc : Below sep b c) : Below sep a c := by
  obtain ⟨s, rfl⟩ := hab
  obtain ⟨t, rfl⟩ := hbc
  exact ⟨t ++ sep :: s, by simp⟩

lemma Below.length_lt (h : Below sep a b) : b.length < a.length := by
  obtain ⟨t, rfl⟩ := h
  simp

lemma Below.irrefl (h : Below sep a a) : False := lt_irrefl _ h.length_lt

/-- Two paths are not below each other. -/
lemma Below.asymm (hab : Below sep a b) (hba : Below sep b a) : False := (hab.trans hba).irrefl

lemma below_append_left (r : List α) : Below sep (r ++ a) (r ++ b) ↔ Below sep a b := by
  simp [Below, List.append_assoc]

lemma ParentsFirst.sublist {l l' : List (List α)} (h : ParentsFirst sep l) (hl : l'.Sublist l) :
    ParentsFirst sep l' := List.Pairwise.sublist hl h

/-- The order does not depend on where the paths start. -/
lemma ParentsFirst.prepend {l : List (List α)} (h : ParentsFirst sep l) (r : List α) :
    ParentsFirst sep (l.map fun a => r ++ a) := by
  apply List.Pairwise.map _ _ h
  intro a b hab hbelow
  exact hab ((below_append_left r).mp hbelow)

lemma IsName.not_below (h : IsName sep n) : ¬ Below sep n b := by
  rintro ⟨t, rfl⟩
  exact h.plain (by simp)

end Append

section Join
variable [DecidableEq α] {sep : α} {d e n m b : List α}

lemma join_root : join sep [] n = n := rfl

lemma join_of_ne (h : d ≠ []) : join sep d n = d ++ sep :: n := if_neg h

lemma join_ne_nil (h : IsName sep n) : join sep d n ≠ [] := by
  unfold join
  split_ifs
  · exact h.nonempty
  · simp

theorem join_inj (hn : IsName sep n) (hm : IsName sep m) (h : join sep d n = join sep e m) :
    d = e ∧ n = m := by
  by_cases hd : d = [] <;> by_cases he : e = []
  · subst hd he
    exact ⟨rfl, h⟩
  · rw [hd, join_root, join_of_ne he] at h
    exact absurd ⟨m, h⟩ hn.not_below
  · rw [he, join_root, join_of_ne hd] at h
    exact absurd ⟨n, h.symm⟩ hm.not_below
  · rw [join_of_ne hd, join_of_ne he] at h
    exact append_sep_inj hn.plain hm.plain h

lemma join_below (hd : d ≠ []) : Below sep (join sep d n) d := ⟨n, join_of_ne hd⟩

/-- What an entry lies below is its directory, or what that lies below. -/
lemma below_of_join (hn : IsName sep n) (h : Below sep (join sep d n) b) :
    b = d ∨ Below sep d b := by
  by_cases hd : d = []
  · rw [hd, join_root] at h
    exact absurd h hn.not_below
  · obtain ⟨t, ht⟩ := h
    rw [join_of_ne hd] at ht
    rcases List.append_eq_append_iff.mp ht with ⟨l, rfl, hl⟩ | ⟨l, rfl, hl⟩
    · cases l with
      | nil => simp
      | cons c l =>
        obtain ⟨rfl, rfl⟩ := List.cons.inj hl
        exact absurd (by simp) hn.plain
    · cases l with
      | nil => simp
      | cons c l =>
        obtain ⟨rfl, _⟩ := List.cons.inj hl
        exact Or.inr ⟨l, rfl⟩

end Join

end Sitecopy.Paths
