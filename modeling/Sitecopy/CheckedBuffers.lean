import Mathlib

/-!
# Buffers of a fixed size

Every access to a buffer is checked, so that a function which returns a value has stayed
inside of its buffers. Reading a string needs a NUL that ends it.
-/
namespace Sitecopy.CheckedBuffers

/-- What is wrong with an access. -/
inductive Fault
  | outside (i : ℕ)
  | unterminated
  deriving DecidableEq, Repr

abbrev Checked := Except Fault

structure Buffer (n : ℕ) where
  cells : List UInt8
  length_eq : cells.length = n
  deriving DecidableEq

namespace Buffer
variable {n : ℕ}

/-- A string with its NUL. -/
def ofString (s : List UInt8) : Buffer (s.length + 1) := ⟨s ++ [0], by simp⟩

def read (b : Buffer n) (i : ℕ) : Checked UInt8 :=
  match b.cells[i]? with
  | some c => .ok c
  | none => .error (.outside i)

def write (b : Buffer n) (i : ℕ) (c : UInt8) : Checked (Buffer n) :=
  if i < n then .ok ⟨b.cells.set i c, by simp [b.length_eq]⟩ else .error (.outside i)

/-- Write bytes one after another. -/
def writeAll (b : Buffer n) (i : ℕ) : List UInt8 → Checked (Buffer n)
  | [] => .ok b
  | c :: rest => do
    let b ← b.write i c
    b.writeAll (i + 1) rest

/-- The string at the beginning of the buffer. -/
def string (b : Buffer n) : Checked (List UInt8) :=
  if 0 ∈ b.cells then .ok (b.cells.takeWhile (· ≠ 0)) else .error .unterminated

/-- The buffer begins with these bytes. -/
def Holds (b : Buffer n) (bytes : List UInt8) : Prop := bytes <+: b.cells

section Holds
variable {b : Buffer n} {bytes : List UInt8}

lemma holds_nil (b : Buffer n) : b.Holds [] := List.nil_prefix

lemma holds_ofString (s : List UInt8) : (ofString s).Holds (s ++ [0]) := List.prefix_rfl

lemma Holds.length_le (h : b.Holds bytes) : bytes.length ≤ n :=
  (List.IsPrefix.length_le h).trans_eq b.length_eq

lemma Holds.read (h : b.Holds bytes) {i : ℕ} (hi : i < bytes.length) : b.read i = .ok bytes[i] := by
  obtain ⟨rest, hrest⟩ := h
  have hcell : b.cells[i]? = some bytes[i] := by
    rw [← hrest, List.getElem?_append_left hi, List.getElem?_eq_getElem hi]
  rw [Buffer.read, hcell]

lemma read_outside {i : ℕ} (hi : n ≤ i) : b.read i = .error (.outside i) := by
  have hcell : b.cells[i]? = none := List.getElem?_eq_none (b.length_eq.trans_le hi)
  rw [Buffer.read, hcell]

lemma write_outside {i : ℕ} (hi : n ≤ i) (c : UInt8) : b.write i c = .error (.outside i) :=
  if_neg (not_lt.mpr hi)

/-- A byte behind the others. -/
lemma Holds.write (h : b.Holds bytes) (hn : bytes.length < n) (c : UInt8) :
    ∃ b', b.write bytes.length c = .ok b' ∧ b'.Holds (bytes ++ [c]) := by
  refine ⟨_, if_pos hn, ?_⟩
  obtain ⟨rest, hrest⟩ := h
  cases rest with
  | nil =>
    have hlen := congrArg List.length hrest
    rw [b.length_eq, List.append_nil] at hlen
    omega
  | cons d rest =>
    refine ⟨rest, ?_⟩
    simp [← hrest]

lemma Holds.writeAll {cs : List UInt8} (h : b.Holds bytes) (hn : bytes.length + cs.length ≤ n) :
    ∃ b', b.writeAll bytes.length cs = .ok b' ∧ b'.Holds (bytes ++ cs) := by
  induction cs generalizing b bytes with
  | nil => exact ⟨b, rfl, by rwa [List.append_nil]⟩
  | cons c cs ih =>
    rw [List.length_cons] at hn
    obtain ⟨b₁, hwrite, h₁⟩ := h.write (by omega) c
    have hlen : (bytes ++ [c]).length = bytes.length + 1 := by simp
    obtain ⟨b₂, hrest, h₂⟩ := ih h₁ (by omega)
    refine ⟨b₂, ?_, by simpa using h₂⟩
    rw [hlen] at hrest
    rw [Buffer.writeAll, hwrite]
    exact hrest

lemma takeWhile_terminated (bytes rest : List UInt8) :
    (bytes ++ 0 :: rest).takeWhile (· ≠ 0) = bytes.takeWhile (· ≠ 0) := by
  induction bytes with
  | nil => simp
  | cons c bytes ih =>
    by_cases hc : c = 0
    · simp [hc]
    · simpa [List.takeWhile_cons, hc] using ih

lemma Holds.string (h : b.Holds (bytes ++ [0])) : b.string = .ok (bytes.takeWhile (· ≠ 0)) := by
  obtain ⟨rest, hrest⟩ := h
  have hmem : 0 ∈ b.cells := by simp [← hrest]
  rw [Buffer.string, if_pos hmem, ← hrest, List.append_assoc]
  exact congrArg Except.ok (takeWhile_terminated bytes rest)

end Holds
end Buffer

end Sitecopy.CheckedBuffers
