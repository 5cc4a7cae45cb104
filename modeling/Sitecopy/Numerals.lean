import Mathlib

/-!
# Numerals as bytes

Printing of integers as `printf` does it and reading as `strtol` and `strtoul` do:
leading blanks and a sign are skipped, digits are taken as long as there are any, and
the value saturates at the ends of the type. Pairs of hexadecimal digits are bytes.
-/
namespace Sitecopy.Numerals

/-- The byte of a digit; hexadecimal digits are in lower case. -/
def digitByte (d : ℕ) : UInt8 := if d < 10 then UInt8.ofNat (48 + d) else UInt8.ofNat (87 + d)

/-- `%u` in base `b`. -/
def printNat (b n : ℕ) : List UInt8 :=
  if n = 0 then [48] else (Nat.digits b n).reverse.map digitByte

/-- `%ld`. -/
def printInt (z : ℤ) : List UInt8 :=
  if z < 0 then 45 :: printNat 10 z.natAbs else printNat 10 z.natAbs

/-- `%0wo` and the like: zeros on the left up to width `w`. -/
def padZeros (w : ℕ) (t : List UInt8) : List UInt8 := List.replicate (w - t.length) 48 ++ t

def isDigit (b : ℕ) (c : UInt8) : Bool := 48 ≤ c.toNat && c.toNat < 48 + b

/-- `isspace` in the C locale. -/
def isSpace (c : UInt8) : Bool := c = 32 || (9 ≤ c && c ≤ 13)

/-- The value of the digits at the front. -/
def scanDigits (b : ℕ) (t : List UInt8) : ℕ :=
  (t.takeWhile (isDigit b)).foldl (fun acc c => acc * b + (c.toNat - 48)) 0

/-- The sign and the digits after the leading blanks. -/
def scanSigned (b : ℕ) (t : List UInt8) : Bool × ℕ :=
  match t.dropWhile isSpace with
  | 45 :: rest => (true, scanDigits b rest)
  | 43 :: rest => (false, scanDigits b rest)
  | rest => (false, scanDigits b rest)

/-- `strtol` in base `b ≤ 10` for a type with the values from `lo` to `hi`. -/
def strtol (lo hi : ℤ) (b : ℕ) (t : List UInt8) : ℤ :=
  let r := scanSigned b t
  let z : ℤ := if r.1 then -r.2 else r.2
  if z < lo then lo else if hi < z then hi else z

/-- `strtoul` for a type with the values up to `hi`; a sign negates modulo `hi + 1`. -/
def strtoul (hi b : ℕ) (t : List UInt8) : ℕ :=
  let r := scanSigned b t
  if hi < r.2 then hi
  else if r.1 then (hi + 1 - r.2) % (hi + 1) else r.2

section Digits
variable {b : ℕ}

lemma digitByte_toNat {d : ℕ} (hd : d < 10) : (digitByte d).toNat = 48 + d := by
  unfold digitByte
  rw [if_pos hd, UInt8.toNat_ofNat']
  omega

lemma isDigit_digitByte {d : ℕ} (hb : b ≤ 10) (hd : d < b) : isDigit b (digitByte d) = true := by
  unfold isDigit
  rw [digitByte_toNat (lt_of_lt_of_le hd hb)]
  simp [hd]

lemma printNat_digits (hb : 1 < b) (hb' : b ≤ 10) (n : ℕ) :
    ∀ c ∈ printNat b n, isDigit b c = true := by
  intro c hc
  unfold printNat at hc
  split_ifs at hc with hn
  · obtain rfl := List.mem_singleton.mp hc
    have h48 : (48 : UInt8).toNat = 48 := rfl
    simp only [isDigit, h48, Bool.and_eq_true, decide_eq_true_eq]
    omega
  · obtain ⟨d, hd, rfl⟩ := List.mem_map.mp hc
    exact isDigit_digitByte hb' (Nat.digits_lt_base hb (List.mem_reverse.mp hd))

lemma printNat_ne_nil (b n : ℕ) : printNat b n ≠ [] := by
  unfold printNat
  split_ifs with hn
  · simp
  · simpa [Nat.digits_ne_nil_iff_ne_zero] using hn

lemma takeWhile_of_all {p : UInt8 → Bool} {t : List UInt8} (h : ∀ c ∈ t, p c = true) :
    t.takeWhile p = t := List.takeWhile_eq_self_iff.mpr h

/-- Reading the printed digits gives back the number. -/
theorem scanDigits_printNat (hb : 1 < b) (hb' : b ≤ 10) (n : ℕ) :
    scanDigits b (printNat b n) = n := by
  unfold scanDigits
  rw [takeWhile_of_all (printNat_digits hb hb' n)]
  unfold printNat
  split_ifs with hn
  · subst hn
    simp
  · rw [List.foldl_map, List.foldl_reverse]
    have hvalue : ∀ l : List ℕ, (∀ d ∈ l, d < b) →
        l.foldr (fun d acc => acc * b + ((digitByte d).toNat - 48)) 0 = Nat.ofDigits b l := by
      intro l
      induction l with
      | nil => simp
      | cons d l ih =>
        intro hl
        have hd : d < 10 := lt_of_lt_of_le (hl d (by simp)) hb'
        rw [List.foldr_cons, ih fun x hx => hl x (List.mem_cons_of_mem d hx),
          digitByte_toNat hd, Nat.ofDigits_cons]
        have hsub : 48 + d - 48 = d := by omega
        rw [hsub]
        ring
    rw [hvalue _ fun d hd => Nat.digits_lt_base hb hd, Nat.ofDigits_digits]

lemma scanDigits_zeros (hb : 0 < b) (k : ℕ) (t : List UInt8) :
    scanDigits b (List.replicate k 48 ++ t) = scanDigits b t := by
  induction k with
  | zero => rfl
  | succ k ih =>
    have hdigit : isDigit b 48 = true := by
      have h48 : (48 : UInt8).toNat = 48 := rfl
      simp only [isDigit, h48, Bool.and_eq_true, decide_eq_true_eq]
      omega
    rw [← ih]
    unfold scanDigits
    rw [List.replicate_succ, List.cons_append, List.takeWhile_cons, if_pos hdigit, List.foldl_cons]
    simp

lemma isDigit_not_sign {c : UInt8} (h : isDigit b c = true) :
    isSpace c = false ∧ c ≠ 45 ∧ c ≠ 43 := by
  simp only [isDigit, Bool.and_eq_true, decide_eq_true_eq] at h
  refine ⟨?_, ?_, ?_⟩
  · simp only [isSpace, Bool.or_eq_false_iff, Bool.and_eq_false_iff, decide_eq_false_iff_not]
    refine ⟨?_, Or.inr ?_⟩
    · rintro rfl
      exact absurd h.1 (by decide)
    · intro hle
      have hnat : c.toNat ≤ 13 := UInt8.le_iff_toNat_le.mp hle
      omega
  · rintro rfl
    exact absurd h.1 (by decide)
  · rintro rfl
    exact absurd h.1 (by decide)

/-- Text that starts with a digit has no sign. -/
lemma scanSigned_digit {c : UInt8} {t : List UInt8} (h : isDigit b c = true) :
    scanSigned b (c :: t) = (false, scanDigits b (c :: t)) := by
  obtain ⟨hspace, hminus, hplus⟩ := isDigit_not_sign h
  unfold scanSigned
  rw [List.dropWhile_cons, hspace]
  simp only [Bool.false_eq_true, ↓reduceIte]
  split
  · rename_i heq
    exact absurd (List.cons.inj heq).1 hminus
  · rename_i heq
    exact absurd (List.cons.inj heq).1 hplus
  · rfl

lemma scanSigned_printNat (hb : 1 < b) (hb' : b ≤ 10) (n : ℕ) :
    scanSigned b (printNat b n) = (false, n) := by
  cases hp : printNat b n with
  | nil => exact absurd hp (printNat_ne_nil b n)
  | cons c t =>
    have hc : isDigit b c = true := printNat_digits hb hb' n c (by simp [hp])
    rw [scanSigned_digit hc, ← hp, scanDigits_printNat hb hb']

lemma scanSigned_neg (t : List UInt8) : scanSigned b (45 :: t) = (true, scanDigits b t) := rfl

end Digits

/-- `strtol` reads what `%ld` printed, whatever the type, if the value is in its range. -/
theorem strtol_printInt {lo hi z : ℤ} (hlo : lo ≤ z) (hhi : z ≤ hi) :
    strtol lo hi 10 (printInt z) = z := by
  have hscan : (if (scanSigned 10 (printInt z)).1 then -((scanSigned 10 (printInt z)).2 : ℤ)
      else (scanSigned 10 (printInt z)).2) = z := by
    unfold printInt
    by_cases hneg : z < 0
    · rw [if_pos hneg, scanSigned_neg, scanDigits_printNat (by decide) (by decide), if_pos rfl]
      omega
    · rw [if_neg hneg, scanSigned_printNat (by decide) (by decide), if_neg Bool.false_ne_true]
      omega
  unfold strtol
  simp only [hscan]
  rw [if_neg (by omega), if_neg (by omega)]

/-- `strtoul` reads what was printed in octal with leading zeros. -/
theorem strtoul_padZeros {hi n : ℕ} (w : ℕ) (hn : n ≤ hi) :
    strtoul hi 8 (padZeros w (printNat 8 n)) = n := by
  have hscan : scanSigned 8 (padZeros w (printNat 8 n)) = (false, n) := by
    unfold padZeros
    cases hk : w - (printNat 8 n).length with
    | zero => exact scanSigned_printNat (by decide) (by decide) n
    | succ k =>
      rw [List.replicate_succ, List.cons_append, scanSigned_digit (by decide), ← List.cons_append,
        ← List.replicate_succ, scanDigits_zeros (by decide),
        scanDigits_printNat (by decide) (by decide)]
  unfold strtoul
  rw [hscan]
  simp only [Bool.false_eq_true, ↓reduceIte]
  rw [if_neg (by omega)]

/-! ### Bytes as pairs of hexadecimal digits -/

/-- The two hexadecimal digits of a byte. -/
def hexPair (c : UInt8) : List UInt8 := [digitByte (c.toNat / 16), digitByte (c.toNat % 16)]

/-- The value of a hexadecimal digit, as arithmetic on an arbitrary byte. -/
def hexValue (c : UInt8) : ℕ :=
  if c ≤ 57 then (c - 48).toNat
  else ((if 65 ≤ c ∧ c ≤ 90 then c + 32 else c) - 87).toNat

/-- The byte of two hexadecimal digits. -/
def hexByte (hi lo : UInt8) : UInt8 := UInt8.ofNat (hexValue hi * 16 % 256 ||| hexValue lo % 16)

lemma hexValue_digitByte {d : ℕ} (hd : d < 16) : hexValue (digitByte d) = d := by
  interval_cases d <;> decide

theorem hexByte_hexPair (c : UInt8) :
    hexByte (digitByte (c.toNat / 16)) (digitByte (c.toNat % 16)) = c := by
  have hc : c.toNat < 256 := c.toNat_lt
  unfold hexByte
  rw [hexValue_digitByte (by omega), hexValue_digitByte (by omega)]
  have hor : c.toNat / 16 * 16 % 256 ||| c.toNat % 16 % 16 = c.toNat := by
    have hmod : c.toNat / 16 * 16 % 256 = c.toNat / 16 * 16 := by omega
    have hlo : c.toNat % 16 % 16 = c.toNat % 16 := by omega
    rw [hmod, hlo]
    have hshift : c.toNat / 16 * 16 = (c.toNat / 16) <<< 4 := by
      rw [Nat.shiftLeft_eq]
    rw [hshift, ← Nat.shiftLeft_add_eq_or_of_lt (by omega : c.toNat % 16 < 2 ^ 4), Nat.shiftLeft_eq]
    omega
  rw [hor]
  exact UInt8.ofNat_toNat

end Sitecopy.Numerals
