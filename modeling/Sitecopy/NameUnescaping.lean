import Sitecopy.CheckedBuffers
import Sitecopy.StateFile

/-!
# Unescaping the names of an info file

`fn_unescape` looks for the end of the name only after it has moved on, by one byte or by
three. An empty name and a name that ends within an escape sequence have their NUL stepped
over.
-/
namespace Sitecopy.NameUnescaping
open SiteModel Numerals CheckedBuffers

/-- The loop of `fn_unescape` at the positions `pnt` and `p`, with a bound on its turns. -/
def unescapeLoop {m n : ℕ} (filename : Buffer m) (turns pnt p : ℕ) (ret : Buffer n) :
    Checked (Option (Buffer n)) :=
  match turns with
  | 0 => pure none
  | turns + 1 => do
    let c ← filename.read pnt
    let (byte, pnt) ←
      if c = 37 then do
        let hi ← filename.read (pnt + 1)
        let lo ← filename.read (pnt + 2)
        pure (hexByte hi lo, pnt + 2)
      else pure (c, pnt)
    let ret ← ret.write p byte
    let next ← filename.read (pnt + 1)
    if next ≠ 0 then unescapeLoop filename turns (pnt + 1) (p + 1) ret
    else do
      let ret ← ret.write (p + 1) 0
      pure (some ret)

/-- `fn_unescape`, with the memory that `ne_malloc` returns. -/
def fnUnescape (filename : Text) (ret : Buffer (filename.length + 1)) :
    Checked (Option (Buffer (filename.length + 1))) :=
  unescapeLoop (Buffer.ofString filename) (filename.length + 1) 0 0 ret

/-- What becomes of the name of an item. -/
inductive NameResult
  | stored (name : Text)
  | rejected
  deriving DecidableEq, Repr

/-- `end_element` for a `<filename>`. It never rejects one. -/
def endFilename (cdata : Text) (ret : Buffer (cdata.length + 1)) :
    Checked (Option NameResult) := do
  match ← fnUnescape cdata ret with
  | none => pure none
  | some ret => do
    let name ← ret.string
    pure (some (.stored name))

/-- Every escape sequence has both of its digits. -/
def wholeEscapes : Text → Bool
  | [] => true
  | c :: rest =>
    if c = 37 then
      match rest with
      | _ :: _ :: rest => wholeEscapes rest
      | _ => false
    else wholeEscapes rest

lemma wholeEscapes_plain {c : UInt8} (hc : c ≠ 37) (rest : Text) :
    wholeEscapes (c :: rest) = wholeEscapes rest := by
  rw [wholeEscapes.eq_def]
  exact if_neg hc

lemma unescapeBytes_plain {c : UInt8} (hc : c ≠ 37) (rest : Text) :
    StateFile.unescapeBytes (c :: rest) = c :: StateFile.unescapeBytes rest := by
  rw [StateFile.unescapeBytes.eq_def]
  exact if_neg hc

section Loop
variable {n turns : ℕ} {s before rest out : Text} {c : UInt8} {ret : Buffer n}

lemma read_at (before : Text) (h : s ++ [0] = before ++ c :: rest) {i : ℕ}
    (hi : i = before.length) :
    (Buffer.ofString s).read i = .ok c := by
  have hlen : i < (s ++ [0]).length := by simp [h, hi]
  rw [(Buffer.holds_ofString s).read hlen]
  simp [h, hi]

lemma read_behind {i : ℕ} (hi : s.length < i) :
    (Buffer.ofString s).read i = .error (.outside i) :=
  Buffer.read_outside hi

/-- A turn at a byte that begins no escape sequence. -/
lemma unescapeLoop_plain (turns : ℕ) {d : UInt8} (h : s ++ [0] = before ++ c :: d :: rest)
    (hc : c ≠ 37) (hret : ret.Holds out) (hroom : out.length < n) :
    ∃ ret', ret'.Holds (out ++ [c]) ∧
      unescapeLoop (Buffer.ofString s) (turns + 1) before.length out.length ret =
        if d ≠ 0 then
          unescapeLoop (Buffer.ofString s) turns (before ++ [c]).length (out ++ [c]).length ret'
        else ret'.write (out ++ [c]).length 0 >>= fun ret => pure (some ret) := by
  obtain ⟨ret', hwrite, hret'⟩ := hret.write hroom c
  refine ⟨ret', hret', ?_⟩
  have hnext : (Buffer.ofString s).read (before.length + 1) = .ok d :=
    read_at (before ++ [c]) (by simpa using h) (by simp)
  rw [unescapeLoop, read_at before h rfl]
  simp only [bind, Except.bind, if_neg hc, pure, Except.pure, hwrite, hnext, List.length_append,
    List.length_singleton]

/-- A turn at an escape sequence. -/
lemma unescapeLoop_escape (turns : ℕ) {hi lo d : UInt8}
    (h : s ++ [0] = before ++ 37 :: hi :: lo :: d :: rest) (hret : ret.Holds out)
    (hroom : out.length < n) :
    ∃ ret', ret'.Holds (out ++ [hexByte hi lo]) ∧
      unescapeLoop (Buffer.ofString s) (turns + 1) before.length out.length ret =
        if d ≠ 0 then
          unescapeLoop (Buffer.ofString s) turns (before ++ [37, hi, lo]).length
            (out ++ [hexByte hi lo]).length ret'
        else ret'.write (out ++ [hexByte hi lo]).length 0 >>= fun ret => pure (some ret) := by
  obtain ⟨ret', hwrite, hret'⟩ := hret.write hroom (hexByte hi lo)
  refine ⟨ret', hret', ?_⟩
  have hhi : (Buffer.ofString s).read (before.length + 1) = .ok hi :=
    read_at (before ++ [37]) (by simpa using h) (by simp)
  have hlo : (Buffer.ofString s).read (before.length + 2) = .ok lo :=
    read_at (before ++ [37, hi]) (by simpa using h) (by simp)
  have hnext : (Buffer.ofString s).read (before.length + 2 + 1) = .ok d :=
    read_at (before ++ [37, hi, lo]) (by simpa using h) (by simp)
  rw [unescapeLoop, read_at before h rfl]
  simp only [bind, Except.bind, if_pos, pure, Except.pure, hhi, hlo, hwrite, hnext,
    List.length_append, List.length_cons, List.length_nil]

/-- A turn at an escape sequence that the name ends in: the second digit or what follows it
lies behind the NUL. -/
lemma unescapeLoop_cut (h : s = before ++ 37 :: rest) (hrest : rest.length < 2)
    (hret : ret.Holds out) (hroom : out.length < n) :
    unescapeLoop (Buffer.ofString s) (turns + 1) before.length out.length ret =
      .error (.outside (s.length + 1)) := by
  have hpercent : (Buffer.ofString s).read before.length = .ok 37 :=
    read_at before (show s ++ [0] = before ++ 37 :: (rest ++ [0]) by simp [h]) rfl
  rw [unescapeLoop, hpercent]
  cases rest with
  | nil =>
    have hhi : (Buffer.ofString s).read (before.length + 1) = .ok 0 :=
      read_at (before ++ [37]) (show s ++ [0] = _ ++ _ :: [] by simp [h]) (by simp)
    have hlo : (Buffer.ofString s).read (before.length + 2) = .error (.outside (s.length + 1)) := by
      rw [show before.length + 2 = s.length + 1 by simp [h]]
      exact read_behind (Nat.lt_succ_self _)
    simp only [bind, Except.bind, if_pos, hhi, hlo]
  | cons hi rest =>
    obtain rfl : rest = [] := List.length_eq_zero_iff.mp (by simpa using hrest)
    obtain ⟨ret', hwrite, _⟩ := hret.write hroom (hexByte hi 0)
    have hhi : (Buffer.ofString s).read (before.length + 1) = .ok hi :=
      read_at (before ++ [37]) (show s ++ [0] = _ ++ _ :: [0] by simp [h]) (by simp)
    have hlo : (Buffer.ofString s).read (before.length + 2) = .ok 0 :=
      read_at (before ++ [37, hi]) (show s ++ [0] = _ ++ _ :: [] by simp [h]) (by simp)
    have hnext : (Buffer.ofString s).read (before.length + 2 + 1) =
        .error (.outside (s.length + 1)) := by
      rw [show before.length + 2 + 1 = s.length + 1 by simp [h]]
      exact read_behind (Nat.lt_succ_self _)
    simp only [bind, Except.bind, if_pos, pure, Except.pure, hhi, hlo, hwrite, hnext]

/-- What the loop does with the rest of a name. -/
def Unescapes (s rest out : Text) (r : Checked (Option (Buffer n))) : Prop :=
  if wholeEscapes rest then
    ∃ ret, r = .ok (some ret) ∧ ret.Holds (out ++ StateFile.unescapeBytes rest ++ [0])
  else r = .error (.outside (s.length + 1))

/-- After the last byte the NUL is written. -/
lemma unescapes_end {b : UInt8} (hret : ret.Holds (out ++ [b])) (hroom : out.length + 1 < n) :
    Unescapes s [] (out ++ [b])
      (ret.write (out ++ [b]).length 0 >>= fun ret => pure (some ret)) := by
  obtain ⟨ret', hwrite, hret'⟩ := hret.write (by simpa using hroom) 0
  refine ⟨ret', by rw [hwrite]; rfl, ?_⟩
  simpa [StateFile.unescapeBytes] using hret'

lemma unescapeLoop_spec (hs : 0 ∉ s) (h : s = before ++ rest) (hne : rest ≠ [])
    (hret : ret.Holds out) (hroom : out.length + rest.length < n) (hturns : rest.length ≤ turns) :
    Unescapes s rest out
      (unescapeLoop (Buffer.ofString s) turns before.length out.length ret) := by
  obtain ⟨turns, rfl⟩ : ∃ k, turns = k + 1 :=
    ⟨turns - 1, by have := List.length_pos_of_ne_nil hne; omega⟩
  induction rest using wholeEscapes.induct generalizing before out ret turns with
  | case1 => exact absurd rfl hne
  | case2 hi lo rest ih =>
    simp only [List.length_cons] at hroom hturns
    have hspec : ∀ r : Checked (Option (Buffer n)), Unescapes s (37 :: hi :: lo :: rest) out r ↔
        Unescapes s rest (out ++ [hexByte hi lo]) r := by
      simp [Unescapes, wholeEscapes, StateFile.unescapeBytes]
    rw [hspec]
    cases rest with
    | nil =>
      have hbytes : s ++ [0] = before ++ [37, hi, lo, 0] := by simp [h]
      obtain ⟨ret₁, hret₁, hturn⟩ := unescapeLoop_escape turns hbytes hret (by omega)
      rw [hturn, if_neg (by simp)]
      exact unescapes_end hret₁ (by omega)
    | cons d rest =>
      have hd : d ≠ 0 := fun hzero => hs (by simp [h, hzero])
      have hbytes : s ++ [0] = before ++ 37 :: hi :: lo :: d :: (rest ++ [0]) := by simp [h]
      obtain ⟨ret₁, hret₁, hturn⟩ := unescapeLoop_escape turns hbytes hret (by omega)
      rw [hturn, if_pos hd]
      simp only [List.length_cons] at hroom hturns ih
      obtain ⟨turns, rfl⟩ : ∃ k, turns = k + 1 := ⟨turns - 1, by omega⟩
      exact ih (by simp [h]) (by simp) hret₁ (by simp; omega) turns (by omega)
  | case3 rest hcut =>
    rw [List.length_cons] at hroom
    obtain ⟨hshort, hcut⟩ : rest.length < 2 ∧ wholeEscapes (37 :: rest) = false := by
      match rest with
      | [] | [_] => exact ⟨by simp, rfl⟩
      | hi :: lo :: rest => exact absurd rfl (hcut hi lo rest)
    rw [Unescapes, if_neg (by simp [hcut])]
    exact unescapeLoop_cut h hshort hret (by omega)
  | case4 c rest hc ih =>
    simp only [List.length_cons] at hroom hturns
    have hspec : ∀ r : Checked (Option (Buffer n)), Unescapes s (c :: rest) out r ↔
        Unescapes s rest (out ++ [c]) r := by
      simp [Unescapes, wholeEscapes_plain hc, unescapeBytes_plain hc]
    rw [hspec]
    cases rest with
    | nil =>
      have hbytes : s ++ [0] = before ++ [c, 0] := by simp [h]
      obtain ⟨ret₁, hret₁, hturn⟩ := unescapeLoop_plain turns hbytes hc hret (by omega)
      rw [hturn, if_neg (by simp)]
      exact unescapes_end hret₁ (by omega)
    | cons d rest =>
      have hd : d ≠ 0 := fun hzero => hs (by simp [h, hzero])
      have hbytes : s ++ [0] = before ++ c :: d :: (rest ++ [0]) := by simp [h]
      obtain ⟨ret₁, hret₁, hturn⟩ := unescapeLoop_plain turns hbytes hc hret (by omega)
      rw [hturn, if_pos hd]
      simp only [List.length_cons] at hroom hturns ih
      obtain ⟨turns, rfl⟩ : ∃ k, turns = k + 1 := ⟨turns - 1, by omega⟩
      exact ih (by simp [h]) (by simp) hret₁ (by simp; omega) turns (by omega)

end Loop

/-- The empty name is a turn that ends behind its NUL. -/
lemma fnUnescape_empty (ret : Buffer 1) : fnUnescape [] ret = .error (.outside 1) := by
  obtain ⟨ret', hwrite, _⟩ := (Buffer.holds_nil ret).write Nat.one_pos 0
  have hread : (Buffer.ofString ([] : Text)).read 0 = .ok 0 := rfl
  have hnext : (Buffer.ofString ([] : Text)).read 1 = .error (.outside 1) := rfl
  rw [List.length_nil] at hwrite
  simp only [fnUnescape, unescapeLoop, hread, bind, Except.bind, pure, Except.pure]
  rw [if_neg (by decide)]
  simp only [hwrite, hnext]

lemma fnUnescape_spec {s : Text} (hs : 0 ∉ s) (hne : s ≠ []) (ret : Buffer (s.length + 1)) :
    Unescapes s s [] (fnUnescape s ret) := by
  have hroom : 0 + s.length < s.length + 1 := by omega
  exact unescapeLoop_spec hs (List.nil_append s).symm hne ret.holds_nil hroom (Nat.le_succ _)

/-- In bounds, `fn_unescape` computes what it does on lists of bytes. -/
theorem fnUnescape_whole {s : Text} (hs : 0 ∉ s) (hne : s ≠ []) (hwhole : wholeEscapes s = true)
    (ret : Buffer (s.length + 1)) :
    ∃ ret', fnUnescape s ret = .ok (some ret') ∧ ret'.string = .ok (StateFile.fnUnescape s) := by
  have hspec := fnUnescape_spec hs hne ret
  rw [Unescapes, if_pos hwhole] at hspec
  obtain ⟨ret', hloop, hret'⟩ := hspec
  exact ⟨ret', hloop, hret'.string⟩

lemma fnUnescape_cut {s : Text} (hs : 0 ∉ s) (hne : s ≠ []) (hcut : wholeEscapes s = false)
    (ret : Buffer (s.length + 1)) : fnUnescape s ret = .error (.outside (s.length + 1)) := by
  have hspec := fnUnescape_spec hs hne ret
  rwa [Unescapes, if_neg (by simp [hcut])] at hspec

/-- A name is read within its bounds. -/
theorem unescape_inside_iff {cdata : Text} (hs : 0 ∉ cdata) (ret : Buffer (cdata.length + 1)) :
    (∃ result, endFilename cdata ret = .ok (some result)) ↔
      cdata ≠ [] ∧ wholeEscapes cdata = true := by
  by_cases hne : cdata = []
  · subst hne
    rw [endFilename, fnUnescape_empty]
    simp [bind, Except.bind]
  · cases hwhole : wholeEscapes cdata with
    | false =>
      rw [endFilename, fnUnescape_cut hs hne hwhole]
      simp [bind, Except.bind]
    | true =>
      obtain ⟨ret', hrun, hname⟩ := fnUnescape_whole hs hne hwhole ret
      refine iff_of_true ⟨.stored (StateFile.fnUnescape cdata), ?_⟩ ⟨hne, rfl⟩
      rw [endFilename, hrun]
      simp only [bind, Except.bind, hname]
      rfl

theorem unescape_inside_escaped :
    (∃ result, endFilename (ascii "a%20b") ⟨[1, 2, 3, 4, 5, 6], rfl⟩ = .ok (some result)) ↔
      ascii "a%20b" ≠ [] ∧ wholeEscapes (ascii "a%20b") = true :=
  unescape_inside_iff (by decide) _

/-- An empty `<filename>`, and one that ends with a percent sign. -/
theorem unescape_outside :
    endFilename [] ⟨[0], rfl⟩ = .error (.outside 1) ∧
      endFilename (ascii "a%") ⟨[0, 0, 0], rfl⟩ = .error (.outside 3) :=
  ⟨by decide +kernel, by decide +kernel⟩

end Sitecopy.NameUnescaping
