import Sitecopy.FtpSession

/-!
# The replies to PASV and EPSV

Both parsers on the memory that holds the reply, with the bytes that they examine; the
session functions see the same string. A reply is valid if it has decimal numbers in
range at the place that is parsed; the parsers take more than that.
-/
namespace Sitecopy.PassiveReplies
open SiteModel SiteOperations Numerals FtpSession

/-- Where the data connection goes. -/
structure Endpoint where
  addr : Option InetAddr
  port : ℕ
  deriving DecidableEq, Repr

/-! ### The parsers on memory -/

/-- The state is the number of bytes up to the last one that was examined. -/
abbrev Examine := StateM ℕ

@[simp] lemma examine_bind {α β : Type} (m : Examine α) (f : α → Examine β) (seen : ℕ) :
    (m >>= f) seen = f (m seen).1 (m seen).2 := rfl

@[simp] lemma examine_pure {α : Type} (a : α) (seen : ℕ) :
    (pure a : Examine α) seen = (a, seen) := rfl

def byteAt (buf : Text) (i : ℕ) : Examine UInt8 := fun seen => (buf.getD i 0, max seen (i + 1))

/-- The position of the first byte with `p`; the text starts at position `i`. -/
def scanUntil (p : UInt8 → Bool) : Text → ℕ → Examine ℕ
  | [], i => pure i
  | b :: rest, i => fun seen =>
    if p b then (i, max seen (i + 1)) else scanUntil p rest (i + 1) (max seen (i + 1))

/-- `strchr` from position `i` on. -/
def strchr (c : UInt8) (buf : Text) (i : ℕ) : Examine (Option ℕ) := do
  let j ← scanUntil (fun b => b = c || b = 0) (buf.drop i) i
  pure (if buf.getD j 0 = c then some j else none)

/-- The end of the string at position `i`, up to which `sscanf` and `strtol` may read. -/
def strend (buf : Text) (i : ℕ) : Examine ℕ := scanUntil (fun b => b = 0) (buf.drop i) i

/-- The end of `parse_pasv_reply`: the address and the port in a text. -/
def pasvEndpoint (start : Text) : Option Endpoint :=
  match scanUnsigneds 5 start with
  | some [h1, h2, h3, h4, p1, p2] =>
    let raw := [h1, h2, h3, h4].map fun h => UInt8.ofNat (h % 256)
    some { addr := some ⟨.ipv4, raw⟩, port := (p1 * 256 ||| p2) % 2 ^ 16 }
  | _ => none

/-- The end of `parse_epasv_reply`: the port between the delimiters; `curaddr` is the
address of the control connection. -/
def epasvEndpoint (curaddr : Option InetAddr) (number : Text) : Option Endpoint :=
  if (afterNumeral number).getD number ≠ [] then none
  else
    let port := strtol (-2 ^ 63) (2 ^ 63 - 1) 10 number
    some { addr := curaddr, port := (port % 2 ^ 16).toNat }

/-- `parse_pasv_reply`. -/
def parsePasv (buf : Text) : Examine (Option Endpoint) := do
  match ← strchr 32 buf 0 with
  | none => pure none
  | some start => do
    let start ← scanUntil (fun b => isDigit 10 b || b = 0) (buf.drop start) start
    let _ ← strend buf start
    pure (pasvEndpoint (cString (buf.drop start)))

/-- The tests of `parse_epasv_reply` on the delimiter, up to the closing parenthesis. -/
def closing (buf : Text) (ptr : ℕ) : Examine (Option ℕ) := do
  let delim ← byteAt buf (ptr + 1)
  let second ← byteAt buf (ptr + 2)
  if delim ≠ second then pure none
  else do
    let third ← byteAt buf (ptr + 3)
    if delim ≠ third then pure none
    else
      match ← strchr 41 buf (ptr + 4) with
      | none => pure none
      | some eptr => do
        if eptr = ptr + 4 then pure none
        else do
          let last ← byteAt buf (eptr - 1)
          pure (if last ≠ delim then none else some eptr)

/-- `parse_epasv_reply`. -/
def parseEpasv (curaddr : Option InetAddr) (buf : Text) : Examine (Option Endpoint) := do
  match ← strchr 40 buf 0 with
  | none => pure none
  | some ptr =>
    match ← closing buf ptr with
    | none => pure none
    | some eptr => do
      let buf := buf.set (eptr - 1) 0
      let _ ← strend buf (ptr + 4)
      pure (epasvEndpoint curaddr (cString (buf.drop (ptr + 4))))

/-! ### Valid replies -/

/-- Decimal numbers at the front of a text, separated by `n` commas. -/
def decimals : ℕ → Text → Option (List ℕ)
  | 0, t => if t.takeWhile (isDigit 10) = [] then none else some [scanDigits 10 t]
  | n + 1, t =>
    if t.takeWhile (isDigit 10) = [] then none
    else
      match t.dropWhile (isDigit 10) with
      | 44 :: rest => (decimals n rest).map (scanDigits 10 t :: ·)
      | _ => none

/-- The text at the first digit after the first blank. -/
def pasvPlace (reply : Text) : Text :=
  ((cString reply).dropWhile (· ≠ 32)).dropWhile fun b => !isDigit 10 b

/-- The text between `(ddd` and `d)` at the first parenthesis. -/
def epasvNumber (reply : Text) : Option Text :=
  match (cString reply).dropWhile (· ≠ 40) with
  | _ :: d :: d2 :: d3 :: rest =>
    let inner := rest.takeWhile (· ≠ 41)
    if d2 = d ∧ d3 = d ∧ 41 ∈ rest ∧ inner.getLast? = some d then some inner.dropLast else none
  | _ => none

def ValidPasv (reply : Text) (e : Endpoint) : Prop :=
  ∃ h1 h2 h3 h4 p1 p2, decimals 5 (pasvPlace reply) = some [h1, h2, h3, h4, p1, p2] ∧
    (∀ n ∈ [h1, h2, h3, h4, p1, p2], n ≤ 255) ∧ p1 * 256 + p2 ≠ 0 ∧
    e = { addr := some ⟨.ipv4, [h1, h2, h3, h4].map UInt8.ofNat⟩, port := p1 * 256 + p2 }

def ValidEpasv (curaddr : Option InetAddr) (reply : Text) (e : Endpoint) : Prop :=
  ∃ number, epasvNumber reply = some number ∧ number ≠ [] ∧
    (∀ c ∈ number, isDigit 10 c = true) ∧ 1 ≤ scanDigits 10 number ∧
    scanDigits 10 number ≤ 65535 ∧ e = { addr := curaddr, port := scanDigits 10 number }

/-- What `parse_pasv_reply` makes of a reply, whatever follows it in the buffer: it is
accepted only if it is valid, and no byte after its NUL is examined. -/
def PasvRight (reply stale : Text) : Prop :=
  let r := (parsePasv (reply ++ 0 :: stale)).run 0
  (∀ e, r.1 = some e → ValidPasv reply e) ∧ r.2 ≤ (cString reply).length + 1

def EpasvRight (curaddr : Option InetAddr) (reply stale : Text) : Prop :=
  let r := (parseEpasv curaddr (reply ++ 0 :: stale)).run 0
  (∀ e, r.1 = some e → ValidEpasv curaddr reply e) ∧ r.2 ≤ (cString reply).length + 1

/-! ### The replies that go wrong -/

/-- A numeral with what may stand in front of it, white space and a sign. -/
structure Numeral where
  lead : Text
  digits : Text
  deriving DecidableEq, Repr

def Numeral.value (n : Numeral) : ℕ := scanDigits 10 n.digits

/-- The sign at the front of a text, and the rest. -/
def splitSign : Text → Text × Text
  | 45 :: rest => ([45], rest)
  | 43 :: rest => ([43], rest)
  | t => ([], t)

/-- The numeral at the front of a text, and what follows it. -/
def frontNumeral (t : Text) : Option (Numeral × Text) :=
  let r := splitSign (t.dropWhile isSpace)
  let digits := r.2.takeWhile (isDigit 10)
  if digits = [] then none
  else some ({ lead := t.takeWhile isSpace ++ r.1, digits }, r.2.dropWhile (isDigit 10))

/-- `n + 1` numerals separated by commas. -/
def numerals : ℕ → Text → Option (List Numeral)
  | 0, t => (frontNumeral t).map fun r => [r.1]
  | n + 1, t =>
    match frontNumeral t with
    | some (first, 44 :: rest) => (numerals n rest).map (first :: ·)
    | _ => none

/-- No numeral has white space or a sign in front or exceeds 255, and the last two are not
both zero. -/
def PasvClean (reply : Text) : Prop :=
  ∀ h1 h2 h3 h4 p1 p2, numerals 5 (pasvPlace reply) = some [h1, h2, h3, h4, p1, p2] →
    (∀ n ∈ [h1, h2, h3, h4, p1, p2], n.lead = [] ∧ n.value ≤ 255) ∧
      ¬ (p1.value = 0 ∧ p2.value = 0)

/-- The first parenthesis is not the last character; what stands between the delimiters is
not empty; and if it is one numeral, it has no white space or sign in front and is neither
zero nor above 65535. -/
def EpasvClean (reply : Text) : Prop :=
  (cString reply).dropWhile (· ≠ 40) ≠ [40] ∧
    ∀ number, epasvNumber reply = some number → number ≠ [] ∧
      ∀ n, frontNumeral number = some (n, []) → n.lead = [] ∧ n.value ≠ 0 ∧ n.value ≤ 65535

/-! ### Strings in memory -/

/-- The string at position `i` of the memory. -/
def StringAt (buf : Text) (i : ℕ) (s : Text) : Prop := 0 ∉ s ∧ ∃ junk, buf.drop i = s ++ 0 :: junk

section Memory
variable {buf s : Text} {i : ℕ} {p : UInt8 → Bool}

/-- What is left at the first `c`. -/
lemma dropWhile_cases (c : UInt8) (t : Text) :
    c ∉ t ∧ t.dropWhile (· ≠ c) = [] ∨ c ∈ t ∧ ∃ rest, t.dropWhile (· ≠ c) = c :: rest := by
  induction t with
  | nil => exact Or.inl ⟨by simp, rfl⟩
  | cons b t ih =>
    by_cases hb : b = c
    · exact Or.inr ⟨by simp [hb], t, by simp [hb]⟩
    · simpa [hb, Ne.symm hb] using ih

lemma cString_stringAt (reply stale : Text) :
    StringAt (reply ++ 0 :: stale) 0 (cString reply) := by
  have hsplit : reply = cString reply ++ reply.dropWhile (· ≠ 0) :=
    (List.takeWhile_append_dropWhile).symm
  have hfree : 0 ∉ cString reply := by
    intro h
    simpa using List.mem_takeWhile_imp h
  refine ⟨hfree, ?_⟩
  rw [List.drop_zero]
  obtain ⟨-, hd⟩ | ⟨-, rest, hd⟩ := dropWhile_cases 0 reply
  · rw [hd, List.append_nil] at hsplit
    exact ⟨stale, by rw [← hsplit]⟩
  · refine ⟨rest ++ 0 :: stale, ?_⟩
    conv_lhs => rw [hsplit, hd]
    simp

lemma StringAt.cString (h : StringAt buf i s) : FtpSession.cString (buf.drop i) = s := by
  obtain ⟨hfree, junk, hj⟩ := h
  unfold FtpSession.cString
  rw [hj, List.takeWhile_append_of_pos fun b hb => by
    have : b ≠ 0 := fun h0 => hfree (h0 ▸ hb)
    simpa using this]
  simp

lemma StringAt.move (h : StringAt buf i s) {k : ℕ} (hk : k ≤ s.length) :
    StringAt buf (i + k) (s.drop k) := by
  obtain ⟨hfree, junk, hj⟩ := h
  refine ⟨fun h0 => hfree (List.mem_of_mem_drop h0), junk, ?_⟩
  rw [← List.drop_drop, hj, List.drop_append_of_le_length hk]

lemma StringAt.getD (h : StringAt buf i s) {k : ℕ} (hk : k ≤ s.length) :
    buf.getD (i + k) 0 = s.getD k 0 := by
  obtain ⟨-, junk, hj⟩ := h
  have hdrop : buf.getD (i + k) 0 = (buf.drop i).getD k 0 := by
    simp [List.getD_eq_getElem?_getD, List.getElem?_drop]
  rw [hdrop, hj]
  rcases hk.lt_or_eq with hlt | heq
  · rw [List.getD_append _ _ _ _ hlt]
  · subst heq
    simp

lemma drop_takeWhile (p : UInt8 → Bool) (t : Text) :
    t.drop (t.takeWhile p).length = t.dropWhile p := by
  induction t with
  | nil => rfl
  | cons b rest ih =>
    cases hp : p b with
    | true => simp [hp, ih]
    | false => simp [hp]

lemma length_takeWhile_dropWhile (p : UInt8 → Bool) (t : Text) :
    (t.takeWhile p).length + (t.dropWhile p).length = t.length := by
  rw [← List.length_append, List.takeWhile_append_dropWhile]

lemma StringAt.dropWhile (h : StringAt buf i s) (q : UInt8 → Bool) :
    StringAt buf (i + (s.takeWhile q).length) (s.dropWhile q) := by
  rw [← drop_takeWhile]
  exact h.move (List.takeWhile_sublist _).length_le

/-- A NUL written into a string cuts it off. -/
lemma StringAt.set (h : StringAt buf i s) {k : ℕ} (hk : k < s.length) :
    StringAt (buf.set (i + k) 0) i (s.take k) := by
  obtain ⟨hfree, junk, hj⟩ := h
  refine ⟨fun h0 => hfree (List.mem_of_mem_take h0), (s ++ 0 :: junk).drop (k + 1), ?_⟩
  rw [List.drop_set, if_neg (by omega), Nat.add_sub_cancel_left, hj,
    List.set_eq_take_append_cons_drop, if_pos (by simp; omega),
    List.take_append_of_le_length hk.le]

/-- The position that is found, and the bytes up to it. -/
lemma scanUntil_fst (t : Text) (i seen : ℕ) :
    (scanUntil p t i seen).1 = i + (t.takeWhile fun b => !p b).length := by
  induction t generalizing i seen with
  | nil => rfl
  | cons b rest ih =>
    rw [scanUntil]
    cases hp : p b with
    | true => simp [hp]
    | false =>
      simp only [Bool.false_eq_true, ↓reduceIte, ih, List.takeWhile_cons, hp, Bool.not_false,
        List.length_cons]
      omega

lemma le_scanUntil (t : Text) (i seen : ℕ) : seen ≤ (scanUntil p t i seen).2 := by
  induction t generalizing i seen with
  | nil => exact le_refl seen
  | cons b rest ih =>
    rw [scanUntil]
    split_ifs
    · exact le_max_left _ _
    · exact (le_max_left _ _).trans (ih (i + 1) (max seen (i + 1)))

lemma scanUntil_run {t : Text} (hp : ∃ b ∈ t, p b = true) (i seen : ℕ) :
    scanUntil p t i seen = (i + (t.takeWhile fun b => !p b).length,
      max seen (i + (t.takeWhile fun b => !p b).length + 1)) := by
  induction t generalizing i seen with
  | nil => simp at hp
  | cons b rest ih =>
    rw [scanUntil]
    cases hb : p b with
    | true => simp [hb]
    | false =>
      have hrest : ∃ c ∈ rest, p c = true := by simpa [hb] using hp
      simp only [Bool.false_eq_true, ↓reduceIte, ih hrest, List.takeWhile_cons, hb, Bool.not_false,
        List.length_cons]
      exact Prod.ext (by show _ = _; omega) (by show _ = _; omega)

/-- A scan that stops at the NUL stays in the string. -/
lemma StringAt.scan (h : StringAt buf i s) (h0 : p 0 = true) (seen : ℕ) :
    scanUntil p (buf.drop i) i seen = (i + (s.takeWhile fun b => !p b).length,
      max seen (i + (s.takeWhile fun b => !p b).length + 1)) := by
  obtain ⟨-, junk, hj⟩ := h
  have hlen : ((s ++ 0 :: junk).takeWhile fun b => !p b) = s.takeWhile fun b => !p b := by
    rw [List.takeWhile_append]
    split_ifs with hall
    · rw [List.takeWhile_cons, h0, (List.takeWhile_sublist _).eq_of_length hall]
      simp
    · rfl
  rw [scanUntil_run ⟨0, by simp [hj], h0⟩, hj, hlen]

lemma not_eq_stop (c : UInt8) :
    (fun b : UInt8 => !decide (b = c)) = fun b => decide (b ≠ c) := by
  funext b
  simp

lemma takeWhile_absent {c : UInt8} (h : c ∉ s) : (s.takeWhile fun b => decide (b ≠ c)) = s := by
  apply List.takeWhile_eq_self_iff.mpr
  intro b hb
  have : b ≠ c := fun hbc => h (hbc ▸ hb)
  simpa using this

lemma StringAt.strend (h : StringAt buf i s) (seen : ℕ) :
    PassiveReplies.strend buf i seen = (i + s.length, max seen (i + s.length + 1)) := by
  unfold PassiveReplies.strend
  rw [h.scan (by simp), not_eq_stop, takeWhile_absent h.1]

lemma takeWhile_stop (q : UInt8 → Bool) (h0 : 0 ∉ s) :
    (s.takeWhile fun b => !(q b || b = 0 : Bool)) = s.takeWhile fun b => !q b := by
  induction s with
  | nil => rfl
  | cons b rest ih =>
    have hb : b ≠ 0 := fun h => h0 (by simp [h])
    have hrest : 0 ∉ rest := fun h => h0 (by simp [h])
    simp only [List.takeWhile_cons, ih hrest]
    simp [hb]

lemma getD_takeWhile {c : UInt8} (hc : c ≠ 0) :
    s.getD (s.takeWhile (· ≠ c)).length 0 = c ↔ c ∈ s := by
  induction s with
  | nil => simp [hc.symm]
  | cons b rest ih =>
    by_cases hb : b = c
    · simp [hb]
    · simp only [List.takeWhile_cons, hb, ne_eq, not_false_eq_true, decide_true, ↓reduceIte,
        List.length_cons, List.getD_cons_succ, List.mem_cons, Ne.symm hb, false_or]
      exact ih

/-- `strchr` on a string, for a character other than NUL. -/
lemma StringAt.strchr (h : StringAt buf i s) {c : UInt8} (hc : c ≠ 0) (seen : ℕ) :
    PassiveReplies.strchr c buf i seen =
      (if c ∈ s then some (i + (s.takeWhile (· ≠ c)).length) else none,
        max seen (i + (s.takeWhile (· ≠ c)).length + 1)) := by
  have hscan := h.scan (p := fun b => b = c || b = 0) (by simp) seen
  rw [takeWhile_stop (fun b => decide (b = c)) h.1, not_eq_stop] at hscan
  have hget := h.getD (k := (s.takeWhile (· ≠ c)).length) (List.takeWhile_sublist _).length_le
  show ((if buf.getD (scanUntil _ (buf.drop i) i seen).1 0 = c then _ else _), _) = _
  rw [hscan, hget]
  simp only [getD_takeWhile hc]

end Memory

/-! ### What the parsers do -/

/-- `parse_pasv_reply` reads the whole string and nothing after its NUL. -/
theorem parsePasv_run (reply stale : Text) (seen : ℕ) :
    parsePasv (reply ++ 0 :: stale) seen =
      (pasvEndpoint (pasvPlace reply), max seen ((cString reply).length + 1)) := by
  have hstr := cString_stringAt reply stale
  generalize reply ++ 0 :: stale = buf at hstr ⊢
  have hblank := hstr.strchr (c := 32) (by decide) seen
  unfold parsePasv pasvPlace
  generalize cString reply = s at hstr hblank ⊢
  rw [examine_bind, hblank]
  obtain ⟨hmem, hnone⟩ | ⟨hmem, -⟩ := dropWhile_cases 32 s
  · rw [if_neg hmem, takeWhile_absent hmem, hnone, Nat.zero_add]
    rfl
  · simp only [if_pos hmem, Nat.zero_add]
    have hblanks := length_takeWhile_dropWhile (fun b => decide (b ≠ 32)) s
    have hstart := hstr.dropWhile fun b => decide (b ≠ 32)
    rw [Nat.zero_add] at hstart
    generalize s.dropWhile (fun b => decide (b ≠ 32)) = s1 at hstart hblanks ⊢
    have hskip := length_takeWhile_dropWhile (fun b => !isDigit 10 b) s1
    have hplace := hstart.dropWhile fun b => !isDigit 10 b
    rw [examine_bind, hstart.scan (by simp), takeWhile_stop _ hstart.1, examine_bind,
      hplace.strend, examine_pure, hplace.cString]
    exact Prod.ext rfl (by show max _ _ = max _ _; omega)

/-- Cut off by a NUL, the three delimiters are not equal. -/
lemma closing_short {buf : Text} {ptr : ℕ} {d : UInt8} {rest : Text} (seen : ℕ)
    (h : StringAt buf ptr (40 :: d :: rest)) (hrest : rest.length < 2) :
    (closing buf ptr seen).1 = none ∧ (closing buf ptr seen).2 ≤ max seen (ptr + rest.length + 3) := by
  have hd : d ≠ 0 := fun h0 => h.1 (by simp [h0])
  have hdelim : buf.getD (ptr + 1) 0 = d := h.getD (k := 1) (by simp)
  have hsecond : buf.getD (ptr + 2) 0 = rest.getD 0 0 := h.getD (k := 2) (by simp)
  unfold closing byteAt
  simp only [examine_bind, hdelim, hsecond]
  match rest, hrest with
  | [], _ =>
    rw [if_pos (by simpa using hd)]
    exact ⟨rfl, by show max (max _ _) _ ≤ max _ _; simp⟩
  | [d2], _ =>
    have hthird : buf.getD (ptr + 3) 0 = 0 := h.getD (k := 3) (by simp)
    simp only [List.getD_cons_zero]
    split_ifs with h2
    · exact ⟨rfl, by show max (max _ _) _ ≤ max _ _; simp; omega⟩
    · simp only [examine_bind, hthird]
      rw [if_pos hd]
      exact ⟨rfl, by show max (max (max _ _) _) _ ≤ max _ _; simp⟩

/-- With three delimiters, the closing parenthesis is looked for behind them. -/
lemma closing_long {buf : Text} {ptr : ℕ} {d d2 d3 : UInt8} {rest inner : Text} (seen : ℕ)
    (h : StringAt buf ptr (40 :: d :: d2 :: d3 :: rest))
    (hin : (rest.takeWhile fun b => decide (b ≠ 41)) = inner) :
    (closing buf ptr seen).1 = (if d2 = d ∧ d3 = d ∧ 41 ∈ rest ∧ inner.getLast? = some d then
        some (ptr + 4 + inner.length) else none) ∧
      (closing buf ptr seen).2 ≤ max seen (ptr + rest.length + 5) := by
  have hdelim : buf.getD (ptr + 1) 0 = d := h.getD (k := 1) (by simp)
  have hsecond : buf.getD (ptr + 2) 0 = d2 := h.getD (k := 2) (by simp)
  have hthird : buf.getD (ptr + 3) 0 = d3 := h.getD (k := 3) (by simp)
  have hrest : StringAt buf (ptr + 4) rest := h.move (k := 4) (by simp)
  have hsplit := List.takeWhile_append_dropWhile (l := rest) (p := fun b => decide (b ≠ 41))
  have hinner : inner.length ≤ rest.length := hin ▸ (List.takeWhile_sublist _).length_le
  unfold closing byteAt
  simp only [examine_bind, hdelim, hsecond]
  by_cases h2 : d = d2
  swap
  · rw [if_pos h2, if_neg (by tauto)]
    exact ⟨rfl, by show max (max _ _) _ ≤ max _ _; omega⟩
  simp only [h2, ne_eq, not_true_eq_false, ↓reduceIte, examine_bind, hthird]
  by_cases h3 : d2 = d3
  swap
  · rw [if_pos h3, if_neg (by tauto)]
    exact ⟨rfl, by show max (max (max _ _) _) _ ≤ max _ _; omega⟩
  simp only [h3, not_true_eq_false, ↓reduceIte, examine_bind, hrest.strchr (c := 41) (by decide),
    hin]
  by_cases hclose : (41 : UInt8) ∈ rest
  swap
  · rw [if_neg hclose, if_neg (by tauto)]
    exact ⟨rfl, by show max (max (max (max _ _) _) _) _ ≤ max _ _; omega⟩
  rw [if_pos hclose]
  obtain rfl | ⟨init, last, rfl⟩ := List.eq_nil_or_concat inner
  · simp only [List.length_nil, add_zero, ↓reduceIte, List.getLast?_nil, reduceCtorEq, and_false]
    exact ⟨rfl, by show max (max (max (max _ _) _) _) _ ≤ max _ _; omega⟩
  · have hlast : buf.getD (ptr + 4 + init.length) 0 = last := by
      rw [hrest.getD (by simp at hinner; omega), ← hsplit, hin]
      simp
    simp only [List.concat_eq_append, List.length_append, List.length_singleton] at hinner ⊢
    rw [if_neg (by omega), examine_bind]
    have hpos : ptr + 4 + (init.length + 1) - 1 = ptr + 4 + init.length := by omega
    simp only [hpos, hlast, List.getLast?_concat, Option.some.injEq, hclose, true_and]
    refine ⟨?_, by show max (max (max (max (max _ _) _) _) _) _ ≤ max _ _; omega⟩
    simp only [examine_pure, ite_not]

/-- Unless the first parenthesis is the last character, `parse_epasv_reply` stays in the
string and takes the port between the delimiters. -/
theorem parseEpasv_run (reply : Text) (curaddr : Option InetAddr) (stale : Text) (seen : ℕ)
    (h : (cString reply).dropWhile (· ≠ 40) ≠ [40]) :
    (parseEpasv curaddr (reply ++ 0 :: stale) seen).1 =
        (epasvNumber reply).bind (epasvEndpoint curaddr) ∧
      (parseEpasv curaddr (reply ++ 0 :: stale) seen).2 ≤ max seen ((cString reply).length + 1) := by
  have hstr := cString_stringAt reply stale
  generalize reply ++ 0 :: stale = buf at hstr ⊢
  have hparen := hstr.strchr (c := 40) (by decide) seen
  unfold parseEpasv epasvNumber
  generalize cString reply = s at h hstr hparen ⊢
  have hlen := length_takeWhile_dropWhile (fun b => decide (b ≠ 40)) s
  have hptr := hstr.dropWhile fun b => decide (b ≠ 40)
  rw [Nat.zero_add] at hptr
  simp only [examine_bind, hparen, Nat.zero_add]
  generalize (s.takeWhile fun b => decide (b ≠ 40)).length = k at hlen hptr ⊢
  obtain ⟨hmem, hd⟩ | ⟨hmem, rest, hd⟩ := dropWhile_cases 40 s
  · rw [hd, List.length_nil] at hlen
    rw [if_neg hmem, hd]
    exact ⟨rfl, by show max _ _ ≤ max _ _; omega⟩
  · simp only [hd, List.length_cons] at h hlen hptr ⊢
    rw [if_pos hmem]
    match rest, h with
    | [d], _ =>
      obtain ⟨hnone, hle⟩ := closing_short (max seen (k + 1)) hptr (by simp)
      simp only [examine_bind, hnone, examine_pure, Option.bind_none, true_and]
      simp only [List.length_cons, List.length_nil] at hlen hle
      omega
    | [d, d2], _ =>
      obtain ⟨hnone, hle⟩ := closing_short (max seen (k + 1)) hptr (by simp)
      simp only [examine_bind, hnone, examine_pure, Option.bind_none, true_and]
      simp only [List.length_cons, List.length_nil] at hlen hle
      omega
    | d :: d2 :: d3 :: rest, _ =>
      obtain ⟨inner, hin⟩ : ∃ inner, (rest.takeWhile fun b => decide (b ≠ 41)) = inner := ⟨_, rfl⟩
      obtain ⟨hfst, hle⟩ := closing_long (max seen (k + 1)) hptr hin
      simp only [List.length_cons] at hlen
      simp only [examine_bind, hfst, hin]
      split_ifs with hcond
      · obtain ⟨init, rfl⟩ := List.getLast?_eq_some_iff.mp hcond.2.2.2
        have hrest : StringAt buf (k + 4) rest := hptr.move (k := 4) (by simp)
        have hsplit := List.takeWhile_append_dropWhile (l := rest) (p := fun b => decide (b ≠ 41))
        rw [hin] at hsplit
        have hinit : init.length < rest.length := by
          rw [← hsplit]
          simp
        have hnumber : rest.take init.length = init := by
          rw [← hsplit, List.append_assoc, List.take_left]
        have hpos : k + 4 + (init ++ [d]).length - 1 = k + 4 + init.length := by simp
        have hset := hrest.set hinit
        rw [hnumber] at hset
        simp only [examine_bind, hpos, hset.strend, hset.cString, examine_pure, Option.bind_some,
          List.dropLast_concat, true_and]
        omega
      · simp only [examine_pure, Option.bind_none, true_and]
        omega

lemma le_strchr (c : UInt8) (buf : Text) (i seen : ℕ) : seen ≤ (strchr c buf i seen).2 :=
  le_scanUntil _ _ _

/-- `strchr` does not pass a NUL, whatever it looks through. -/
lemma strchr_passed {c : UInt8} {buf : Text} {i seen j : ℕ}
    (h : (strchr c buf i seen).1 = some j) : i ≤ j ∧ ∀ x, i ≤ x → x < j → buf.getD x 0 ≠ 0 := by
  have hj : j = i + ((buf.drop i).takeWhile fun b => !(b = c || b = 0 : Bool)).length := by
    have hif : (if buf.getD (scanUntil (fun b => b = c || b = 0) (buf.drop i) i seen).1 0 = c then
        some (scanUntil (fun b => b = c || b = 0) (buf.drop i) i seen).1 else none) = some j := h
    split_ifs at hif
    rw [← Option.some.inj hif, scanUntil_fst]
  refine ⟨by omega, fun x hix hxj hx => ?_⟩
  obtain ⟨m, rfl⟩ := Nat.exists_eq_add_of_le hix
  have hm : m < ((buf.drop i).takeWhile fun b => !(b = c || b = 0 : Bool)).length := by omega
  have hget := List.mem_takeWhile_imp (List.getElem_mem hm)
  have hsame : ((buf.drop i).takeWhile fun b => !(b = c || b = 0 : Bool))[m] = buf.getD (i + m) 0 := by
    have hlen : m < (buf.drop i).length := hm.trans_le (List.takeWhile_sublist _).length_le
    rw [(List.takeWhile_prefix _).getElem hm, List.getElem_drop,
      List.getD_eq_getElem _ _ (by simp at hlen; omega)]
  rw [hsame, hx] at hget
  simp at hget

/-- Behind the NUL the tests may look on, but they fail. -/
lemma closing_overrun {buf : Text} {ptr : ℕ} (seen : ℕ) (h : buf.getD (ptr + 1) 0 = 0) :
    (closing buf ptr seen).1 = none ∧ ptr + 3 ≤ (closing buf ptr seen).2 := by
  unfold closing byteAt
  simp only [examine_bind, h]
  split_ifs with h2
  · exact ⟨rfl, by show _ ≤ max _ _; omega⟩
  simp only [examine_bind]
  split_ifs with h3
  · exact ⟨rfl, by show _ ≤ max (max _ _) _; omega⟩
  simp only [examine_bind]
  have hstate : ptr + 3 ≤ max (max (max seen (ptr + 1 + 1)) (ptr + 2 + 1)) (ptr + 3 + 1) := by omega
  generalize max (max (max seen (ptr + 1 + 1)) (ptr + 2 + 1)) (ptr + 3 + 1) = state at hstate ⊢
  have hgrow := le_strchr 41 buf (ptr + 4) state
  cases hfound : (strchr 41 buf (ptr + 4) state).1 with
  | none =>
    simp only [examine_pure, true_and]
    omega
  | some eptr =>
    obtain ⟨hle, hpassed⟩ := strchr_passed hfound
    by_cases h4 : eptr = ptr + 4
    · simp only [h4, ↓reduceIte, examine_pure, true_and]
      omega
    · have hlast := hpassed (eptr - 1) (by omega) (by omega)
      simp only [h4, ↓reduceIte, examine_bind, examine_pure]
      rw [if_pos hlast]
      exact ⟨rfl, by show _ ≤ max _ _; omega⟩

/-- With the first parenthesis as the last character, `ptr[2]` is behind the NUL. -/
theorem parseEpasv_overrun (reply : Text) (curaddr : Option InetAddr) (stale : Text) (seen : ℕ)
    (h : (cString reply).dropWhile (· ≠ 40) = [40]) :
    (parseEpasv curaddr (reply ++ 0 :: stale) seen).1 = none ∧
      (cString reply).length + 1 < (parseEpasv curaddr (reply ++ 0 :: stale) seen).2 := by
  have hstr := cString_stringAt reply stale
  generalize reply ++ 0 :: stale = buf at hstr ⊢
  have hparen := hstr.strchr (c := 40) (by decide) seen
  unfold parseEpasv
  generalize cString reply = s at h hstr hparen ⊢
  have hlen := length_takeWhile_dropWhile (fun b => decide (b ≠ 40)) s
  have hptr := hstr.dropWhile fun b => decide (b ≠ 40)
  have hmem : 40 ∈ s := by
    obtain ⟨-, hd⟩ | ⟨hmem, -⟩ := dropWhile_cases 40 s
    · rw [hd] at h
      cases h
    · exact hmem
  rw [h] at hlen hptr
  simp only [Nat.zero_add, List.length_singleton] at hlen hptr
  rw [examine_bind, hparen, if_pos hmem]
  simp only [Nat.zero_add]
  generalize (s.takeWhile fun b => decide (b ≠ 40)).length = k at hlen hptr ⊢
  have hdelim : buf.getD (k + 1) 0 = 0 := hptr.getD (k := 1) (by simp)
  obtain ⟨hnone, hover⟩ := closing_overrun (max seen (k + 1)) hdelim
  simp only [examine_bind, hnone, examine_pure, true_and]
  omega

/-! ### Numerals -/

lemma splitSign_append (t : Text) : (splitSign t).1 ++ (splitSign t).2 = t := by
  unfold splitSign
  split <;> rfl

lemma afterNumeral_eq (t : Text) : afterNumeral t = (frontNumeral t).map (·.2) := by
  have hsign : afterNumeral t =
      let rest := (splitSign (t.dropWhile isSpace)).2
      if rest.takeWhile (isDigit 10) = [] then none else some (rest.dropWhile (isDigit 10)) := by
    unfold afterNumeral splitSign
    generalize t.dropWhile isSpace = u
    split <;> simp only []
  rw [hsign]
  unfold frontNumeral
  simp only
  split_ifs <;> rfl

/-- A numeral without blanks and sign is the digits at the front. -/
lemma frontNumeral_plain {t rest : Text} {n : Numeral} (h : frontNumeral t = some (n, rest))
    (hlead : n.lead = []) : t.takeWhile (isDigit 10) = n.digits ∧ n.digits ≠ [] ∧
      t.dropWhile (isDigit 10) = rest := by
  unfold frontNumeral at h
  simp only at h
  split_ifs at h with hdigits
  obtain ⟨rfl, rfl⟩ := Prod.mk.inj (Option.some.inj h)
  obtain ⟨hblank, hsign⟩ := List.append_eq_nil_iff.mp hlead
  have hall : t.dropWhile isSpace = t := by
    simpa [hblank] using List.takeWhile_append_dropWhile (l := t) (p := isSpace)
  have hrest : (splitSign (t.dropWhile isSpace)).2 = t := by
    have happend := splitSign_append (t.dropWhile isSpace)
    rw [hsign, List.nil_append] at happend
    exact happend.trans hall
  rw [hrest] at hdigits ⊢
  exact ⟨rfl, hdigits, rfl⟩

lemma frontNumeral_digits {t : Text} (h : t.takeWhile (isDigit 10) ≠ []) :
    frontNumeral t = some (⟨[], t.takeWhile (isDigit 10)⟩, t.dropWhile (isDigit 10)) := by
  cases t with
  | nil => simp at h
  | cons c t =>
    have hc : isDigit 10 c = true := by
      by_contra hc
      simp [hc] at h
    obtain ⟨hspace, hminus, hplus⟩ := isDigit_not_sign hc
    have hsign : splitSign (c :: t) = ([], c :: t) := by
      unfold splitSign
      split
      · exact absurd (List.cons.inj ‹_›).1 hminus
      · exact absurd (List.cons.inj ‹_›).1 hplus
      · rfl
    unfold frontNumeral
    simp only [List.dropWhile_cons, List.takeWhile_cons, hspace, Bool.false_eq_true, ↓reduceIte,
      hsign, hc, reduceCtorEq, List.nil_append]

lemma scanDigits_takeWhile (t : Text) :
    scanDigits 10 (t.takeWhile (isDigit 10)) = scanDigits 10 t := by
  unfold scanDigits
  rw [List.takeWhile_takeWhile]
  simp

/-- Digits below `2 ^ 32` are read as the number that they are. -/
lemma scanUnsigned_plain {t rest : Text} {n : Numeral} (h : frontNumeral t = some (n, rest))
    (hlead : n.lead = []) (hsmall : n.value ≤ 255) : scanUnsigned t = some (n.value, rest) := by
  obtain ⟨hdigits, hne, -⟩ := frontNumeral_plain h hlead
  have hvalue : scanDigits 10 t = n.value := by
    rw [Numeral.value, ← hdigits, scanDigits_takeWhile]
  have hsigned : scanSigned 10 t = (false, scanDigits 10 t) := by
    cases t with
    | nil => exact absurd hdigits.symm hne
    | cons c t =>
      apply scanSigned_digit
      by_contra hc
      rw [List.takeWhile_cons, if_neg hc] at hdigits
      exact hne hdigits.symm
  have hread : strtoul (2 ^ 64 - 1) 10 t % 2 ^ 32 = n.value := by
    unfold strtoul
    simp only [hsigned, hvalue, Bool.false_eq_true, ↓reduceIte]
    rw [if_neg (by omega)]
    omega
  unfold scanUnsigned
  rw [afterNumeral_eq, h]
  show some (strtoul (2 ^ 64 - 1) 10 t % 2 ^ 32, rest) = _
  rw [hread]

lemma scanUnsigned_isSome (t : Text) : (scanUnsigned t).map (·.2) = (frontNumeral t).map (·.2) := by
  unfold scanUnsigned
  rw [afterNumeral_eq]
  cases frontNumeral t <;> rfl

/-- `sscanf` and the grammar of numerals agree on how far a text goes. -/
lemma scanUnsigneds_isSome (n : ℕ) (t : Text) :
    (scanUnsigneds n t).isSome = (numerals n t).isSome := by
  induction n generalizing t with
  | zero =>
    have hfront := scanUnsigned_isSome t
    unfold scanUnsigneds numerals
    cases hs : scanUnsigned t <;> cases hf : frontNumeral t <;> simp [hs, hf] at hfront ⊢
  | succ n ih =>
    have hfront := scanUnsigned_isSome t
    unfold scanUnsigneds numerals
    cases hf : frontNumeral t with
    | none =>
      have hs : scanUnsigned t = none := by simpa [hf] using hfront
      rw [hs]
      rfl
    | some r =>
      obtain ⟨first, rest⟩ := r
      obtain ⟨⟨v, rest'⟩, hs, hrest⟩ := Option.map_eq_some_iff.mp (hfront.trans (by rw [hf]; rfl))
      obtain rfl : rest' = rest := hrest
      rw [hs]
      match rest' with
      | [] => rfl
      | c :: rest =>
        by_cases hc : c = 44
        · subst hc
          have := ih rest
          cases hn : numerals n rest <;> cases hu : scanUnsigneds n rest <;>
            simp_all
        · simp [hc]

/-- The first of several numerals and the others. -/
lemma numerals_succ {n : ℕ} {t : Text} {ns : List Numeral} (h : numerals (n + 1) t = some ns) :
    ∃ first rest more, frontNumeral t = some (first, 44 :: rest) ∧ numerals n rest = some more ∧
      ns = first :: more := by
  unfold numerals at h
  split at h
  · next first rest hf =>
    obtain ⟨more, hmore, rfl⟩ := Option.map_eq_some_iff.mp h
    exact ⟨first, rest, more, hf, hmore, rfl⟩
  · cases h

lemma numerals_zero {t : Text} {ns : List Numeral} (h : numerals 0 t = some ns) :
    ∃ first rest, frontNumeral t = some (first, rest) ∧ ns = [first] := by
  obtain ⟨⟨first, rest⟩, hf, rfl⟩ := Option.map_eq_some_iff.mp h
  exact ⟨first, rest, hf, rfl⟩

lemma numerals_length {n : ℕ} {t : Text} {ns : List Numeral} (h : numerals n t = some ns) :
    ns.length = n + 1 := by
  induction n generalizing t ns with
  | zero =>
    obtain ⟨first, rest, -, rfl⟩ := numerals_zero h
    rfl
  | succ n ih =>
    obtain ⟨first, rest, more, -, hmore, rfl⟩ := numerals_succ h
    rw [List.length_cons, ih hmore]

/-- Numerals without white space and signs are decimal numbers. -/
lemma decimals_plain {n : ℕ} {t : Text} {ns : List Numeral} (h : numerals n t = some ns)
    (hplain : ∀ m ∈ ns, m.lead = []) : decimals n t = some (ns.map Numeral.value) := by
  induction n generalizing t ns with
  | zero =>
    obtain ⟨first, rest, hf, rfl⟩ := numerals_zero h
    obtain ⟨hdigits, hne, -⟩ := frontNumeral_plain hf (hplain first (by simp))
    unfold decimals
    rw [hdigits, if_neg hne, ← scanDigits_takeWhile, hdigits]
    rfl
  | succ n ih =>
    obtain ⟨first, rest, more, hf, hmore, rfl⟩ := numerals_succ h
    obtain ⟨hdigits, hne, hrest⟩ := frontNumeral_plain hf (hplain first (by simp))
    have hothers := ih hmore fun m hm => hplain m (List.mem_cons_of_mem first hm)
    unfold decimals
    rw [hdigits, if_neg hne, hrest, ← scanDigits_takeWhile, hdigits]
    simp only [hothers]
    rfl

/-- Decimal numbers are numerals without white space and signs. -/
lemma numerals_of_decimals {n : ℕ} {t : Text} {ds : List ℕ} (h : decimals n t = some ds) :
    ∃ ns, numerals n t = some ns ∧ (∀ m ∈ ns, m.lead = []) ∧ ds = ns.map Numeral.value := by
  induction n generalizing t ds with
  | zero =>
    unfold decimals at h
    split_ifs at h with hdigits
    refine ⟨[⟨[], t.takeWhile (isDigit 10)⟩], ?_, by simp, ?_⟩
    · unfold numerals
      rw [frontNumeral_digits hdigits]
      rfl
    · rw [← Option.some.inj h, List.map_singleton, Numeral.value, scanDigits_takeWhile]
  | succ n ih =>
    unfold decimals at h
    split_ifs at h with hdigits
    split at h
    · next rest hrest =>
      obtain ⟨more, hmore, rfl⟩ := Option.map_eq_some_iff.mp h
      obtain ⟨ns, hns, hplain, rfl⟩ := ih hmore
      refine ⟨⟨[], t.takeWhile (isDigit 10)⟩ :: ns, ?_, ?_, ?_⟩
      · unfold numerals
        rw [frontNumeral_digits hdigits, hrest]
        simp only [hns]
        rfl
      · intro m hm
        obtain rfl | hm := List.mem_cons.mp hm
        · rfl
        · exact hplain m hm
      · rw [List.map_cons, Numeral.value, scanDigits_takeWhile]
    · cases h

lemma scanUnsigneds_plain {n : ℕ} {t : Text} {ns : List Numeral} (h : numerals n t = some ns)
    (hplain : ∀ m ∈ ns, m.lead = [] ∧ m.value ≤ 255) :
    scanUnsigneds n t = some (ns.map Numeral.value) := by
  induction n generalizing t ns with
  | zero =>
    obtain ⟨first, rest, hf, rfl⟩ := numerals_zero h
    obtain ⟨hlead, hsmall⟩ := hplain first (by simp)
    unfold scanUnsigneds
    rw [scanUnsigned_plain hf hlead hsmall]
    rfl
  | succ n ih =>
    obtain ⟨first, rest, more, hf, hmore, rfl⟩ := numerals_succ h
    obtain ⟨hlead, hsmall⟩ := hplain first (by simp)
    have hothers := ih hmore fun m hm => hplain m (List.mem_cons_of_mem first hm)
    unfold scanUnsigneds
    rw [scanUnsigned_plain hf hlead hsmall]
    simp only [Option.bind_eq_bind, Option.bind_some, hothers]
    rfl

lemma scanUnsigneds_length {n : ℕ} {t : Text} {vs : List ℕ} (h : scanUnsigneds n t = some vs) :
    vs.length = n + 1 := by
  induction n generalizing t vs with
  | zero =>
    unfold scanUnsigneds at h
    obtain ⟨r, -, hr⟩ := Option.bind_eq_some_iff.mp h
    rw [← Option.some.inj hr]
    rfl
  | succ n ih =>
    unfold scanUnsigneds at h
    obtain ⟨r, -, hr⟩ := Option.bind_eq_some_iff.mp h
    split at hr
    · obtain ⟨more, hmore, hcons⟩ := Option.bind_eq_some_iff.mp hr
      rw [← Option.some.inj hcons, List.length_cons, ih hmore]
    · cases hr

lemma six_of_length {α : Type} {l : List α} (h : l.length = 6) :
    ∃ a b c d e f, l = [a, b, c, d, e, f] := by
  match l, h with
  | [a, b, c, d, e, f], _ => exact ⟨a, b, c, d, e, f, rfl⟩

/-! ### Which replies are handled as they should be -/

/-- The address and the port are taken exactly from six numerals. -/
lemma pasvEndpoint_isSome (place : Text) :
    (pasvEndpoint place).isSome = (numerals 5 place).isSome := by
  rw [← scanUnsigneds_isSome]
  unfold pasvEndpoint
  cases hs : scanUnsigneds 5 place with
  | none => rfl
  | some vs =>
    obtain ⟨a, b, c, d, e, f, rfl⟩ := six_of_length (scanUnsigneds_length hs)
    rfl

/-- Numbers below 256 are taken over as they are. -/
lemma pasvEndpoint_small {place : Text} {h1 h2 h3 h4 p1 p2 : ℕ}
    (h : scanUnsigneds 5 place = some [h1, h2, h3, h4, p1, p2])
    (hsmall : ∀ n ∈ [h1, h2, h3, h4, p1, p2], n ≤ 255) :
    pasvEndpoint place = some
      { addr := some ⟨.ipv4, [h1, h2, h3, h4].map UInt8.ofNat⟩, port := p1 * 256 + p2 } := by
  simp only [List.mem_cons, List.not_mem_nil, or_false, forall_eq_or_imp, forall_eq] at hsmall
  obtain ⟨hs1, hs2, hs3, hs4, hsp1, hsp2⟩ := hsmall
  have hor : (p1 * 256 ||| p2) = p1 * 256 + p2 := by
    have := Nat.shiftLeft_add_eq_or_of_lt (i := 8) (show p2 < 2 ^ 8 by omega) p1
    rw [Nat.shiftLeft_eq] at this
    exact this.symm
  have hport : (p1 * 256 + p2) % 2 ^ 16 = p1 * 256 + p2 := by omega
  have hbyte : ∀ n, n ≤ 255 → n % 256 = n := fun n hn => by omega
  unfold pasvEndpoint
  simp only [h, hor, hport, List.map_cons, List.map_nil, hbyte h1 hs1, hbyte h2 hs2, hbyte h3 hs3,
    hbyte h4 hs4]

/-- A reply to PASV is accepted only if it is valid, unless its numbers are out of range,
signed or set apart by blanks, or the port is zero. -/
theorem pasvRight_iff (reply stale : Text) : PasvRight reply stale ↔ PasvClean reply := by
  have hrun : (parsePasv (reply ++ 0 :: stale)).run 0 = _ := parsePasv_run reply stale 0
  unfold PasvRight
  rw [hrun]
  simp only [Nat.zero_max, le_refl, and_true]
  constructor
  · intro h h1 h2 h3 h4 p1 p2 hns
    obtain ⟨e, he⟩ := Option.isSome_iff_exists.mp
      ((pasvEndpoint_isSome (pasvPlace reply)).trans (by rw [hns]; rfl))
    obtain ⟨_, _, _, _, _, _, hdec, hsmall, hport, -⟩ := h e he
    obtain ⟨ns, hns', hplain, hvalues⟩ := numerals_of_decimals hdec
    obtain rfl := Option.some.inj (hns.symm.trans hns')
    simp only [List.map_cons, List.map_nil, List.cons.injEq, and_true] at hvalues
    obtain ⟨rfl, rfl, rfl, rfl, rfl, rfl⟩ := hvalues
    refine ⟨fun n hn => ⟨hplain n hn, hsmall n.value (List.mem_map_of_mem hn)⟩, ?_⟩
    rintro ⟨hz1, hz2⟩
    exact hport (by rw [hz1, hz2])
  · intro hclean e he
    obtain ⟨ns, hns⟩ := Option.isSome_iff_exists.mp
      ((pasvEndpoint_isSome (pasvPlace reply)).symm.trans (by rw [he]; rfl))
    obtain ⟨h1, h2, h3, h4, p1, p2, rfl⟩ := six_of_length (numerals_length hns)
    obtain ⟨hplain, hport⟩ := hclean h1 h2 h3 h4 p1 p2 hns
    have hdec := decimals_plain hns fun n hn => (hplain n hn).1
    have hsmall : ∀ v ∈ [h1, h2, h3, h4, p1, p2].map Numeral.value, v ≤ 255 := by
      intro v hv
      obtain ⟨n, hn, rfl⟩ := List.mem_map.mp hv
      exact (hplain n hn).2
    have hsmallEnd := pasvEndpoint_small (scanUnsigneds_plain hns hplain) hsmall
    refine ⟨_, _, _, _, _, _, hdec, hsmall, by omega, ?_⟩
    exact Option.some.inj (he.symm.trans hsmallEnd)

/-- A number in range between the delimiters is taken as the port. -/
lemma epasvEndpoint_digits {number : Text} (curaddr : Option InetAddr) (hne : number ≠ [])
    (hdigits : ∀ c ∈ number, isDigit 10 c = true) (hle : scanDigits 10 number ≤ 65535) :
    epasvEndpoint curaddr number = some { addr := curaddr, port := scanDigits 10 number } := by
  have hall : number.takeWhile (isDigit 10) = number := takeWhile_of_all hdigits
  have hrest : number.dropWhile (isDigit 10) = [] := by
    rw [← drop_takeWhile, hall, List.drop_length]
  have hafter : afterNumeral number = some [] := by
    rw [afterNumeral_eq, frontNumeral_digits (by rwa [hall]), hrest]
    rfl
  have hsigned : scanSigned 10 number = (false, scanDigits 10 number) := by
    cases number with
    | nil => exact absurd rfl hne
    | cons c t => exact scanSigned_digit (hdigits c (by simp))
  have hport : strtol (-2 ^ 63) (2 ^ 63 - 1) 10 number = scanDigits 10 number := by
    unfold strtol
    simp only [hsigned, Bool.false_eq_true, ↓reduceIte]
    rw [if_neg (by omega), if_neg (by omega)]
  have hmod : ((scanDigits 10 number : ℤ) % 2 ^ 16).toNat = scanDigits 10 number := by omega
  unfold epasvEndpoint
  simp only [hafter, Option.getD_some, ne_eq, not_true_eq_false, ↓reduceIte, hport, hmod]

/-- What is accepted between the delimiters is empty or one numeral. -/
lemma epasvEndpoint_isSome (curaddr : Option InetAddr) (number : Text) :
    (epasvEndpoint curaddr number).isSome ↔
      number = [] ∨ ∃ n, frontNumeral number = some (n, []) := by
  unfold epasvEndpoint
  rw [afterNumeral_eq]
  cases hf : frontNumeral number with
  | none => simp
  | some r =>
    obtain ⟨n, rest⟩ := r
    have hne : number ≠ [] := by
      intro h0
      rw [h0] at hf
      cases hf
    simp [hne]

/-- A reply to EPSV is accepted only if it is valid, and only its string is examined, unless
its parenthesis is the last character or what stands between the delimiters is empty, or a
numeral that is signed, set apart by blanks or out of range. -/
theorem epasvRight_iff (curaddr : Option InetAddr) (reply stale : Text) :
    EpasvRight curaddr reply stale ↔ EpasvClean reply := by
  have hstays := parseEpasv_run reply curaddr stale 0
  have hover := parseEpasv_overrun reply curaddr stale 0
  unfold EpasvRight EpasvClean
  by_cases hlast : (cString reply).dropWhile (· ≠ 40) = [40]
  · have hbeyond := (hover hlast).2
    constructor
    · intro h
      exact absurd h.2 (not_le.mpr hbeyond)
    · intro h
      exact absurd hlast h.1
  · obtain ⟨hfst, hsnd⟩ := hstays hlast
    have hrun : ((parseEpasv curaddr (reply ++ 0 :: stale)).run 0).1 = _ := hfst
    simp only [hrun]
    constructor
    · rintro ⟨hvalid, -⟩
      refine ⟨hlast, fun number hnumber => ?_⟩
      have haccepted : (epasvEndpoint curaddr number).isSome → number ≠ [] ∧
          (∀ c ∈ number, isDigit 10 c = true) ∧ 1 ≤ scanDigits 10 number ∧
          scanDigits 10 number ≤ 65535 := by
        intro hsome
        obtain ⟨e, he⟩ := Option.isSome_iff_exists.mp hsome
        obtain ⟨w, hw, hne, hdigits, hpos, hle, -⟩ := hvalid e (by rw [hnumber]; exact he)
        obtain rfl := Option.some.inj (hnumber.symm.trans hw)
        exact ⟨hne, hdigits, hpos, hle⟩
      constructor
      · intro hempty
        exact (haccepted ((epasvEndpoint_isSome curaddr number).mpr (Or.inl hempty))).1 hempty
      · intro n hn
        obtain ⟨hne, hdigits, hpos, hle⟩ :=
          haccepted ((epasvEndpoint_isSome curaddr number).mpr (Or.inr ⟨n, hn⟩))
        have hall : number.takeWhile (isDigit 10) = number := takeWhile_of_all hdigits
        have hfront := frontNumeral_digits (t := number) (by rwa [hall])
        obtain ⟨rfl, -⟩ := Prod.mk.inj (Option.some.inj (hn.symm.trans hfront))
        rw [Numeral.value, scanDigits_takeWhile]
        exact ⟨rfl, by omega, hle⟩
    · rintro ⟨-, hclean⟩
      refine ⟨fun e he => ?_, by rwa [Nat.zero_max] at hsnd⟩
      obtain ⟨number, hnumber, hend⟩ := Option.bind_eq_some_iff.mp he
      obtain ⟨hne, hnumeral⟩ := hclean number hnumber
      obtain hempty | ⟨n, hn⟩ := (epasvEndpoint_isSome curaddr number).mp (by rw [hend]; rfl)
      · exact absurd hempty hne
      · obtain ⟨hlead, hpos, hle⟩ := hnumeral n hn
        obtain ⟨htake, -, hdrop⟩ := frontNumeral_plain hn hlead
        have hall : number.takeWhile (isDigit 10) = number := by
          simpa [hdrop] using List.takeWhile_append_dropWhile (l := number) (p := isDigit 10)
        have hdigits : ∀ c ∈ number, isDigit 10 c = true := List.takeWhile_eq_self_iff.mp hall
        have hvalue : scanDigits 10 number = n.value := by rw [Numeral.value, ← htake, hall]
        refine ⟨number, hnumber, hne, hdigits, by omega, by omega, ?_⟩
        exact Option.some.inj
          (hend.symm.trans (epasvEndpoint_digits curaddr hne hdigits (by omega)))

/-- Only valid replies are accepted and only their bytes are examined, exactly if the reply
does not have one of the forms that the parsers take too much of. -/
theorem passive_replies_iff (curaddr : Option InetAddr) (reply stale : Text) :
    (PasvRight reply stale ↔ PasvClean reply) ∧
      (EpasvRight curaddr reply stale ↔ EpasvClean reply) :=
  ⟨pasvRight_iff reply stale, epasvRight_iff curaddr reply stale⟩

/-- A number above 255 is cut to a byte. -/
theorem pasv_number_cut :
    ¬ PasvRight (ascii "227 Entering Passive Mode (300,0,0,1,4,1)" ++ [13, 10]) [] := by
  rw [pasvRight_iff]
  intro h
  have hns : numerals 5 (pasvPlace (ascii "227 Entering Passive Mode (300,0,0,1,4,1)" ++ [13, 10])) =
      some ([ascii "300", ascii "0", ascii "0", ascii "1", ascii "4", ascii "1"].map
        (Numeral.mk [])) := by
    rw [ascii_ofList]
    decide +kernel
  have hcut := (h _ _ _ _ _ _ hns).1 ⟨[], ascii "300"⟩ (by simp)
  exact absurd hcut.2 (by decide)

/-! ### The session -/

variable {ω : Type}

/-- What a session takes over from a parser. -/
def takeOver : Option Endpoint → Ftp ω FtpCode
  | none => pure .error
  | some e => do
    updateSession fun s => { s with dtpPort := e.port, dtpAddr := e.addr }
    pure .passive

/-- The session's parser of a reply to PASV is the parser on memory. -/
theorem parsePasvReply_memory (reply stale : Text) :
    (parsePasvReply reply : Ftp ω FtpCode) =
      takeOver ((parsePasv (reply ++ 0 :: stale)).run 0).1 := by
  have hrun : (parsePasv (reply ++ 0 :: stale)).run 0 = _ := parsePasv_run reply stale 0
  rw [hrun]
  unfold parsePasvReply pasvPlace
  show _ = takeOver (pasvEndpoint (((cString reply).dropWhile _).dropWhile _))
  cases hd : (cString reply).dropWhile (· ≠ 32) with
  | nil => rfl
  | cons b start =>
    show (match scanUnsigneds 5 ((b :: start).dropWhile _) with
      | some [_, _, _, _, _, _] => _
      | _ => _) = _
    unfold pasvEndpoint
    cases hs : scanUnsigneds 5 ((b :: start).dropWhile fun b => !isDigit 10 b) with
    | none => rfl
    | some vs =>
      obtain ⟨_, _, _, _, _, _, rfl⟩ := six_of_length (scanUnsigneds_length hs)
      rfl

lemma length_takeWhile_eq {c : UInt8} {t : Text} :
    (t.takeWhile fun b => decide (b ≠ c)).length = t.length ↔ c ∉ t := by
  have hlen := length_takeWhile_dropWhile (fun b => decide (b ≠ c)) t
  obtain ⟨hmem, hd⟩ | ⟨hmem, rest, hd⟩ := dropWhile_cases c t
  · simp only [takeWhile_absent hmem, hmem, not_false_eq_true]
  · rw [hd, List.length_cons] at hlen
    simp only [hmem, not_true_eq_false, iff_false]
    omega

/-- The session's parser of a reply to EPSV is the parser on memory. -/
theorem parseEpasvReply_memory (reply stale : Text) (c : Client ω) :
    (parseEpasvReply reply).run c =
      (takeOver ((parseEpasv c.sess.piCuraddr (reply ++ 0 :: stale)).run 0).1).run c := by
  have hfst : ((parseEpasv c.sess.piCuraddr (reply ++ 0 :: stale)).run 0).1 =
      (epasvNumber reply).bind (epasvEndpoint c.sess.piCuraddr) := by
    by_cases hlast : (cString reply).dropWhile (· ≠ 40) = [40]
    · have hnone : epasvNumber reply = none := by
        unfold epasvNumber
        rw [hlast]
      rw [hnone]
      exact (parseEpasv_overrun reply c.sess.piCuraddr stale 0 hlast).1
    · exact (parseEpasv_run reply c.sess.piCuraddr stale 0 hlast).1
  rw [hfst]
  unfold parseEpasvReply epasvNumber
  generalize (cString reply).dropWhile (· ≠ 40) = ptr
  match ptr with
  | [] | [_] | [_, _] | [_, _, _] =>
    rw [if_pos (by simp)]
    rfl
  | p :: d :: d2 :: d3 :: rest =>
    simp only [List.getD_cons_succ, List.getD_cons_zero, List.drop_succ_cons, List.drop_zero,
      length_takeWhile_eq]
    generalize hin : (rest.takeWhile fun b => decide (b ≠ 41)) = inner
    by_cases hcond : d2 = d ∧ d3 = d ∧ 41 ∈ rest ∧ inner.getLast? = some d
    · obtain ⟨rfl, rfl, hmem, hlast⟩ := hcond
      have hne : inner ≠ [] := by
        rintro rfl
        cases hlast
      have hfound : (if d3 = d3 ∧ d3 = d3 ∧ 41 ∈ rest ∧ inner.getLast? = some d3 then
          some inner.dropLast else none) = some inner.dropLast := if_pos ⟨rfl, rfl, hmem, hlast⟩
      rw [hfound, if_neg (by simp [hmem, hlast, hne]), Option.bind_some]
      unfold epasvEndpoint
      split_ifs <;> rfl
    · rw [if_pos (by tauto), if_neg hcond]
      rfl

end Sitecopy.PassiveReplies
