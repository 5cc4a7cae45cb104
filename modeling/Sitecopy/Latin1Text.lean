import Sitecopy.Xml

/-!
# Character data in ISO-8859-1

A parser reports every document as UTF-8 and with normalised line ends, and it rejects a
document with control characters or a `]]>` in its character data. Both concern runs of
character data, which may come from several tokens.
-/
namespace Sitecopy.Xml

def ISO_8859_1 : Bytes := [73, 83, 79, 45, 56, 56, 53, 57, 45, 49]

/-- The character with this code in UTF-8. -/
def latin1 (c : UInt8) : Bytes := if c < 128 then [c] else [192 + c / 64, 128 + c % 64]

/-- The characters that a document may hold. -/
def isChar (c : UInt8) : Bool := c = 9 || c = 10 || c = 13 || 32 ≤ c

/-- What a byte of character data is reported as, given whether a carriage return precedes it. -/
def decodeByte (cr : Bool) (c : UInt8) : Bytes :=
  if c = 13 then [10] else if c = 10 && cr then [] else latin1 c

/-- What a run of character data is reported as. -/
def decodeAfter : Bool → Bytes → Bytes
  | _, [] => []
  | cr, c :: t => decodeByte cr c ++ decodeAfter (c = 13) t

def decode (t : Bytes) : Bytes := decodeAfter false t

/-- Whether a byte is allowed after `k` closing brackets. -/
def legalByte (k : ℕ) (c : UInt8) : Bool := isChar c && !(c = 62 && 2 ≤ k)

/-- The closing brackets after the byte. -/
def brackets (k : ℕ) (c : UInt8) : ℕ := if c = 93 then k + 1 else 0

def legalAfter : ℕ → Bytes → Bool
  | _, [] => true
  | k, c :: t => legalByte k c && legalAfter (brackets k c) t

/-- The run may stand in a document: it has no control characters and no `]]>`. -/
def legalText (t : Bytes) : Bool := legalAfter 0 t

/-- `decodeAfter` on the runs of a sequence of events. -/
def decodeEvents : Bool → List Event → List Event
  | _, [] => []
  | cr, .charData [c] :: es =>
    (decodeByte cr c).map (fun b => .charData [b]) ++ decodeEvents (c = 13) es
  | _, e :: es => e :: decodeEvents false es

/-- `legalAfter` on the runs of a sequence of events. -/
def legalEvents : ℕ → List Event → Bool
  | _, [] => true
  | k, .charData [c] :: es => legalByte k c && legalEvents (brackets k c) es
  | _, _ :: es => legalEvents 0 es

/-- A parser of documents in ISO-8859-1 whose character data need not be plain. -/
structure Latin1Parser extends Parser where
  legal : ∀ d : Document, d.Raw → d.encoding = ISO_8859_1 →
    (parse d.render).2 = legalEvents 0 (bytewise d.events)
  decodes : ∀ d : Document, d.Raw → d.encoding = ISO_8859_1 → (parse d.render).2 = true →
    bytewise (parse d.render).1 = decodeEvents false (bytewise d.events)

/-! ### Token lists -/

/-- The tokens of a list are reported as those of another one, and they are legal if `ok`
says so, whatever surrounds them. -/
structure Reported (ts ts' : List Token) (ok : Bool) : Prop where
  raw : ts.all Token.raw = true
  decodes : ∀ es, decodeEvents false (bytewise (ts.flatMap Token.events) ++ es) =
    bytewise (ts'.flatMap Token.events) ++ decodeEvents false es
  legal : ∀ k, ∃ k', ∀ es, legalEvents k (bytewise (ts.flatMap Token.events) ++ es) =
    (ok && legalEvents k' es)

lemma Reported.nil : Reported [] [] true := ⟨rfl, fun _ => rfl, fun k => ⟨k, fun _ => rfl⟩⟩

lemma Reported.append {ts us ts' us' : List Token} {ok ok' : Bool} (h : Reported ts ts' ok)
    (h' : Reported us us' ok') : Reported (ts ++ us) (ts' ++ us') (ok && ok') where
  raw := by rw [List.all_append, h.raw, h'.raw, Bool.and_self]
  decodes es := by
    simp only [List.flatMap_append, bytewise_append, List.append_assoc]
    rw [h.decodes, h'.decodes]
  legal k := by
    obtain ⟨k₁, h₁⟩ := h.legal k
    obtain ⟨k₂, h₂⟩ := h'.legal k₁
    refine ⟨k₂, fun es => ?_⟩
    simp only [List.flatMap_append, bytewise_append, List.append_assoc]
    rw [h₁, h₂, Bool.and_assoc]

/-- The events of character data, byte by byte. -/
lemma bytewise_text (t : Bytes) :
    bytewise ([Token.text t].flatMap Token.events) = t.map fun c => .charData [c] := by
  simp [Token.events, bytewise, Event.bytewise]

lemma decodeEvents_run (cr : Bool) (t : Bytes) {es : List Event}
    (hes : ∀ cr, decodeEvents cr es = decodeEvents false es) :
    decodeEvents cr ((t.map fun c => .charData [c]) ++ es) =
      ((decodeAfter cr t).map fun c => .charData [c]) ++ decodeEvents false es := by
  induction t generalizing cr with
  | nil => exact hes cr
  | cons c t ih =>
    rw [List.map_cons, List.cons_append, decodeEvents, ih, decodeAfter, List.map_append,
      List.append_assoc]

lemma legalEvents_run (k : ℕ) (t : Bytes) {es : List Event}
    (hes : ∀ k, legalEvents k es = legalEvents 0 es) :
    legalEvents k ((t.map fun c => .charData [c]) ++ es) =
      (legalAfter k t && legalEvents 0 es) := by
  induction t generalizing k with
  | nil => exact (hes k).trans (Bool.true_and _).symm
  | cons c t ih =>
    rw [List.map_cons, List.cons_append, legalEvents, ih, legalAfter, Bool.and_assoc]

/-- An element around character data, which is a run of its own. -/
lemma Reported.leaf {name : Bytes} (hname : isName name = true) {t : Bytes}
    (ht : t.all isRawByte = true) :
    Reported [.start name [], .text t, .stop name] [.start name [], .text (decode t), .stop name]
      (legalText t) where
  raw := by simp [Token.raw, Token.plain, hname, ht]
  decodes es := by
    have hrun := @decodeEvents_run false t (.endElement name :: es) fun _ => rfl
    simp only [List.flatMap_cons, List.flatMap_nil, Token.events, bytewise, Event.bytewise,
      List.cons_append, List.append_assoc, List.nil_append, decodeEvents, List.append_nil] at hrun ⊢
    rw [hrun]
    rfl
  legal k := by
    refine ⟨0, fun es => ?_⟩
    have hrun := @legalEvents_run 0 t (.endElement name :: es) fun _ => rfl
    simp only [List.flatMap_cons, List.flatMap_nil, Token.events, bytewise, Event.bytewise,
      List.cons_append, List.append_assoc, List.nil_append, legalEvents, List.append_nil] at hrun ⊢
    exact hrun

lemma decodeByte_low {c : UInt8} (hlow : c < 128) (hreturn : c ≠ 13) :
    decodeByte false c = [c] := by
  simp [decodeByte, latin1, hreturn, hlow]

lemma isTextByte_cases {c : UInt8} (h : isTextByte c = true) :
    (c = 9 ∨ c = 10 ∨ 32 ≤ c ∧ c ≤ 126) ∧ c ≠ 62 := by
  simp only [isTextByte, Bool.and_eq_true, Bool.or_eq_true, decide_eq_true_eq] at h
  exact ⟨or_assoc.mp h.1.1.1, h.2⟩

lemma decodeByte_plain (c : UInt8) (h : isTextByte c = true) :
    decodeByte false c = [c] ∧ c ≠ 13 := by
  rcases (isTextByte_cases h).1 with rfl | rfl | ⟨hlow, hhigh⟩
  · decide
  · decide
  · have hreturn : c ≠ 13 := by
      rintro rfl
      exact absurd hlow (by decide)
    exact ⟨decodeByte_low (UInt8.lt_of_le_of_lt hhigh (by decide)) hreturn, hreturn⟩

lemma legalByte_plain (c : UInt8) (h : isTextByte c = true) : isChar c = true ∧ c ≠ 62 := by
  obtain ⟨hcases, hbracket⟩ := isTextByte_cases h
  refine ⟨?_, hbracket⟩
  rcases hcases with rfl | rfl | ⟨hlow, -⟩
  · rfl
  · rfl
  · simp [isChar, hlow]

lemma Reported.plainText {t : Bytes} (ht : t.all isTextByte = true) :
    Reported [.text t] [.text t] true where
  raw := by
    rw [List.all_cons, Token.raw_of_plain (by exact ht)]
    rfl
  decodes es := by
    simp only [bytewise_text]
    induction t with
    | nil => rfl
    | cons c t ih =>
      rw [List.all_cons, Bool.and_eq_true] at ht
      obtain ⟨hbyte, hcr⟩ := decodeByte_plain c ht.1
      rw [List.map_cons, List.cons_append, decodeEvents, hbyte, decide_eq_false hcr, ih ht.2]
      rfl
  legal k := by
    simp only [bytewise_text]
    induction t generalizing k with
    | nil => exact ⟨k, fun _ => rfl⟩
    | cons c t ih =>
      rw [List.all_cons, Bool.and_eq_true] at ht
      obtain ⟨hchar, hgt⟩ := legalByte_plain c ht.1
      obtain ⟨k', h'⟩ := ih ht.2 (brackets k c)
      refine ⟨k', fun es => ?_⟩
      rw [List.map_cons, List.cons_append, legalEvents, h']
      simp [legalByte, hchar, hgt]

/-- Plain tokens are reported as they are. -/
lemma Reported.plain {ts : List Token} (h : ts.all Token.plain = true) : Reported ts ts true := by
  induction ts with
  | nil => exact .nil
  | cons t ts ih =>
    rw [List.all_cons, Bool.and_eq_true] at h
    have hraw : [t].all Token.raw = true := by
      rw [List.all_cons, Token.raw_of_plain h.1]
      rfl
    have hone : Reported [t] [t] true := by
      cases t with
      | text t => exact .plainText h.1
      | start name attrs | stop name | empty name attrs =>
        exact ⟨hraw, fun _ => rfl, fun _ => ⟨0, fun _ => rfl⟩⟩
    exact hone.append (ih h.2)

lemma Reported.events {d d' : Document} {ok : Bool} (h : Reported d.tokens d'.tokens ok) :
    decodeEvents false (bytewise d.events) = bytewise d'.events ∧
      legalEvents 0 (bytewise d.events) = ok := by
  obtain ⟨k, hlegal⟩ := h.legal 0
  have hdecodes := h.decodes []
  have hok := hlegal []
  rw [List.append_nil] at hdecodes hok
  constructor
  · exact hdecodes.trans (List.append_nil _)
  · exact hok.trans (Bool.and_true _)

/-! ### A scanner of Latin-1 documents -/

lemma scanDocument_raw {d : Document} (h : d.Raw) :
    scanDocument d.render = (bytewise d.events, true) := by
  unfold scanDocument
  rw [scan_document h]
  simp

lemma bytewise_decodeEvents (cr : Bool) (es : List Event) :
    bytewise (decodeEvents cr (bytewise es)) = decodeEvents cr (bytewise es) := by
  have hself : ∀ es : List Event, (∀ e ∈ es, e.bytewise = [e]) → bytewise es = es := by
    intro es h
    induction es with
    | nil => rfl
    | cons e es ih =>
      have hcons : bytewise (e :: es) = e.bytewise ++ bytewise es := rfl
      rw [hcons, h e List.mem_cons_self, ih fun e' he' => h e' (List.mem_cons_of_mem e he')]
      rfl
  apply hself
  have hbytes : ∀ e ∈ bytewise es, e.bytewise = [e] := by
    intro e he
    obtain ⟨e', _, he⟩ := List.mem_flatMap.mp he
    cases e' with
    | startElement name attrs | endElement name =>
      rw [List.mem_singleton.mp he]
      rfl
    | charData t =>
      obtain ⟨c, _, rfl⟩ := List.mem_map.mp he
      rfl
  generalize bytewise es = l at hbytes
  induction l generalizing cr with
  | nil => simp [decodeEvents]
  | cons e l ih =>
    have hl := fun cr => ih cr fun e' he' => hbytes e' (List.mem_cons_of_mem e he')
    intro e' he'
    unfold decodeEvents at he'
    split at he'
    · cases he'
    · next heq =>
      rcases List.mem_append.mp he' with he' | he'
      · obtain ⟨c, _, rfl⟩ := List.mem_map.mp he'
        rfl
      · exact hl _ e' ((List.cons.inj heq).2 ▸ he')
    · next heq =>
      rcases List.mem_cons.mp he' with rfl | he'
      · exact hbytes _ ((List.cons.inj heq).1 ▸ List.mem_cons_self)
      · exact hl _ e' ((List.cons.inj heq).2 ▸ he')

/-- The scanner, with what it reports decoded. -/
def latin1Scanner : Latin1Parser where
  parse t := (decodeEvents false (scanDocument t).1,
    (scanDocument t).2 && legalEvents 0 (scanDocument t).1)
  accepts d h := by
    rw [scanDocument_raw h.raw, (Reported.events (.plain h.plain)).2]
    rfl
  delivers d h := by
    rw [scanDocument_raw h.raw, bytewise_decodeEvents]
    exact (Reported.events (.plain h.plain)).1
  legal d h _ := by
    rw [scanDocument_raw h]
    exact Bool.true_and _
  decodes d h _ _ := by
    rw [scanDocument_raw h]
    exact bytewise_decodeEvents false d.events

/-! ### What is reported as it is -/

/-- A byte that is part of a character of two bytes in UTF-8. -/
def isHigh (c : UInt8) : Bool := 128 ≤ c

/-- Above the ASCII range a character has two bytes, both of them above it as well. -/
lemma latin1_high {c : UInt8} (h : ¬c < 128) : ∀ b ∈ latin1 c, isHigh b = true := by
  have hc : c.toNat < 256 := UInt8.toNat_lt_size c
  rw [latin1, if_neg h, List.forall_mem_cons, List.forall_mem_singleton]
  simp only [isHigh, decide_eq_true_eq, UInt8.le_iff_toNat_le, UInt8.toNat_add, UInt8.toNat_div,
    UInt8.toNat_mod, UInt8.reduceToNat]
  omega

lemma countP_decodeByte (cr : Bool) (c : UInt8) :
    (decodeByte cr c).countP isHigh = 2 * [c].countP isHigh := by
  unfold decodeByte
  split_ifs with hreturn hnewline
  · rw [hreturn]
    rfl
  · rw [Bool.and_eq_true, decide_eq_true_eq] at hnewline
    rw [hnewline.1]
    rfl
  · by_cases hlow : c < 128
    · have hbyte : isHigh c = false := by simpa [isHigh] using hlow
      simp [latin1, hlow, hbyte]
    · have hbyte : isHigh c = true := by simpa [isHigh] using hlow
      rw [List.countP_eq_length.mpr (latin1_high hlow), latin1, if_neg hlow]
      simp [hbyte]

/-- Every byte above the ASCII range becomes two of them. -/
lemma countP_decode (cr : Bool) (t : Bytes) :
    (decodeAfter cr t).countP isHigh = 2 * t.countP isHigh := by
  induction t generalizing cr with
  | nil => rfl
  | cons c t ih =>
    rw [decodeAfter, List.countP_append, ih, countP_decodeByte, ← mul_add, ← List.countP_append,
      List.singleton_append]

lemma decodeByte_ne_return (cr : Bool) (c : UInt8) : 13 ∉ decodeByte cr c := by
  unfold decodeByte
  split_ifs with hreturn hnewline
  · decide
  · exact List.not_mem_nil
  · by_cases hlow : c < 128
    · simpa [latin1, hlow] using Ne.symm hreturn
    · exact fun hmem => absurd (latin1_high hlow 13 hmem) (by decide)

/-- No carriage return is left. -/
lemma return_notMem_decode (cr : Bool) (t : Bytes) : 13 ∉ decodeAfter cr t := by
  induction t generalizing cr with
  | nil => exact List.not_mem_nil
  | cons c t ih =>
    intro h
    rcases List.mem_append.mp h with h | h
    · exact decodeByte_ne_return cr c h
    · exact ih _ h

lemma decode_ascii {t : Bytes} (h : ∀ c ∈ t, isHigh c = false ∧ c ≠ 13) : decode t = t := by
  unfold decode
  induction t with
  | nil => rfl
  | cons c t ih =>
    obtain ⟨hhigh, hreturn⟩ := h c List.mem_cons_self
    have hlow : c < 128 := by simpa [isHigh] using hhigh
    rw [decodeAfter, decodeByte_low hlow hreturn, decide_eq_false hreturn,
      ih fun d hd => h d (List.mem_cons_of_mem c hd)]
    rfl

/-- `]]>`, which ends a CDATA section. -/
def sectionEnd : Bytes := [93, 93, 62]

lemma sectionEnd_infix_iff (k : ℕ) {c : UInt8} (hc : c ≠ 93) (t : Bytes) :
    sectionEnd <:+: List.replicate k 93 ++ c :: t ↔ c = 62 ∧ 2 ≤ k ∨ sectionEnd <:+: t := by
  have hstarts : ∀ k, sectionEnd <+: List.replicate k 93 ++ c :: t ↔ c = 62 ∧ k = 2 := by
    intro k
    match k with
    | 0 => simp [sectionEnd, hc.symm]
    | 1 => simp [sectionEnd, hc.symm]
    | 2 => simp [sectionEnd, List.replicate, eq_comm]
    | k + 3 => simp [sectionEnd, List.replicate]
  induction k with
  | zero =>
    rw [List.replicate_zero, List.nil_append, List.infix_cons_iff]
    have h := hstarts 0
    rw [List.replicate_zero, List.nil_append] at h
    rw [h]
    simp
  | succ k ih =>
    have h := hstarts (k + 1)
    rw [List.replicate_succ, List.cons_append] at h ⊢
    rw [List.infix_cons_iff, h]
    apply (or_congr_right ih).trans
    rw [← or_assoc, ← and_or_left]
    have hcount : k + 1 = 2 ∨ 2 ≤ k ↔ 2 ≤ k + 1 := by omega
    rw [hcount]

/-- The brackets that the automaton counts stand before the run. -/
lemma legalAfter_iff (k : ℕ) (t : Bytes) :
    legalAfter k t = true ↔
      t.all isChar = true ∧ ¬ sectionEnd <:+: List.replicate k 93 ++ t := by
  induction t generalizing k with
  | nil =>
    have hnone : ¬ sectionEnd <:+: List.replicate k 93 ++ [] := by
      intro h
      have hmem : (62 : UInt8) ∈ List.replicate k 93 ++ [] := h.subset (by simp [sectionEnd])
      simp at hmem
    rw [List.append_nil] at hnone
    simp [legalAfter, hnone]
  | cons c t ih =>
    rw [legalAfter, Bool.and_eq_true, ih, List.all_cons, Bool.and_eq_true, legalByte,
      Bool.and_eq_true, brackets]
    by_cases hc : c = 93
    · subst hc
      have hshift : List.replicate (k + 1) (93 : UInt8) ++ t = List.replicate k 93 ++ 93 :: t := by
        rw [List.replicate_succ', List.append_assoc, List.singleton_append]
      rw [if_pos rfl, hshift]
      simp [and_assoc]
    · rw [if_neg hc, sectionEnd_infix_iff k hc, List.replicate_zero, List.nil_append]
      simp only [Bool.not_eq_true', Bool.and_eq_false_iff, decide_eq_false_iff_not, not_or,
        not_and_or]
      tauto

/-- A run is legal if it holds characters only, and no end of a CDATA section. -/
lemma legalText_iff (t : Bytes) :
    legalText t = true ↔ t.all isChar = true ∧ ¬ sectionEnd <:+: t := by
  rw [legalText, legalAfter_iff, List.replicate_zero, List.nil_append]

end Sitecopy.Xml
