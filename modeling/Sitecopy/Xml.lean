import Mathlib

/-!
# Events of well-formed documents

A document is a list of tokens. A parser reports a document as a sequence of events; it
may cut character data into pieces as it likes, so event sequences are compared byte by
byte. `Parser` is what an application relies on, and `scanner` is one such parser.
-/
namespace Sitecopy.Xml

abbrev Bytes := List UInt8

/-- The attributes of a tag, in order. -/
abbrev Attributes := List (Bytes × Bytes)

inductive Token
  | start (name : Bytes) (attrs : Attributes)
  | stop (name : Bytes)
  | empty (name : Bytes) (attrs : Attributes)
  | text (t : Bytes)
  deriving DecidableEq, Repr

inductive Event
  | startElement (name : Bytes) (attrs : Attributes)
  | endElement (name : Bytes)
  | charData (t : Bytes)
  deriving DecidableEq, Repr

/-! ### Documents -/

/-- ` name='value'` -/
def renderAttribute (a : Bytes × Bytes) : Bytes := 32 :: a.1 ++ 61 :: 39 :: a.2 ++ [39]

def Token.render : Token → Bytes
  | .start name attrs => 60 :: name ++ attrs.flatMap renderAttribute ++ [62]
  | .stop name => 60 :: 47 :: name ++ [62]
  | .empty name attrs => 60 :: name ++ attrs.flatMap renderAttribute ++ [47, 62]
  | .text t => t

def Token.events : Token → List Event
  | .start name attrs => [.startElement name attrs]
  | .stop name => [.endElement name]
  | .empty name attrs => [.startElement name attrs, .endElement name]
  | .text t => [.charData t]

/-- The letters, digits and marks of a name without a prefix. -/
def isNameByte (c : UInt8) : Bool :=
  (97 ≤ c && c ≤ 122) || (65 ≤ c && c ≤ 90) || (48 ≤ c && c ≤ 57) || c = 45 || c = 95 || c = 46

def isName (name : Bytes) : Bool :=
  match name with
  | [] => false
  | c :: _ => ((97 ≤ c && c ≤ 122) || (65 ≤ c && c ≤ 90)) && name.all isNameByte

/-- Printable characters that stand for themselves in an attribute value. -/
def isValueByte (c : UInt8) : Bool := 32 ≤ c && c ≤ 126 && c ≠ 39 && c ≠ 60 && c ≠ 38

/-- Printable characters and blanks that stand for themselves in character data. -/
def isTextByte (c : UInt8) : Bool :=
  (c = 9 || c = 10 || (32 ≤ c && c ≤ 126)) && c ≠ 60 && c ≠ 38 && c ≠ 62

def Token.plain : Token → Bool
  | .start name attrs | .empty name attrs =>
    isName name && attrs.all fun a => isName a.1 && a.2.all isValueByte
  | .stop name => isName name
  | .text t => t.all isTextByte

/-- The tokens close the open elements in order, the last of them at their end. -/
def balanced : List Bytes → List Token → Bool
  | [], [] => true
  | [], _ :: _ => false
  | _ :: _, [] => false
  | n :: opened, .start m _ :: rest => balanced (m :: n :: opened) rest
  | n :: opened, .stop m :: rest => m = n && balanced opened rest
  | n :: opened, .empty _ _ :: rest => balanced (n :: opened) rest
  | n :: opened, .text _ :: rest => balanced (n :: opened) rest

/-- Tokens that close whatever they open. -/
def Closed (ts : List Token) : Prop :=
  ∀ n opened rest, balanced (n :: opened) (ts ++ rest) = balanced (n :: opened) rest

lemma closed_nil : Closed [] := fun _ _ _ => rfl

lemma Closed.append {ts us : List Token} (ht : Closed ts) (hu : Closed us) : Closed (ts ++ us) := by
  intro n opened rest
  rw [List.append_assoc, ht, hu]

lemma closed_text (t : Bytes) : Closed [.text t] := fun _ _ _ => rfl

lemma closed_empty (name : Bytes) (attrs : Attributes) : Closed [.empty name attrs] :=
  fun _ _ _ => rfl

/-- An element whose content closes what it opens. -/
lemma Closed.element {ts : List Token} (h : Closed ts) (name : Bytes) (attrs : Attributes) :
    Closed (.start name attrs :: ts ++ [.stop name]) := by
  intro n opened rest
  rw [List.cons_append, List.cons_append, List.append_assoc]
  simp only [balanced]
  rw [h]
  simp [balanced]

lemma Closed.flatten {ls : List (List Token)} (h : ∀ ts ∈ ls, Closed ts) : Closed ls.flatten := by
  induction ls with
  | nil => exact closed_nil
  | cons ts ls ih =>
    rw [List.flatten_cons]
    exact (h ts (by simp)).append (ih fun us hu => h us (List.mem_cons_of_mem ts hu))

structure Document where
  encoding : Bytes
  rootName : Bytes
  rootAttrs : Attributes
  /-- everything after the start tag of the root -/
  body : List Token
  deriving DecidableEq, Repr

/-- The XML declaration. -/
def declaration (encoding : Bytes) : Bytes :=
  [60, 63, 120, 109, 108, 32, 118, 101, 114, 115, 105, 111, 110, 61, 34, 49, 46, 48, 34, 32,
    101, 110, 99, 111, 100, 105, 110, 103, 61, 34] ++ encoding ++ [34, 63, 62, 10]

def Document.tokens (d : Document) : List Token := .start d.rootName d.rootAttrs :: d.body

def Document.render (d : Document) : Bytes :=
  declaration d.encoding ++ d.tokens.flatMap Token.render ++ [10]

def Document.events (d : Document) : List Event := d.tokens.flatMap Token.events

structure Document.WellFormed (d : Document) : Prop where
  encoding : d.encoding.all isNameByte = true
  plain : d.tokens.all Token.plain = true
  balanced : balanced [d.rootName] d.body = true

/-- Anything that begins neither markup nor a reference. -/
def isRawByte (c : UInt8) : Bool := c ≠ 60 && c ≠ 38

/-- Markup as in a plain token, around any bytes that are not markup themselves. -/
def Token.raw : Token → Bool
  | .text t => t.all isRawByte
  | t => t.plain

structure Document.Raw (d : Document) : Prop where
  encoding : d.encoding.all isNameByte = true
  raw : d.tokens.all Token.raw = true
  balanced : balanced [d.rootName] d.body = true

lemma Token.raw_of_plain {t : Token} (h : t.plain = true) : t.raw = true := by
  cases t with
  | start name attrs | empty name attrs | stop name => exact h
  | text t =>
    refine List.all_eq_true.mpr fun c hc => ?_
    have hc' := List.all_eq_true.mp h c hc
    simp only [isTextByte, Bool.and_eq_true] at hc'
    simp only [isRawByte, hc', Bool.and_self]

lemma Document.WellFormed.raw {d : Document} (h : d.WellFormed) : d.Raw where
  encoding := h.encoding
  raw := List.all_eq_true.mpr fun t ht => Token.raw_of_plain (List.all_eq_true.mp h.plain t ht)
  balanced := h.balanced

/-! ### Events up to the cutting of character data -/

def Event.bytewise : Event → List Event
  | .charData t => t.map fun c => .charData [c]
  | e => [e]

def bytewise (es : List Event) : List Event := es.flatMap Event.bytewise

@[simp] lemma bytewise_nil : bytewise [] = [] := rfl

@[simp] lemma bytewise_append (es es' : List Event) :
    bytewise (es ++ es') = bytewise es ++ bytewise es' := List.flatMap_append

/-- A consumer that only appends character data cannot tell how it was cut. -/
theorem foldl_bytewise {σ : Type} {step : σ → Event → σ}
    (hnil : ∀ s, step s (.charData []) = s)
    (happend : ∀ s t u, step (step s (.charData t)) (.charData u) = step s (.charData (t ++ u)))
    (es : List Event) (s : σ) : (bytewise es).foldl step s = es.foldl step s := by
  have hchars : ∀ (t : Bytes) (s : σ),
      (t.map fun c => Event.charData [c]).foldl step s = step s (.charData t) := by
    intro t
    induction t with
    | nil => exact fun s => (hnil s).symm
    | cons c t ih =>
      intro s
      rw [List.map_cons, List.foldl_cons, ih, happend]
      rfl
  induction es generalizing s with
  | nil => rfl
  | cons e es ih =>
    have hcons : bytewise (e :: es) = e.bytewise ++ bytewise es := rfl
    rw [hcons, List.foldl_append, List.foldl_cons, ih]
    congr 1
    cases e with
    | charData t => exact hchars t s
    | startElement name attrs | endElement name => rfl

/-- A parser: the events it reports and whether it accepts the document. -/
structure Parser where
  parse : Bytes → List Event × Bool
  accepts : ∀ d : Document, d.WellFormed → (parse d.render).2 = true
  delivers : ∀ d : Document, d.WellFormed → bytewise (parse d.render).1 = bytewise d.events

/-! ### A scanner -/

/-- Where the scanner stands. -/
inductive Mode
  | content
  | opened
  | declaration
  | startName (name : Bytes)
  | stopName (name : Bytes)
  | tag (name : Bytes) (attrs : Attributes)
  | attrName (name : Bytes) (attrs : Attributes) (a : Bytes)
  | attrQuote (name : Bytes) (attrs : Attributes) (a : Bytes)
  | attrValue (name : Bytes) (attrs : Attributes) (a v : Bytes)
  | closeEmpty (name : Bytes) (attrs : Attributes)
  | failed
  deriving DecidableEq, Repr

/-- The number of open elements, and the mode. -/
structure Scan where
  depth : ℕ
  mode : Mode
  deriving DecidableEq, Repr

/-- The end of a start tag: after its name or an attribute. -/
def scanTag (d : ℕ) (name : Bytes) (attrs : Attributes) (c : UInt8) : List Event × Scan :=
  if c = 62 then ([.startElement name attrs], ⟨d + 1, .content⟩)
  else if c = 47 then ([], ⟨d, .closeEmpty name attrs⟩)
  else if c = 32 then ([], ⟨d, .attrName name attrs []⟩)
  else ([], ⟨d, .failed⟩)

def scanByte (s : Scan) (c : UInt8) : List Event × Scan :=
  match s.mode with
  | .content =>
    if c = 60 then ([], { s with mode := .opened })
    else if s.depth = 0 then ([], s)
    else ([.charData [c]], s)
  | .opened =>
    if c = 47 then ([], { s with mode := .stopName [] })
    else if c = 63 then ([], { s with mode := .declaration })
    else ([], { s with mode := .startName [c] })
  | .declaration => ([], if c = 62 then { s with mode := .content } else s)
  | .startName name =>
    if isNameByte c then ([], { s with mode := .startName (name ++ [c]) })
    else scanTag s.depth name [] c
  | .stopName name =>
    if isNameByte c then ([], { s with mode := .stopName (name ++ [c]) })
    else if c = 62 then ([.endElement name], ⟨s.depth - 1, .content⟩)
    else ([], { s with mode := .failed })
  | .tag name attrs => scanTag s.depth name attrs c
  | .attrName name attrs a =>
    if isNameByte c then ([], { s with mode := .attrName name attrs (a ++ [c]) })
    else if c = 61 then ([], { s with mode := .attrQuote name attrs a })
    else ([], { s with mode := .failed })
  | .attrQuote name attrs a =>
    ([], { s with mode := if c = 39 then .attrValue name attrs a [] else .failed })
  | .attrValue name attrs a v =>
    if c = 39 then ([], { s with mode := .tag name (attrs ++ [(a, v)]) })
    else ([], { s with mode := .attrValue name attrs a (v ++ [c]) })
  | .closeEmpty name attrs =>
    if c = 62 then ([.startElement name attrs, .endElement name], { s with mode := .content })
    else ([], { s with mode := .failed })
  | .failed => ([], s)

def scan (s : Scan) : Bytes → List Event × Scan
  | [] => ([], s)
  | c :: rest =>
    let r := scanByte s c
    let r' := scan r.2 rest
    (r.1 ++ r'.1, r'.2)

lemma scan_append (s : Scan) (t u : Bytes) :
    scan s (t ++ u) = ((scan s t).1 ++ (scan (scan s t).2 u).1, (scan (scan s t).2 u).2) := by
  induction t generalizing s with
  | nil => rfl
  | cons c t ih =>
    simp only [List.cons_append, scan, ih, List.append_assoc]

/-- Scanning bytes that keep a mode of a certain shape and report nothing. -/
lemma scan_collect (mode : Bytes → Mode) (p : UInt8 → Bool)
    (hstep : ∀ d acc c, p c = true → scanByte ⟨d, mode acc⟩ c = ([], ⟨d, mode (acc ++ [c])⟩))
    (d : ℕ) (acc t : Bytes) (ht : t.all p = true) :
    scan ⟨d, mode acc⟩ t = ([], ⟨d, mode (acc ++ t)⟩) := by
  induction t generalizing acc with
  | nil => simp [scan]
  | cons c t ih =>
    rw [List.all_cons, Bool.and_eq_true] at ht
    rw [scan, hstep d acc c ht.1]
    simp only [List.nil_append]
    rw [ih (acc ++ [c]) ht.2, List.append_assoc]
    rfl

lemma isNameByte_ne {c d : UInt8} (h : isNameByte c = true) (hd : isNameByte d = false) : c ≠ d := by
  rintro rfl
  rw [h] at hd
  exact Bool.noConfusion hd

section Tokens
variable (d : ℕ) (name : Bytes) (attrs : Attributes)

lemma scan_startName (acc t : Bytes) (ht : t.all isNameByte = true) :
    scan ⟨d, .startName acc⟩ t = ([], ⟨d, .startName (acc ++ t)⟩) :=
  scan_collect .startName isNameByte
    (fun d acc c hc => by simp [scanByte, hc]) d acc t ht

lemma scan_stopName (acc t : Bytes) (ht : t.all isNameByte = true) :
    scan ⟨d, .stopName acc⟩ t = ([], ⟨d, .stopName (acc ++ t)⟩) :=
  scan_collect .stopName isNameByte
    (fun d acc c hc => by simp [scanByte, hc]) d acc t ht

lemma scan_attrName (acc t : Bytes) (ht : t.all isNameByte = true) :
    scan ⟨d, .attrName name attrs acc⟩ t = ([], ⟨d, .attrName name attrs (acc ++ t)⟩) :=
  scan_collect (.attrName name attrs) isNameByte
    (fun d acc c hc => by simp [scanByte, hc]) d acc t ht

lemma scan_attrValue (a acc t : Bytes) (ht : t.all isValueByte = true) :
    scan ⟨d, .attrValue name attrs a acc⟩ t = ([], ⟨d, .attrValue name attrs a (acc ++ t)⟩) := by
  refine scan_collect (.attrValue name attrs a) isValueByte ?_ d acc t ht
  intro d acc c hc
  have hquote : c ≠ 39 := by
    rintro rfl
    exact absurd hc (by decide)
  simp [scanByte, hquote]

/-- The opening of a start tag up to the end of its name. -/
lemma scan_open (hname : isName name = true) :
    scan ⟨d, .content⟩ (60 :: name) = ([], ⟨d, .startName name⟩) := by
  cases name with
  | nil => exact absurd hname (by decide)
  | cons c name =>
    simp only [isName, List.all_cons, Bool.and_eq_true] at hname
    have hc : c ≠ 47 ∧ c ≠ 63 :=
      ⟨isNameByte_ne hname.2.1 (by decide), isNameByte_ne hname.2.1 (by decide)⟩
    rw [scan, scan]
    simp only [scanByte, ↓reduceIte, hc.1, hc.2]
    rw [scan_startName d [c] name hname.2.2]
    rfl

/-- A mode in which a tag may end: after its name, or after an attribute. -/
structure AtTag (s : Scan) (d : ℕ) (name : Bytes) (attrs : Attributes) : Prop where
  step : ∀ c, isNameByte c = false → scanByte s c = scanTag d name attrs c

lemma atTag_startName : AtTag ⟨d, .startName name⟩ d name [] :=
  ⟨fun c hc => by simp [scanByte, hc]⟩

lemma atTag_tag : AtTag ⟨d, .tag name attrs⟩ d name attrs := ⟨fun _ _ => rfl⟩

variable {d name attrs}

lemma scan_attribute {s : Scan} (h : AtTag s d name attrs) {a : Bytes × Bytes}
    (ha : isName a.1 = true) (hv : a.2.all isValueByte = true) :
    scan s (renderAttribute a) = ([], ⟨d, .tag name (attrs ++ [a])⟩) := by
  have hall : a.1.all isNameByte = true := by
    cases hn : a.1 with
    | nil => rfl
    | cons c t =>
      rw [hn] at ha
      simp only [isName, Bool.and_eq_true] at ha
      exact ha.2
  have hopen : scan s (32 :: a.1) = ([], ⟨d, .attrName name attrs a.1⟩) := by
    rw [scan, h.step 32 (by decide)]
    simp only [scanTag, show (32 : UInt8) ≠ 62 from by decide, show (32 : UInt8) ≠ 47 from by decide,
      ↓reduceIte]
    rw [scan_attrName d name attrs [] a.1 hall]
    rfl
  have hquote : scan ⟨d, .attrName name attrs a.1⟩ (61 :: 39 :: a.2) =
      ([], ⟨d, .attrValue name attrs a.1 a.2⟩) := by
    rw [scan, scan]
    simp only [scanByte, show isNameByte 61 = false from by decide, Bool.false_eq_true, ↓reduceIte]
    rw [scan_attrValue d name attrs a.1 [] a.2 hv]
    rfl
  unfold renderAttribute
  rw [scan_append, scan_append, hopen, hquote]
  simp [scan, scanByte]

lemma scan_attributes {s : Scan} {more : Attributes} (h : AtTag s d name attrs)
    (hm : (more.all fun a => isName a.1 && a.2.all isValueByte) = true) :
    ∃ s', scan s (more.flatMap renderAttribute) = ([], s') ∧ AtTag s' d name (attrs ++ more) := by
  induction more generalizing s attrs with
  | nil => exact ⟨s, rfl, by simpa using h⟩
  | cons a more ih =>
    rw [List.all_cons, Bool.and_eq_true, Bool.and_eq_true] at hm
    obtain ⟨s', hs, hat⟩ := ih (atTag_tag d name (attrs ++ [a])) hm.2
    refine ⟨s', ?_, by simpa using hat⟩
    rw [List.flatMap_cons, scan_append, scan_attribute h hm.1.1 hm.1.2, hs]
    rfl

/-- A start tag up to its end. -/
lemma scan_startTag (hname : isName name = true)
    (hattrs : (attrs.all fun a => isName a.1 && a.2.all isValueByte) = true) :
    ∃ s, scan ⟨d, .content⟩ (60 :: name ++ attrs.flatMap renderAttribute) = ([], s) ∧
      AtTag s d name attrs := by
  obtain ⟨s, hs, hat⟩ := scan_attributes (atTag_startName d name) hattrs
  refine ⟨s, ?_, by simpa using hat⟩
  rw [scan_append, scan_open d name hname, hs]
  rfl

lemma scan_start (hname : isName name = true)
    (hattrs : (attrs.all fun a => isName a.1 && a.2.all isValueByte) = true) :
    scan ⟨d, .content⟩ (Token.start name attrs).render =
      ([.startElement name attrs], ⟨d + 1, .content⟩) := by
  obtain ⟨s, hs, hat⟩ := scan_startTag (d := d) hname hattrs
  rw [Token.render, scan_append, hs, scan, hat.step 62 (by decide)]
  simp [scanTag, scan]

lemma scan_empty (hname : isName name = true)
    (hattrs : (attrs.all fun a => isName a.1 && a.2.all isValueByte) = true) :
    scan ⟨d, .content⟩ (Token.empty name attrs).render =
      ([.startElement name attrs, .endElement name], ⟨d, .content⟩) := by
  obtain ⟨s, hs, hat⟩ := scan_startTag (d := d) hname hattrs
  rw [Token.render, scan_append, hs, scan, hat.step 47 (by decide)]
  simp [scanTag, scan, scanByte]

lemma scan_stop (hname : isName name = true) :
    scan ⟨d + 1, .content⟩ (Token.stop name).render = ([.endElement name], ⟨d, .content⟩) := by
  have hall : name.all isNameByte = true := by
    cases name with
    | nil => rfl
    | cons c t =>
      simp only [isName, Bool.and_eq_true] at hname
      exact hname.2
  have hopen : scan ⟨d + 1, .content⟩ (60 :: 47 :: name) = ([], ⟨d + 1, .stopName name⟩) := by
    rw [scan, scan]
    simp only [scanByte, ↓reduceIte]
    rw [scan_stopName (d + 1) [] name hall]
    rfl
  rw [Token.render, scan_append, hopen]
  simp [scan, scanByte, show isNameByte 62 = false from by decide]

lemma scan_text {t : Bytes} (ht : t.all isRawByte = true) :
    scan ⟨d + 1, .content⟩ t = (t.map fun c => .charData [c], ⟨d + 1, .content⟩) := by
  induction t with
  | nil => rfl
  | cons c t ih =>
    rw [List.all_cons, Bool.and_eq_true] at ht
    have hc : c ≠ 60 := by
      rintro rfl
      exact absurd ht.1 (by decide)
    rw [scan]
    simp only [scanByte, hc, ↓reduceIte, Nat.succ_ne_zero]
    rw [ih ht.2]
    rfl

end Tokens

/-- The tokens inside open elements, down to the end of the outermost one. -/
lemma scan_balanced {opened : List Bytes} {ts : List Token} (hp : ts.all Token.raw = true)
    (hb : balanced opened ts = true) :
    scan ⟨opened.length, .content⟩ (ts.flatMap Token.render) =
      (bytewise (ts.flatMap Token.events), ⟨0, .content⟩) := by
  induction ts generalizing opened with
  | nil =>
    cases opened with
    | nil => rfl
    | cons n opened => exact absurd hb (by simp [balanced])
  | cons t ts ih =>
    cases opened with
    | nil => exact absurd hb (by simp [balanced])
    | cons n opened =>
      rw [List.all_cons, Bool.and_eq_true] at hp
      rw [List.flatMap_cons, List.flatMap_cons, scan_append, bytewise_append]
      cases t with
      | start m attrs =>
        simp only [Token.raw, Token.plain, Bool.and_eq_true] at hp
        simp only [balanced] at hb
        rw [scan_start hp.1.1 hp.1.2]
        have hrest := ih hp.2 hb
        rw [List.length_cons] at hrest
        rw [hrest]
        rfl
      | stop m =>
        simp only [Token.raw, Token.plain] at hp
        simp only [balanced, Bool.and_eq_true] at hb
        rw [List.length_cons, scan_stop hp.1, ih hp.2 hb.2]
        rfl
      | empty m attrs =>
        simp only [Token.raw, Token.plain, Bool.and_eq_true] at hp
        simp only [balanced] at hb
        rw [scan_empty hp.1.1 hp.1.2, ih hp.2 hb]
        rfl
      | text u =>
        simp only [Token.raw] at hp
        simp only [balanced] at hb
        rw [List.length_cons, Token.render, scan_text hp.1]
        have hrest := ih hp.2 hb
        rw [List.length_cons] at hrest
        rw [hrest]
        simp [Token.events, bytewise, Event.bytewise]

lemma scan_declaration {encoding : Bytes} (h : encoding.all isNameByte = true) :
    scan ⟨0, .content⟩ (declaration encoding) = ([], ⟨0, .content⟩) := by
  have hskip : scan ⟨0, .declaration⟩ encoding = ([], ⟨0, .declaration⟩) := by
    refine scan_collect (fun _ => .declaration) isNameByte ?_ 0 [] encoding h
    intro d acc c hc
    have hend : c ≠ 62 := isNameByte_ne hc (by decide)
    simp [scanByte, hend]
  unfold declaration
  rw [scan_append, scan_append]
  have hhead : scan ⟨0, .content⟩ [60, 63, 120, 109, 108, 32, 118, 101, 114, 115, 105, 111, 110,
      61, 34, 49, 46, 48, 34, 32, 101, 110, 99, 111, 100, 105, 110, 103, 61, 34] =
      ([], ⟨0, .declaration⟩) := by decide
  rw [hhead, hskip]
  decide

/-- The scanner, from outside any element. -/
def scanDocument (t : Bytes) : List Event × Bool :=
  let r := scan ⟨0, .content⟩ t
  (r.1, r.2 = ⟨0, .content⟩)

lemma scan_document {d : Document} (h : d.Raw) :
    scan ⟨0, .content⟩ d.render = (bytewise d.events, ⟨0, .content⟩) := by
  have hraw := h.raw
  rw [Document.tokens, List.all_cons, Bool.and_eq_true] at hraw
  have hroot := hraw.1
  simp only [Token.raw, Token.plain, Bool.and_eq_true] at hroot
  unfold Document.render Document.events Document.tokens
  rw [scan_append, scan_append, scan_declaration h.encoding, List.flatMap_cons, List.flatMap_cons,
    scan_append, scan_start hroot.1 hroot.2]
  have hbody := scan_balanced hraw.2 h.balanced
  rw [List.length_singleton] at hbody
  rw [hbody, bytewise_append]
  simp [scan, scanByte, Token.events, bytewise, Event.bytewise]

lemma bytewise_chars (t : Bytes) :
    bytewise (t.map fun c => .charData [c]) = t.map fun c => .charData [c] := by
  induction t with
  | nil => rfl
  | cons c t ih =>
    have hcons : bytewise ((c :: t).map fun c => Event.charData [c]) =
        .charData [c] :: bytewise (t.map fun c => .charData [c]) := rfl
    rw [hcons, ih]
    rfl

lemma bytewise_idem (es : List Event) : bytewise (bytewise es) = bytewise es := by
  induction es with
  | nil => rfl
  | cons e es ih =>
    have hcons : bytewise (e :: es) = e.bytewise ++ bytewise es := rfl
    rw [hcons, bytewise_append, ih]
    congr 1
    cases e with
    | startElement name attrs | endElement name => rfl
    | charData t => exact bytewise_chars t

/-- The scanner reports every well-formed document. -/
def scanner : Parser where
  parse := scanDocument
  accepts d h := by
    unfold scanDocument
    rw [scan_document h.raw]
    simp
  delivers d h := by
    unfold scanDocument
    rw [scan_document h.raw]
    exact bytewise_idem d.events

end Sitecopy.Xml
