import Sitecopy.LinkedCells
import Sitecopy.Rcfile

/-!
# The rcfile in memory

Each site that `rcfile_read` makes starts as a copy of `default_site`. It has copies of the
pattern lists and of the protocol string, and shares the other strings. Keys allocate strings
and list items, and free the protocol string. The results are those of reading with sites as
values, and no freed memory is used.
-/
namespace Sitecopy.RcfileMemory
open SiteModel BufferedLines Rcfile LinkedCells

/-- An item of a `struct fnlist`: the address of the pattern, and `haspath`. -/
structure Item where
  pattern : ℕ
  haspath : Bool

/-- A `struct site` without its links: addresses of strings and of the first list items. -/
abbrev Fields := Site ℕ (Option ℕ)

/-- A pointer to a site. -/
inductive Pointer
  | null
  | default
  | site (a : ℕ)
  deriving DecidableEq, Repr

/-- The heap and the variables of `rcfile_read`. -/
structure Mem where
  strings : Heap Text
  items : Heap (Node Item)
  sites : Heap (Node Fields)
  /-- `default_site`, which is not on the heap -/
  default : Node Fields
  thisSite : Pointer
  lastSite : Option ℕ
  /-- `*sites` -/
  first : Option ℕ

/-- Before the first line. Nothing is written to `*sites`. -/
def initial (first : Option ℕ) : Mem where
  strings := Heap.alloc {} (ascii "ftp")
  items := {}
  sites := {}
  default := ⟨⟨{}, 0, fun _ => none, fun _ => none⟩, none, none⟩
  thisSite := .null
  lastSite := none
  first := first

/-- What a key does to the site `s`; `none` is a use of memory that is not allocated. -/
def runChange (strings : Heap Text) (items : Heap (Node Item)) (s : Fields) :
    Change → Option (Heap Text × Heap (Node Item) × Fields)
  | .plain f => some (strings, items, { s with settings := f s.settings })
  | .string field val =>
    some (strings.alloc val, items,
      { s with strings := Function.update s.strings field (some strings.size) })
  | .stringIfNull field val =>
    if s.strings field = none then
      some (strings.alloc val, items,
        { s with strings := Function.update s.strings field (some strings.size) })
    else some (strings, items, s)
  | .pattern list p => do
    let items' ← items.prepend (s.lists list) ⟨strings.size, p.haspath⟩
    some (strings.alloc p.pattern, items',
      { s with lists := Function.update s.lists list (some items.size) })
  | .protoString val => do
    let freed ← strings.free s.protoString
    some (freed.alloc val, items, { s with protoString := freed.size })

/-- `*this_site`. -/
def Mem.this (m : Mem) : Option Fields :=
  match m.thisSite with
  | .null => none
  | .default => some m.default.val
  | .site a => (m.sites.get a).map Node.val

/-- `*this_site = s`. -/
def Mem.setThis (m : Mem) (s : Fields) : Option Mem :=
  match m.thisSite with
  | .null => none
  | .default => some { m with default := { m.default with val := s } }
  | .site a => do
    let n ← m.sites.get a
    let sites ← m.sites.set a { n with val := s }
    some { m with sites := sites }

def Mem.change (m : Mem) (c : Change) : Option Mem := do
  let s ← m.this
  let (strings, items, s') ← runChange m.strings m.items s c
  { m with strings := strings, items := items }.setThis s'

/-- A list item with its pattern, for `fnlist_deep_copy`. -/
def copyItem (strings : Heap Text) (x : Item) : Option (Heap Text × Item) := do
  let pattern ← strings.get x.pattern
  some (strings.alloc pattern, ⟨strings.size, x.haspath⟩)

/-- The members of a new site: those of `default_site` with copies of the lists, and with
strings of its own. -/
def newFields (copypath : Text) (strings : Heap Text) (items : Heap (Node Item)) (s : Fields)
    (val : Text) : Option (Heap Text × Heap (Node Item) × Fields) := do
  let (strings, items, excludes) ← deepCopy copyItem strings items (s.lists .excludes)
  let (strings, items, ignores) ← deepCopy copyItem strings items (s.lists .ignores)
  let (strings, items, asciis) ← deepCopy copyItem strings items (s.lists .asciis)
  let named := strings.alloc val
  let proto ← named.get s.protoString
  let protoed := named.alloc proto
  let stored := protoed.alloc (copypath ++ val)
  some (stored.alloc (copypath ++ val ++ ascii ".crt"), items,
    { s with
      protoString := named.size
      strings := Function.update (Function.update (Function.update s.strings
        .name (some strings.size)) .infofile (some protoed.size)) .certfile (some stored.size)
      lists := fun
        | .excludes => excludes
        | .ignores => ignores
        | .asciis => asciis })

/-- `last_site` when a new site begins: the default block is not a site. -/
def Mem.siteBefore (m : Mem) : Option ℕ :=
  match m.thisSite with
  | .null => none
  | .default => m.lastSite
  | .site a => some a

/-- Beginning of a new site. -/
def Mem.beginSite (copypath : Text) (m : Mem) (val : Text) : Option Mem := do
  let last := m.siteBefore
  let (strings, items, fields) ← newFields copypath m.strings m.items m.default.val val
  let sites ← m.sites.append last { m.default with val := fields }
  some
    { m with
      strings := strings, items := items, sites := sites
      thisSite := .site m.sites.size
      lastSite := last
      first := if last = none then some m.sites.size else m.first }

/-- The body of the loop of `rcfile_read`; `none` is `RC_CORRUPT`, and a memory that is `none`
is what is left after a use of memory that is not allocated. -/
def readLine (copypath : Text) (mem : Option Mem) (buf : Text) : Option (Option Mem) :=
  match mem with
  | none => some none
  | some m =>
    match (lexLine buf).line (m.thisSite ≠ .null) with
    | .blank => some (some m)
    | .default => some (some { m with thisSite := .default })
    | .site name => some (m.beginSite copypath name)
    | .changes cs => some (cs.foldlM Mem.change m)
    | .corrupt => none

/-- `rcfile_read` of an rcfile that can be opened, with what is in `*sites` when it is
called. -/
def rcfileRead (copypath : Text) (first : Option ℕ) (content : Text) :
    Except (ℕ × Text) (Option Mem) :=
  throughBuffer newline (LINESIZE - 1) (readLine copypath) (some (initial first)) content

/-! ### What a site in memory stands for -/

/-- A pointer that may be `NULL`, and what it points to. -/
def PointsTo (texts : Heap Text) : Option ℕ → Option Text → Prop
  | none, none => True
  | some a, some t => texts.get a = some t
  | _, _ => False

structure Represents (texts : Heap Text) (items : Heap (Node Item)) (s : Fields)
    (v : SiteValue) : Prop where
  settings : s.settings = v.settings
  protoString : texts.get s.protoString = some v.protoString
  strings : ∀ f, PointsTo texts (s.strings f) (v.strings f)
  lists : ∀ l, ∃ cells, Linked items (s.lists l) cells ∧
    List.Forall₂ (fun c p => texts.get c.2.pattern = some p.pattern ∧ c.2.haspath = p.haspath)
      cells (v.lists l)

lemma PointsTo.unique {texts : Heap Text} {p : Option ℕ} {t t' : Option Text}
    (h : PointsTo texts p t) (h' : PointsTo texts p t') : t = t' := by
  cases p with
  | none => cases t <;> cases t' <;> first | rfl | exact h.elim | exact h'.elim
  | some a =>
    cases t with
    | none => exact h.elim
    | some t =>
      cases t' with
      | none => exact h'.elim
      | some t' => exact h.symm.trans h'

/-- A site in memory stands for one value. -/
lemma Represents.unique {texts : Heap Text} {items : Heap (Node Item)} {s : Fields}
    {v v' : SiteValue} (h : Represents texts items s v) (h' : Represents texts items s v') :
    v = v' := by
  have hsettings : v.settings = v'.settings := h.settings.symm.trans h'.settings
  have hproto : v.protoString = v'.protoString :=
    Option.some.inj (h.protoString.symm.trans h'.protoString)
  have hstrings : v.strings = v'.strings := funext fun f => (h.strings f).unique (h'.strings f)
  have hlists : v.lists = v'.lists := by
    funext l
    obtain ⟨cells, hlinked, hvals⟩ := h.lists l
    obtain ⟨cells', hlinked', hvals'⟩ := h'.lists l
    obtain rfl := Segment.unique hlinked hlinked'
    refine List.right_unique_forall₂' (fun c q q' hq hq' => ?_) hvals hvals'
    obtain ⟨pattern, haspath⟩ := q
    obtain ⟨pattern', haspath'⟩ := q'
    have hpattern : pattern = pattern' := Option.some.inj (hq.1.symm.trans hq'.1)
    have hpath : haspath = haspath' := hq.2.symm.trans hq'.2
    rw [hpattern, hpath]
  obtain ⟨settings, proto, strings, lists⟩ := v
  obtain ⟨settings', proto', strings', lists'⟩ := v'
  simp only at hsettings hproto hstrings hlists
  rw [hsettings, hproto, hstrings, hlists]

end Sitecopy.RcfileMemory
