import Sitecopy.RcfileMemory

/-!
# Owners of the rcfile's memory

A protocol string has one site as its owner and a list item has one site and one of its lists;
all other strings are shared and stay as they are. A key changes what its site owns and
allocates; the other sites are what they were.
-/
namespace Sitecopy.RcfileMemory
open SiteModel Rcfile LinkedCells

/-- The heaps of strings and list items, with the owners. The owner of a shared string is
`null`. -/
structure World where
  strings : Heap Text
  items : Heap (Node Item)
  ofString : ℕ → Pointer
  ofItem : ℕ → Pointer × ListField

/-- Everything that is there stays as it is. -/
instance : Preorder World where
  le w w' := w.strings ≤ w'.strings ∧ w.items.size ≤ w'.items.size ∧
    (∀ a < w.items.size, w'.items.get a = w.items.get a) ∧
    (∀ a < w.strings.size, w'.ofString a = w.ofString a) ∧
    ∀ a < w.items.size, w'.ofItem a = w.ofItem a
  le_refl w := ⟨le_rfl, le_rfl, fun _ _ => rfl, fun _ _ => rfl, fun _ _ => rfl⟩
  le_trans w₁ w₂ w₃ h h' := by
    obtain ⟨hs, hi, hget, hos, hoi⟩ := h
    obtain ⟨hs', hi', hget', hos', hoi'⟩ := h'
    have hstrings := Heap.size_le hs
    refine ⟨hs.trans hs', hi.trans hi', fun a ha => ?_, fun a ha => ?_, fun a ha => ?_⟩
    · rw [hget' a (ha.trans_le hi), hget a ha]
    · rw [hos' a (ha.trans_le hstrings), hos a ha]
    · rw [hoi' a (ha.trans_le hi), hoi a ha]

/-- An item stands for a pattern, in a string that no site may free. -/
def Stands (w : World) (x : Item) (p : FnPattern) : Prop :=
  w.strings.get x.pattern = some p.pattern ∧ w.ofString x.pattern = .null ∧
    x.haspath = p.haspath

/-- A list of the site `ref` that stands for some patterns. -/
def HoldsList (w : World) (ref : Pointer) (l : ListField) (p : Option ℕ)
    (ps : List FnPattern) : Prop :=
  ∃ cells, Linked w.items p cells ∧ cells.length ≤ w.items.size ∧
    (∀ c ∈ cells, w.ofItem c.1 = (ref, l)) ∧
    List.Forall₂ (fun c p => Stands w c.2 p) cells ps

/-- A string member. -/
def HoldsString (w : World) : Option ℕ → Option Text → Prop
  | none, none => True
  | some a, some t => w.strings.get a = some t ∧ w.ofString a = .null
  | _, _ => False

/-- The site `ref` has the fields `s`, and they stand for `v`. -/
structure Holds (w : World) (ref : Pointer) (s : Fields) (v : SiteValue) : Prop where
  settings : s.settings = v.settings
  protoString : w.strings.get s.protoString = some v.protoString
  owner : w.ofString s.protoString = ref
  strings : ∀ f, HoldsString w (s.strings f) (v.strings f)
  lists : ∀ l, HoldsList w ref l (s.lists l) (v.lists l)

/-- What is not allocated has no owner. -/
def Fresh (w : World) : Prop := ∀ a, w.strings.size ≤ a → w.ofString a = .null

/-- Sites other than `ref` are what they were. -/
def OthersKept (ref : Pointer) (w w' : World) : Prop :=
  ∀ other s v, other ≠ ref → Holds w other s v → Holds w' other s v

lemma Holds.represents {w : World} {ref : Pointer} {s : Fields} {v : SiteValue}
    (h : Holds w ref s v) : Represents w.strings w.items s v where
  settings := h.settings
  protoString := h.protoString
  strings f := by
    have hf := h.strings f
    revert hf
    cases s.strings f <;> cases v.strings f
    case some.some => exact And.left
    all_goals exact id
  lists l := by
    obtain ⟨cells, hlinked, -, -, hvals⟩ := h.lists l
    exact ⟨cells, hlinked, hvals.imp fun _ _ hst => ⟨hst.1, hst.2.2⟩⟩

/-! ### Memory that grows -/

lemma Stands.mono {w w' : World} (hle : w ≤ w') {x : Item} {p : FnPattern} (h : Stands w x p) :
    Stands w' x p := by
  obtain ⟨hget, hown, hpath⟩ := h
  obtain ⟨hs, -, -, hos, -⟩ := hle
  exact ⟨Heap.get_le hs hget, by rw [hos _ (Heap.lt_size hget), hown], hpath⟩

lemma HoldsString.mono {w w' : World} (hle : w ≤ w') {p : Option ℕ} {t : Option Text}
    (h : HoldsString w p t) : HoldsString w' p t := by
  obtain ⟨hs, -, -, hos, -⟩ := hle
  cases p <;> cases t
  case some.some a t =>
    obtain ⟨hget, hown⟩ := h
    exact ⟨Heap.get_le hs hget, by rw [hos _ (Heap.lt_size hget), hown]⟩
  all_goals exact h

lemma HoldsList.mono {w w' : World} (hle : w ≤ w') {ref : Pointer} {l : ListField}
    {p : Option ℕ} {ps : List FnPattern} (h : HoldsList w ref l p ps) :
    HoldsList w' ref l p ps := by
  obtain ⟨cells, hlinked, hlen, hown, hvals⟩ := h
  have hlt := fun c hc => Segment.lt_size hlinked (c := c) hc
  obtain ⟨-, hi, hget, -, hoi⟩ := id hle
  refine ⟨cells, hlinked.frame fun c hc => hget _ (hlt c hc), hlen.trans hi, fun c hc => ?_,
    hvals.imp fun _ _ hst => hst.mono hle⟩
  rw [hoi _ (hlt c hc), hown c hc]

lemma Holds.mono {w w' : World} (hle : w ≤ w') {ref : Pointer} {s : Fields} {v : SiteValue}
    (h : Holds w ref s v) : Holds w' ref s v where
  settings := h.settings
  protoString := Heap.get_le hle.1 h.protoString
  owner := by
    rw [hle.2.2.2.1 _ (Heap.lt_size h.protoString), h.owner]
  strings f := (h.strings f).mono hle
  lists l := (h.lists l).mono hle

lemma OthersKept.of_le {w w' : World} (hle : w ≤ w') (ref : Pointer) : OthersKept ref w w' :=
  fun _ _ _ _ h => h.mono hle

/-- A new shared string. -/
def World.share (w : World) (t : Text) : World := { w with strings := w.strings.alloc t }

lemma World.le_share (w : World) (t : Text) : w ≤ w.share t :=
  ⟨w.strings.le_alloc t, le_rfl, fun _ _ => rfl, fun _ _ => rfl, fun _ _ => rfl⟩

lemma Fresh.share {w : World} (h : Fresh w) (t : Text) : Fresh (w.share t) := by
  intro a ha
  rw [World.share, Heap.size_alloc] at ha
  exact h a (by omega)

lemma Fresh.holds_share {w : World} (h : Fresh w) (t : Text) :
    HoldsString (w.share t) (some w.strings.size) (some t) :=
  ⟨w.strings.get_alloc_size t, h _ le_rfl⟩

/-- A new protocol string. -/
def World.own (w : World) (ref : Pointer) (t : Text) : World :=
  { w with
    strings := w.strings.alloc t
    ofString := Function.update w.ofString w.strings.size ref }

lemma World.le_own (w : World) (ref : Pointer) (t : Text) : w ≤ w.own ref t := by
  refine ⟨w.strings.le_alloc t, le_rfl, fun _ _ => rfl, fun a ha => ?_, fun _ _ => rfl⟩
  exact Function.update_of_ne (Nat.ne_of_lt ha) _ _

lemma Fresh.own {w : World} (h : Fresh w) (ref : Pointer) (t : Text) : Fresh (w.own ref t) := by
  intro a ha
  rw [World.own, Heap.size_alloc] at ha
  exact (Function.update_of_ne (by omega) _ _).trans (h a (by omega))

lemma World.own_owner (w : World) (ref : Pointer) (t : Text) :
    (w.own ref t).ofString w.strings.size = ref :=
  Function.update_self _ _ _

/-! ### Keys -/

/-- The protocol string of `ref` is freed. -/
lemma World.free_cases {w : World} (hfresh : Fresh w) {ref : Pointer} (href : ref ≠ .null)
    {s : Fields} {v : SiteValue} (h : Holds w ref s v) :
    ∃ freed, w.strings.free s.protoString = some freed ∧ freed.size = w.strings.size ∧
      Fresh { w with strings := freed } ∧ OthersKept ref w { w with strings := freed } ∧
      (∀ f, HoldsString { w with strings := freed } (s.strings f) (v.strings f)) ∧
      ∀ l, HoldsList { w with strings := freed } ref l (s.lists l) (v.lists l) := by
  obtain ⟨freed, hfree, hsize, -, hkeep⟩ := Heap.free_cases h.protoString
  have hne : ∀ {a : ℕ}, w.ofString a ≠ ref → freed.get a = w.strings.get a := by
    intro a ha
    refine hkeep a fun heq => ha ?_
    rw [heq, h.owner]
  have hshared : ∀ {a : ℕ}, w.ofString a = .null → freed.get a = w.strings.get a := by
    intro a ha
    exact hne (by rw [ha]; exact Ne.symm href)
  have hstring : ∀ {p : Option ℕ} {t : Option Text}, HoldsString w p t →
      HoldsString { w with strings := freed } p t := by
    intro p t hp
    cases p <;> cases t
    case some.some a t => exact ⟨(hshared hp.2).trans hp.1, hp.2⟩
    all_goals exact hp
  have hlist : ∀ {other : Pointer} {l : ListField} {p : Option ℕ} {ps : List FnPattern},
      HoldsList w other l p ps → HoldsList { w with strings := freed } other l p ps := by
    intro other l p ps hps
    obtain ⟨cells, hlinked, hlen, hown, hvals⟩ := hps
    refine ⟨cells, hlinked, hlen, hown, hvals.imp fun _ _ hst => ?_⟩
    exact ⟨(hshared hst.2.1).trans hst.1, hst.2⟩
  refine ⟨freed, hfree, hsize, fun a ha => hfresh a (by rwa [← hsize]), ?_,
    fun f => hstring (h.strings f), fun l => hlist (h.lists l)⟩
  intro other s' v' hother h'
  have hproto := (hne (by rw [h'.owner]; exact hother)).trans h'.protoString
  exact ⟨h'.settings, hproto, h'.owner, fun f => hstring (h'.strings f),
    fun l => hlist (h'.lists l)⟩

/-- The world with a new first item of a list, whose pattern is a new string. -/
def World.prepend (w : World) (ref : Pointer) (l : ListField) (items : Heap (Node Item))
    (pattern : Text) : World :=
  { w with
    strings := w.strings.alloc pattern
    items := items
    ofItem := Function.update w.ofItem w.items.size (ref, l) }

lemma World.prepend_cases {w : World} (hfresh : Fresh w) {ref : Pointer} {l : ListField}
    {p : Option ℕ} {ps : List FnPattern} (h : HoldsList w ref l p ps) (x : FnPattern) :
    ∃ items, w.items.prepend p ⟨w.strings.size, x.haspath⟩ = some items ∧
      HoldsList (w.prepend ref l items x.pattern) ref l (some w.items.size) (x :: ps) ∧
      ∀ other l' p' ps', (other, l') ≠ (ref, l) → HoldsList w other l' p' ps' →
        HoldsList (w.prepend ref l items x.pattern) other l' p' ps' := by
  obtain ⟨cells, hlinked, hlen, hown, hvals⟩ := h
  obtain ⟨items, hprepend, hsize, hnew, hkeep⟩ :=
    hlinked.prepend (⟨w.strings.size, x.haspath⟩ : Item)
  have hshare := w.le_share x.pattern
  have hstands : ∀ {y : Item} {q : FnPattern}, Stands w y q →
      Stands (w.prepend ref l items x.pattern) y q := fun hy => hy.mono hshare
  have hold : ∀ {a : ℕ}, a < w.items.size →
      (w.prepend ref l items x.pattern).ofItem a = w.ofItem a :=
    fun ha => Function.update_of_ne (Nat.ne_of_lt ha) _ _
  refine ⟨items, hprepend, ⟨_, hnew, ?_, ?_, ?_⟩, ?_⟩
  · have hitems : (w.prepend ref l items x.pattern).items.size = w.items.size + 1 := hsize
    rw [List.length_cons]
    omega
  · intro c hc
    cases List.mem_cons.mp hc with
    | inl heq =>
      rw [heq]
      exact Function.update_self _ _ _
    | inr hmem => rw [hold (Segment.lt_size hlinked hmem), hown c hmem]
  · exact .cons ⟨w.strings.get_alloc_size _, hfresh _ le_rfl, rfl⟩
      (hvals.imp fun _ _ hst => hstands hst)
  · intro other l' p' ps' hne hlist
    obtain ⟨cells', hlinked', hlen', hown', hvals'⟩ := hlist
    have hlt := fun c hc => Segment.lt_size hlinked' (c := c) hc
    refine ⟨cells', hlinked'.frame fun c hc => ?_, ?_, fun c hc => ?_,
      hvals'.imp fun _ _ hst => hstands hst⟩
    -- a cell of another list has another owner
    · refine hkeep _ (hlt c hc) fun c' hc' heq => hne ?_
      rw [← hown' c hc, ← hown c' hc', heq]
    · have hitems : (w.prepend ref l items x.pattern).items.size = w.items.size + 1 := hsize
      omega
    · rw [hold (hlt c hc), hown' c hc]

lemma holdsString_update {w : World} {p : StringField → Option ℕ} {t : StringField → Option Text}
    {a : ℕ} {x : Text} (hrest : ∀ f, HoldsString w (p f) (t f))
    (hnew : HoldsString w (some a) (some x)) (field f : StringField) :
    HoldsString w (Function.update p field (some a) f) (Function.update t field (some x) f) := by
  by_cases hf : f = field
  · rw [hf, Function.update_self, Function.update_self]
    exact hnew
  · rw [Function.update_of_ne hf, Function.update_of_ne hf]
    exact hrest f

/-- A string member that is set. -/
lemma Holds.setString {w : World} (hfresh : Fresh w) {ref : Pointer} {s : Fields} {v : SiteValue}
    (h : Holds w ref s v) (field : StringField) (val : Text) :
    Holds (w.share val) ref
      { s with strings := Function.update s.strings field (some w.strings.size) }
      { v with strings := Function.update v.strings field (some val) } := by
  have hshare := h.mono (w.le_share val)
  exact ⟨hshare.settings, hshare.protoString, hshare.owner,
    holdsString_update hshare.strings (hfresh.holds_share val) field, hshare.lists⟩

lemma HoldsString.eq_none_iff {w : World} {p : Option ℕ} {t : Option Text}
    (h : HoldsString w p t) : p = none ↔ t = none := by
  cases p <;> cases t
  case none.none => simp
  case some.some => simp
  all_goals exact h.elim

/-- A key does to the memory what it does to the value, and nothing to other sites. -/
theorem runChange_cases {w : World} (hfresh : Fresh w) {ref : Pointer} (href : ref ≠ .null)
    {s : Fields} {v : SiteValue} (h : Holds w ref s v) (c : Change) :
    ∃ w' s', runChange w.strings w.items s c = some (w'.strings, w'.items, s') ∧ Fresh w' ∧
      Holds w' ref s' (c.apply v) ∧ OthersKept ref w w' := by
  cases c with
  | plain f =>
    refine ⟨w, _, rfl, hfresh, ⟨?_, h.protoString, h.owner, h.strings, h.lists⟩,
      .of_le le_rfl ref⟩
    exact congrArg f h.settings
  | string field val =>
    exact ⟨w.share val, _, rfl, hfresh.share val, h.setString hfresh field val,
      .of_le (w.le_share val) ref⟩
  | stringIfNull field val =>
    have hnull := (h.strings field).eq_none_iff
    by_cases hfield : s.strings field = none
    · refine ⟨w.share val, _, by rw [runChange, if_pos hfield]; rfl, hfresh.share val, ?_,
        .of_le (w.le_share val) ref⟩
      rw [Change.apply, if_pos (hnull.mp hfield)]
      exact h.setString hfresh field val
    · refine ⟨w, s, by rw [runChange, if_neg hfield], hfresh, ?_, .of_le le_rfl ref⟩
      rw [Change.apply, if_neg fun hv => hfield (hnull.mpr hv)]
      exact h
  | pattern list p =>
    obtain ⟨items, hprepend, hnew, hothers⟩ := World.prepend_cases hfresh (h.lists list) p
    have hshare := w.le_share p.pattern
    refine ⟨w.prepend ref list items p.pattern,
      { s with lists := Function.update s.lists list (some w.items.size) }, ?_,
      hfresh.share p.pattern, ?_, ?_⟩
    · simp only [runChange, hprepend, Option.bind_eq_bind, Option.bind_some]
      rfl
    · have hkept := h.mono hshare
      refine ⟨hkept.settings, hkept.protoString, hkept.owner, hkept.strings, fun l => ?_⟩
      by_cases hl : l = list
      · subst hl
        simpa [Change.apply] using hnew
      · have hkeep := hothers ref l _ _ (fun heq => hl (Prod.mk.inj heq).2) (h.lists l)
        simpa [Change.apply, Function.update_of_ne hl] using hkeep
    · intro other s' v' hother h'
      have hkept := h'.mono hshare
      refine ⟨hkept.settings, hkept.protoString, hkept.owner, hkept.strings, fun l => ?_⟩
      exact hothers other l _ _ (fun heq => hother (Prod.mk.inj heq).1) (h'.lists l)
  | protoString val =>
    obtain ⟨freed, hfree, hsize, hfresh', hothers, hstrings, hlists⟩ :=
      World.free_cases hfresh href h
    have hle := World.le_own { w with strings := freed } ref val
    refine ⟨World.own { w with strings := freed } ref val,
      { s with protoString := freed.size }, ?_, hfresh'.own ref val, ?_, ?_⟩
    · simp only [runChange, hfree, Option.bind_eq_bind, Option.bind_some]
      rfl
    · exact ⟨h.settings, freed.get_alloc_size val, World.own_owner _ ref val,
        fun f => (hstrings f).mono hle, fun l => (hlists l).mono hle⟩
    · exact fun other s' v' hother h' => (hothers other s' v' hother h').mono hle

/-! ### New sites -/

/-- The copy of a list belongs to whom it is made for. -/
lemma World.copy_cases {w : World} (hfresh : Fresh w) {ref : Pointer} {l : ListField}
    {p : Option ℕ} {ps : List FnPattern} (h : HoldsList w ref l p ps) (ref' : Pointer)
    (l' : ListField) :
    ∃ w' q, deepCopy copyItem w.strings w.items p = some (w'.strings, w'.items, q) ∧ w ≤ w' ∧
      Fresh w' ∧ HoldsList w' ref' l' q ps := by
  obtain ⟨cells, hlinked, hlen, hown, hvals⟩ := h
  let stands (texts : Heap Text) (x : Item) (p : FnPattern) : Prop :=
    w.strings ≤ texts ∧ texts.get x.pattern = some p.pattern ∧
      w.ofString x.pattern = .null ∧ x.haspath = p.haspath
  have hcopy : ∀ texts x p, stands texts x p →
      ∃ texts' y, copyItem texts x = some (texts', y) ∧ texts ≤ texts' ∧ stands texts' y p := by
    intro texts x p hst
    obtain ⟨hle, hget, -, hpath⟩ := hst
    refine ⟨texts.alloc p.pattern, ⟨texts.size, x.haspath⟩, ?_, texts.le_alloc _,
      hle.trans (texts.le_alloc _), texts.get_alloc_size _, hfresh _ (Heap.size_le hle), hpath⟩
    simp only [copyItem, hget, Option.bind_eq_bind, Option.bind_some]
  have hmono : ∀ {texts texts' x p}, texts ≤ texts' → stands texts x p → stands texts' x p :=
    fun hle hst => ⟨hst.1.trans hle, Heap.get_le hle hst.2.1, hst.2.2⟩
  have hsrc : List.Forall₂ (fun c p => stands w.strings c.2 p) cells ps :=
    hvals.imp fun _ _ hst => ⟨le_rfl, hst⟩
  obtain ⟨texts, items, q, copies, hrun, hle, hsize, hcopied, hcopies, hnew, hkeep, hstands⟩ :=
    deepCopy_cases hcopy hmono hlinked hlen hsrc
  let w' : World :=
    { strings := texts
      items := items
      ofString := w.ofString
      ofItem := fun a => if a < w.items.size then w.ofItem a else (ref', l') }
  have hgrows : w ≤ w' :=
    ⟨hle, by simp [w', hsize], hkeep, fun _ _ => rfl, fun a ha => if_pos ha⟩
  refine ⟨w', q, hrun, hgrows, fun a ha => hfresh a ((Heap.size_le hle).trans ha), copies,
    hcopied, ?_, fun c hc => if_neg (not_lt.mpr (hnew c hc)), hstands.imp fun _ _ hst => hst.2⟩
  rw [hcopies]
  simp only [w', hsize]
  omega

/-- The lists of a new site. -/
def copiedLists (excludes ignores asciis : Option ℕ) : ListField → Option ℕ
  | .excludes => excludes
  | .ignores => ignores
  | .asciis => asciis

/-- A new site has the value that it should have, and everything else stays as it is. -/
theorem newFields_cases {w : World} (hfresh : Fresh w) {ref : Pointer} {s : Fields}
    {v : SiteValue} (h : Holds w ref s v) (ref' : Pointer) (copypath val : Text) :
    ∃ w' s', newFields copypath w.strings w.items s val = some (w'.strings, w'.items, s') ∧
      w ≤ w' ∧ Fresh w' ∧ Holds w' ref' s' (newSite copypath v val) := by
  obtain ⟨w₁, excludes, hrun₁, hle₁, hfresh₁, hexcludes⟩ :=
    World.copy_cases hfresh (h.lists .excludes) ref' .excludes
  have h₁ := h.mono hle₁
  obtain ⟨w₂, ignores, hrun₂, hle₂, hfresh₂, hignores⟩ :=
    World.copy_cases hfresh₁ (h₁.lists .ignores) ref' .ignores
  have h₂ := h₁.mono hle₂
  obtain ⟨w₃, asciis, hrun₃, hle₃, hfresh₃, hasciis⟩ :=
    World.copy_cases hfresh₂ (h₂.lists .asciis) ref' .asciis
  have h₃ := h₂.mono hle₃
  let named := w₃.share val
  let protoed := named.own ref' v.protoString
  let stored := protoed.share (copypath ++ val)
  let last := stored.share (copypath ++ val ++ ascii ".crt")
  have hnamed : w₃ ≤ named := w₃.le_share val
  have hprotoed : named ≤ protoed := named.le_own ref' _
  have hstored : protoed ≤ stored := protoed.le_share _
  have hlast : stored ≤ last := stored.le_share _
  have hfreshNamed : Fresh named := hfresh₃.share val
  have hfreshProtoed : Fresh protoed := hfreshNamed.own ref' _
  have hfreshStored : Fresh stored := hfreshProtoed.share _
  have hproto : (w₃.strings.alloc val).get s.protoString = some v.protoString :=
    Heap.get_le hnamed.1 h₃.protoString
  have hafter : w₃ ≤ last := ((hnamed.trans hprotoed).trans hstored).trans hlast
  have hname := ((hfresh₃.holds_share val).mono hprotoed).mono (hstored.trans hlast)
  have hinfo := (hfreshProtoed.holds_share (copypath ++ val)).mono hlast
  have hcert := hfreshStored.holds_share (copypath ++ val ++ ascii ".crt")
  have hstrings := (h₃.mono hafter).strings
  let fields : Fields :=
    { s with
      protoString := named.strings.size
      strings := Function.update (Function.update (Function.update s.strings
        .name (some w₃.strings.size)) .infofile (some protoed.strings.size))
        .certfile (some stored.strings.size)
      lists := copiedLists excludes ignores asciis }
  refine ⟨last, fields, ?_, ((hle₁.trans hle₂).trans hle₃).trans hafter, hfreshStored.share _, ?_⟩
  · simp only [newFields, hrun₁, hrun₂, hrun₃, hproto, Option.bind_eq_bind, Option.bind_some]
    rfl
  · refine ⟨h.settings, ?_, ?_, ?_, fun l => ?_⟩
    · exact Heap.get_le (hstored.trans hlast).1 (named.strings.get_alloc_size _)
    · exact named.own_owner ref' v.protoString
    · exact holdsString_update (holdsString_update (holdsString_update hstrings hname _) hinfo _)
        hcert _
    · cases l with
      | excludes => exact ((hexcludes.mono hle₂).mono hle₃).mono hafter
      | ignores => exact (hignores.mono hle₃).mono hafter
      | asciis => exact hasciis.mono hafter

end Sitecopy.RcfileMemory
