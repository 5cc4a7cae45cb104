import Sitecopy.StateFileRoundTrip

/-!
# What reading the state file stores

Whatever the fields of the items hold, a reading that succeeds hands the names of the
items to `file_set_stored` one after the other, as long as no link target is read as markup.
-/
namespace Sitecopy.StateFile
open SiteModel FileSet FileSetSpec Numerals Xml

/-! ### Reading or failing -/

/-- The parser fails within the tokens, whatever elements are open around them. -/
def Fails (m : DataModel) (ts : List Token) (doc : XmlDoc) : Prop :=
  ∀ stack : List (Option Elm), (feed m ts (live doc stack)).failure.isSome

/-- The accumulator differs at most in the fields that no name or type depends on. -/
structure Quiet (doc doc' : XmlDoc) : Prop where
  site : doc'.site = doc.site
  type : doc'.type = doc.type
  name : doc'.stored.filename = doc.stored.filename

/-- The tokens are read quietly, or the parser fails. -/
def Passes (m : DataModel) (ts : List Token) (doc : XmlDoc) : Prop :=
  (∃ doc', Reads m ts doc doc' ∧ Quiet doc doc') ∨ Fails m ts doc

section Passing
variable {m : DataModel} {ts us : List Token} {doc doc' : XmlDoc} {p : NeonParser}

lemma neEvent_failed (h : p.failure.isSome) (e : Event) : neEvent m p e = p := by
  cases e <;> simp [neEvent, neStartElement, neCharData, neEndElement, h]

/-- A failure stays. -/
lemma feed_failed (h : p.failure.isSome) (ts : List Token) : feed m ts p = p := by
  unfold feed
  induction ts.flatMap Token.events with
  | nil => rfl
  | cons e es ih => rw [List.foldl_cons, neEvent_failed h, ih]

lemma Fails.append (h : Fails m ts doc) (us : List Token) : Fails m (ts ++ us) doc := by
  intro stack
  rw [feed_append, feed_failed (h stack)]
  exact h stack

lemma Reads.fails (h : Reads m ts doc doc') (hu : Fails m us doc') : Fails m (ts ++ us) doc := by
  intro stack
  rw [feed_append, h stack]
  exact hu stack

lemma Quiet.refl (doc : XmlDoc) : Quiet doc doc := ⟨rfl, rfl, rfl⟩

lemma Quiet.trans {doc'' : XmlDoc} (h : Quiet doc doc') (h' : Quiet doc' doc'') : Quiet doc doc'' :=
  ⟨h'.site.trans h.site, h'.type.trans h.type, h'.name.trans h.name⟩

lemma Passes.append (h : Passes m ts doc) (hu : ∀ doc', Quiet doc doc' → Passes m us doc') :
    Passes m (ts ++ us) doc := by
  rcases h with ⟨doc₁, hr₁, hq₁⟩ | hf
  · rcases hu doc₁ hq₁ with ⟨doc₂, hr₂, hq₂⟩ | hf
    · exact Or.inl ⟨doc₂, hr₁.append hr₂, hq₁.trans hq₂⟩
    · exact Or.inr (hr₁.fails hf)
  · exact Or.inr (hf.append us)

lemma passes_nil : Passes m [] doc := Or.inl ⟨doc, Reads.nil, .refl doc⟩

lemma passes_text (t : Text) : Passes m [.text t] doc :=
  Or.inl ⟨_, reads_text t, rfl, rfl, rfl⟩

/-! ### The fields of an item -/

/-- The elements of an item besides its type and name. -/
def Elm.isField : Elm → Bool
  | .size | .modtime | .ascii | .linktarget | .checksum | .protection | .server_modtime
  | .true | .false => Bool.true
  | _ => Bool.false

lemma opened_quiet {e : Elm} (he : e.isField) : Quiet doc (opened doc e) := by
  cases e
  all_goals cases he
  all_goals exact ⟨rfl, rfl, rfl⟩

lemma endElement_quiet {e : Elm} (he : e.isField)
    (h : endElement m doc (some e) e.name = .ok doc') : Quiet doc doc' := by
  cases e
  all_goals cases he
  all_goals simp only [endElement, readTime] at h
  -- the checks of checksums, times and booleans may throw
  all_goals first
    | cases h
      exact ⟨rfl, rfl, rfl⟩
    | split_ifs at h <;> cases h
      exact ⟨rfl, rfl, rfl⟩

lemma feed_stop_error {e : Elm} {error : ParseError}
    (h : endElement m doc (some e) e.name = .error error) (stack : List (Option Elm)) :
    (feed m [.stop e.name] (live doc (some e :: stack))).failure.isSome := by
  simp [feed, Token.events, neEvent, neEndElement, live, h]

lemma passes_element {e : Elm} (he : e.isField) (h : ∀ doc', Quiet doc doc' → Passes m ts doc') :
    Passes m (element e ts) doc := by
  have hopen : Quiet doc (opened doc e) := opened_quiet he
  rcases h _ hopen with ⟨doc₁, hr, hq⟩ | hf
  · cases hend : endElement m doc₁ (some e) e.name with
    | ok doc₂ =>
      have hclose := endElement_quiet he hend
      exact Or.inl ⟨doc₂, reads_element hr hend, (hopen.trans hq).trans hclose⟩
    | error error =>
      refine Or.inr fun stack => ?_
      unfold element
      rw [feed_append, feed_append, feed_start, hr]
      exact feed_stop_error hend stack
  · refine Or.inr fun stack => ?_
    unfold element
    rw [feed_append, feed_append, feed_start, feed_failed (hf _)]
    exact hf _

lemma passes_empty {e : Elm} (he : e.isField) : Passes m [.empty e.name []] doc :=
  passes_element he fun _ _ => passes_nil

lemma passes_leaf {e : Elm} (he : e.isField) (t : Text) : Passes m (leaf e t) doc :=
  passes_element he fun _ _ => passes_text t

lemma modeTokens_passes (mode : UInt32) : Passes m (modeTokens mode) doc := by
  unfold modeTokens
  split_ifs
  · exact passes_leaf rfl _
  · exact passes_nil

lemma fieldTokens_passes (o : SiteOptions) (f : SiteFile) : Passes m (fieldTokens o f) doc := by
  unfold fieldTokens
  cases f.type with
  | dir => exact passes_nil
  | link => exact passes_leaf rfl _
  | file =>
    apply Passes.append
    · apply Passes.append
      · apply Passes.append (passes_leaf rfl _)
        intro doc' _
        unfold methodTokens
        cases o.stateMethod with
        | checksum => exact passes_leaf rfl _
        | timesize => exact passes_leaf rfl _
      · intro doc' _
        apply passes_element rfl
        intro doc'' _
        cases f.storedState.ascii with
        | true => exact passes_empty rfl
        | false => exact passes_empty rfl
    · intro doc' _
      unfold serverTokens
      split_ifs
      · exact passes_leaf rfl _
      · exact passes_nil

end Passing

/-! ### The items -/

/-- `StoresAll keys site site'`: `site'` results from storing states with these types and
names one after the other, where the server state of an entry may be set as well. -/
inductive StoresAll : List (FileType × Text) → Site → Site → Prop
  | nil {site : Site} : StoresAll [] site site
  | cons {type : FileType} {n : Text} {keys : List (FileType × Text)} {state : FileState}
      {site site₁ site' : Site} : state.filename = some n → state.existing = true →
      (site₁ = (fileSetStored type state site).1 ∨ ∃ server : FileState,
        site₁ = write { (fileSetStored type state site).2 with serverState := server }
          (fileSetStored type state site).1) →
      StoresAll keys site₁ site' → StoresAll ((type, n) :: keys) site site'

/-- The type and the name under which an entry is stored. -/
def storedKey (f : SiteFile) : FileType × Text := (f.type, f.storedState.filename.getD [])

/-- The entry has a name that is a C string. -/
def Named (f : SiteFile) : Prop := ∃ n, f.storedState.filename = some n ∧ 0 ∉ n

section Items
variable {m : DataModel} {o : SiteOptions} {f : SiteFile}

lemma reads_item_or_fails (hf : Named f) (doc : XmlDoc) :
    (∃ doc', Reads m (itemTokens o f) doc doc' ∧
      StoresAll [storedKey f] doc.site doc'.site) ∨ Fails m (itemTokens o f) doc := by
  obtain ⟨n, hn, hnul⟩ := hf
  have hstart : Holds (opened doc .item) doc.site doc.type { mode := INVALID_MODE } doc.server :=
    ⟨rfl, rfl, rfl, rfl⟩
  obtain ⟨doc₁, hr₁, hh₁⟩ := (leaves_type (m := m) hstart f.type).append fun doc' h' =>
    leaves_name h' hnul
  have hfields : Passes m (modeTokens f.storedState.mode ++ fieldTokens o f) doc₁ :=
    (modeTokens_passes _).append fun _ _ => fieldTokens_passes o f
  have htokens : itemTokens o f = element .item ((flag .type (typeElm f.type) ++
      nameTokens (some n)) ++ (modeTokens f.storedState.mode ++ fieldTokens o f)) ++
      [.text [10]] := by
    simp [itemTokens, hn]
  rw [htokens]
  rcases hfields with ⟨doc₂, hr₂, hq⟩ | hfail
  · left
    have hend : endElement m doc₂ (some .item) Elm.item.name = .ok (endItem doc₂) := rfl
    have hitem := reads_element (hr₁.append hr₂) hend
    refine ⟨_, hitem.append (reads_text [10]), ?_⟩
    have hname : doc₂.stored.filename = some n := by rw [hq.name, hh₁.stored]
    have hsite : doc₂.site = doc.site := by rw [hq.site, hh₁.site]
    have htype : doc₂.type = f.type := by rw [hq.type, hh₁.type]
    have hkey : storedKey f = (f.type, n) := by rw [storedKey, hn, Option.getD_some]
    rw [hkey]
    apply @StoresAll.cons _ _ _ { doc₂.stored with existing := true } _ _ _ hname rfl _ .nil
    change (endItem doc₂).site = _ ∨ ∃ server : FileState, (endItem doc₂).site = _
    rw [← hsite, ← htype]
    unfold endItem
    split_ifs
    · exact Or.inr ⟨_, rfl⟩
    · exact Or.inl rfl
  · right
    apply Fails.append
    intro stack
    unfold element
    have hcontent := hr₁.fails hfail (some .item :: stack)
    rw [feed_append, feed_append, feed_start, feed_failed hcontent]
    exact hcontent

lemma StoresAll.append {keys keys' : List (FileType × Text)} {site site' site'' : Site}
    (h : StoresAll keys site site') (h' : StoresAll keys' site' site'') :
    StoresAll (keys ++ keys') site site'' := by
  induction h with
  | nil => exact h'
  | cons hn hex hsite _ ih => exact .cons hn hex hsite (ih h')

theorem reads_items_or_fails (l : List SiteFile) (hl : ∀ f ∈ l, Named f) (doc : XmlDoc) :
    (∃ doc', Reads m (l.flatMap (itemTokens o)) doc doc' ∧
      StoresAll (l.map storedKey) doc.site doc'.site) ∨ Fails m (l.flatMap (itemTokens o)) doc := by
  induction l generalizing doc with
  | nil => exact Or.inl ⟨doc, Reads.nil, .nil⟩
  | cons f l ih =>
    rw [List.flatMap_cons]
    rcases reads_item_or_fails (o := o) (hl f (by simp)) doc with ⟨doc₁, hr₁, hs₁⟩ | hf
    · rcases ih (fun g hg => hl g (List.mem_cons_of_mem f hg)) doc₁ with ⟨doc₂, hr₂, hs₂⟩ | hf
      · exact Or.inl ⟨doc₂, hr₁.append hr₂, hs₁.append hs₂⟩
      · exact Or.inr (hr₁.fails hf)
    · exact Or.inr (hf.append _)

end Items

/-! ### Link targets -/

/-- The entry with another target. -/
def retarget (g : Text → Text) (f : SiteFile) : SiteFile :=
  { f with storedState :=
    { f.storedState with linktarget := some (g (f.storedState.linktarget.getD [])) } }

/-- The site that the parser sees when it reads every link target `t` as the text `g t`. -/
def retargeted (g : Text → Text) (site : Site) : Site :=
  { site with files := site.files.map (retarget g) }

/-- Either the parser rejects what is written of the site, or it reads every link target as
character data. -/
def TargetsAreText (P : Xml.Parser) (site : Site) : Prop :=
  (P.parse (siteWriteStoredState site).1).2 = true → ∃ g : Text → Text,
    bytewise (P.parse (siteWriteStoredState site).1).1 =
      bytewise (stateDocument (retargeted g site)).events

section Targets
variable {P : Xml.Parser} {m : DataModel} {site dest : Site}

lemma storedFiles_retargeted (g : Text → Text) (site : Site) :
    storedFiles (retargeted g site) = (storedFiles site).map (retarget g) := by
  unfold storedFiles retargeted
  rw [List.filter_map]
  rfl

lemma stateDocument_retargeted_id (site : Site) :
    stateDocument (retargeted id site) = stateDocument site := by
  have hitems : itemsTokens (retargeted id site) = itemsTokens site := by
    unfold itemsTokens
    rw [storedFiles_retargeted, List.flatMap_map]
    rfl
  unfold stateDocument
  rw [hitems]
  rfl

/-- Plain targets are read as text. -/
lemma targetsAreText_of_plain (h : ∀ f ∈ storedFiles site, PlainTarget f) :
    TargetsAreText P site := by
  intro _
  refine ⟨id, ?_⟩
  rw [stateDocument_retargeted_id, siteWriteStoredState_render]
  exact P.delivers _ (stateDocument_wellFormed h)

/-- A reading that succeeds stores the names of all items in their order. -/
theorem readBack_stores (hnames : ∀ f ∈ storedFiles site, Named f) (ht : TargetsAreText P site)
    (hok : (readBack P m site dest).lastError = none) :
    StoresAll ((storedFiles site).map storedKey)
      { dest with storedStateMethod := site.opts.stateMethod } (readBack P m site dest).site := by
  unfold readBack parseStorageFile at hok ⊢
  dsimp only at hok ⊢
  cases haccept : (P.parse (siteWriteStoredState site).1).2 with
  | false =>
    rw [haccept] at hok
    split at hok <;> cases hok
  | true =>
    obtain ⟨g, hevents⟩ := ht haccept
    rw [haccept, neEvents_document hevents] at hok
    rw [neEvents_document hevents]
    obtain ⟨doc, hsite, _, hfeed⟩ := feed_stateDocument m (retargeted g site) dest
    have hnames' : ∀ f ∈ storedFiles (retargeted g site), Named f := by
      intro f hf
      rw [storedFiles_retargeted] at hf
      obtain ⟨f', hf', rfl⟩ := List.mem_map.mp hf
      exact hnames f' hf'
    have hkeys : (storedFiles (retargeted g site)).map storedKey =
        (storedFiles site).map storedKey := by
      rw [storedFiles_retargeted, List.map_map]
      rfl
    rcases reads_items_or_fails (m := m) (o := (retargeted g site).opts) _ hnames' doc with
      ⟨doc', hr, hstores⟩ | hfail
    · rw [hr, feed_closing] at hfeed
      rw [hfeed]
      rw [hkeys, hsite] at hstores
      exact hstores
    · have hfailed := hfail [some .items, some .sitestate]
      rw [feed_failed hfailed] at hfeed
      rw [hfeed] at hok
      obtain ⟨e, he⟩ := Option.isSome_iff_exists.mp hfailed
      rw [he] at hok
      cases hok

end Targets

end Sitecopy.StateFile
