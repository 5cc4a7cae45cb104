import Sitecopy.StateFileReading

/-!
# Round trips of the stored state file

Reading the written file into an empty list gives back every stored entry: what it
compares by is unchanged, and the directories stay in order. The server states come back
only while no entry without a server time follows one with a server time.
-/
namespace Sitecopy.StateFile
open SiteModel FileSet FileSetSpec Numerals Xml

/-! ### One item -/

/-- What the fields of an item do to the stored state. -/
def readFields (o : SiteOptions) (f : SiteFile) (stored : FileState) : FileState :=
  let s := f.storedState
  match f.type with
  | .dir => stored
  | .link => { stored with linktarget := s.linktarget }
  | .file =>
    match o.stateMethod with
    | .checksum => { stored with size := s.size, checksum := s.checksum, ascii := s.ascii }
    | .timesize => { stored with size := s.size, time := s.time, ascii := s.ascii }

/-- The stored state that the file records for an entry. -/
def savedState (o : SiteOptions) (f : SiteFile) : FileState :=
  readFields o f
    { filename := f.storedState.filename, mode := f.storedState.mode, existing := true }

/-- Whether the item of an entry carries a server time. -/
def carriesServer (f : SiteFile) : Bool := f.type = .file && f.serverState.existing

/-- The accumulated server state after the item of `f`. -/
def serverAfter (f : SiteFile) (server : FileState) : FileState :=
  if carriesServer f then { server with time := f.serverState.time, existing := true } else server

/-- The site after the end of the item of `f`. -/
def readItemSite (o : SiteOptions) (f : SiteFile) (server : FileState) (site : Site) : Site :=
  let r := fileSetStored f.type (savedState o f) site
  if server.existing then write { r.2 with serverState := server } r.1 else r.1

section Item
variable {m : DataModel} {o : SiteOptions} {f : SiteFile} {doc : XmlDoc} {site : Site}
  {type : FileType} {stored server : FileState}

lemma leaves_method (h : Holds doc site type stored server) (hs : Recordable m f)
    (hf : f.type = .file) :
    Leaves m (methodTokens o f.storedState) doc site type
      (match o.stateMethod with
        | .checksum => { stored with checksum := f.storedState.checksum }
        | .timesize => { stored with time := f.storedState.time }) server := by
  unfold methodTokens
  cases o.stateMethod with
  | checksum => exact leaves_checksum h _
  | timesize => exact leaves_time h (hs.time hf).1 (hs.time hf).2

lemma leaves_fields (h : Holds doc site type stored server) (hs : Recordable m f) :
    Leaves m (fieldTokens o f) doc site type (readFields o f stored) (serverAfter f server) := by
  unfold fieldTokens readFields serverAfter carriesServer
  cases hf : f.type with
  | dir => exact h.leaves
  | link =>
    obtain ⟨t, ht⟩ := hs.target hf
    simp only [ht, Option.getD_some]
    exact leaves_target h t
  | file =>
    have hfields := (((leaves_size h (hs.size hf).1 (hs.size hf).2).append fun doc₁ h₁ =>
      leaves_method (o := o) h₁ hs hf).append fun doc₂ h₂ =>
        leaves_ascii h₂ f.storedState.ascii).append fun doc₃ h₃ =>
          leaves_server h₃ (hs.serverTime hf)
    simp only [decide_true, Bool.true_and]
    cases hm : o.stateMethod <;> simp only [hm] at hfields ⊢ <;> exact hfields

lemma existing_readFields (stored : FileState) :
    { readFields o f stored with existing := true } =
      readFields o f { stored with existing := true } := by
  unfold readFields
  cases f.type <;> cases o.stateMethod <;> rfl

/-- The tokens of an item hand its stored state to `file_set_stored`. -/
theorem reads_item (hs : Recordable m f) (doc : XmlDoc) :
    ∃ doc', Reads m (itemTokens o f) doc doc' ∧ doc'.server = serverAfter f doc.server ∧
      doc'.site = readItemSite o f (serverAfter f doc.server) doc.site := by
  obtain ⟨n, hn, _, hnul⟩ := hs.name
  have hstart : Holds (opened doc .item) doc.site doc.type { mode := INVALID_MODE } doc.server :=
    ⟨rfl, rfl, rfl, rfl⟩
  have hcontent : Leaves m (List.flatten [flag .type (typeElm f.type),
      nameTokens f.storedState.filename, modeTokens f.storedState.mode, fieldTokens o f])
      (opened doc .item) doc.site f.type
      (readFields o f { filename := some n, mode := f.storedState.mode })
      (serverAfter f doc.server) := by
    simp only [List.flatten_cons, List.flatten_nil, List.append_nil, hn]
    refine (leaves_type hstart f.type).append fun doc₁ h₁ => ?_
    refine (leaves_name h₁ hnul).append fun doc₂ h₂ => ?_
    exact (leaves_mode h₂ rfl f.storedState.mode).append fun doc₃ h₃ => leaves_fields h₃ hs
  obtain ⟨doc₁, hr, hh⟩ := hcontent
  have hitem : Reads m (element .item (List.flatten [flag .type (typeElm f.type),
      nameTokens f.storedState.filename, modeTokens f.storedState.mode, fieldTokens o f])) doc
      (endItem doc₁) := reads_element hr rfl
  refine ⟨_, hitem.append (reads_text [10]), hh.server, ?_⟩
  change (endItem doc₁).site = _
  unfold endItem readItemSite savedState
  rw [hh.site, hh.type, hh.stored, hh.server, existing_readFields, hn]

end Item

/-! ### The list that is read -/

/-- A list that only holds stored states, as while a state file is read into an empty one. -/
structure StoredOnly (site : Site) : Prop where
  linked : WellLinked site
  alone : ∀ f ∈ site.files, f.localState.existing = false

/-- What is recorded of an entry and its server. -/
def view (f : SiteFile) : FileType × FileState × FileState := (f.type, f.storedState, f.serverState)

/-- The entry that the item of `f` leaves. -/
def readEntry (o : SiteOptions) (f : SiteFile) (server : FileState) (site : Site) : SiteFile :=
  { newEntry f.type (savedState o f) site .storedSlot .deleted with serverState := server }

section ReadSite
variable {o : SiteOptions} {site : Site} {type : FileType} {state : FileState}

/-- Without local states every stored state gets an entry of its own. -/
lemma create_of_storedOnly (h : StoredOnly site) :
    choosePlacement type state site .localSlot = .create := by
  cases hp : choosePlacement type state site .localSlot with
  | create => rfl
  | reuse old diff =>
    have hr := choosePlacement_reuse hp
    have hex : old.localState.existing = true := hr.existing
    rw [h.alone old hr.mem] at hex
    exact Bool.noConfusion hex

lemma fileSetStored_storedOnly (h : StoredOnly site) :
    fileSetStored type state site =
      (updateStats (addStats (newEntry type state site .storedSlot .deleted)
        (fileInsert type (newEntry type state site .storedSlot .deleted) site)),
        newEntry type state site .storedSlot .deleted) := by
  unfold fileSetStored fileSet
  rw [create_of_storedOnly h]

/-- Writing the new entry back, with its server state. -/
lemma write_new (h : WellLinked site) {new g : SiteFile} (hn : new.addr = site.freshAddr)
    (hg : g.addr = site.freshAddr) :
    (insertFile type new site.files).map (fun f => if f.addr = g.addr then g else f) =
      insertFile type g site.files := by
  rw [hg]
  have hold : site.files.map (fun f => if f.addr = site.freshAddr then g else f) = site.files := by
    refine (List.map_congr_left fun f hf => if_neg ?_).trans (List.map_id _)
    have hlt := h.bounded f hf
    omega
  unfold insertFile
  split_ifs
  · simp [hn]
  · simp [List.map_append, hold, hn]
  · simp [hold, hn]

lemma readItemSite_files (h : StoredOnly site) (f : SiteFile) {server : FileState}
    (hserver : server.existing = false → server = {}) :
    (readItemSite o f server site).files =
      insertFile f.type (readEntry o f server site) site.files := by
  unfold readItemSite
  rw [fileSetStored_storedOnly h]
  by_cases hex : server.existing = true
  · simp only [hex, ↓reduceIte]
    exact write_new h.linked newEntry_addr newEntry_addr
  · rw [Bool.not_eq_true] at hex
    simp only [hex, Bool.false_eq_true, ↓reduceIte]
    rw [hserver hex]
    rfl

lemma readItemSite_storedOnly (h : StoredOnly site) (f : SiteFile) {server : FileState}
    (hserver : server.existing = false → server = {}) :
    StoredOnly (readItemSite o f server site) := by
  have hfresh : (readItemSite o f server site).freshAddr = site.freshAddr + 1 := by
    unfold readItemSite
    rw [fileSetStored_storedOnly h]
    split_ifs <;> rfl
  have hfiles := readItemSite_files (o := o) h f hserver
  refine ⟨⟨?_, fun g hg => ?_⟩, fun g hg => ?_⟩
  · rw [hfiles, ((insertFile_perm _ _ _).map SiteFile.addr).nodup_iff, List.map_cons,
      List.nodup_cons]
    refine ⟨fun hmem => ?_, h.linked.nodup⟩
    obtain ⟨g, hg, ha⟩ := List.mem_map.mp hmem
    have hlt := h.linked.bounded g hg
    have ha' : g.addr = site.freshAddr := ha
    omega
  · rw [hfresh]
    rw [hfiles, mem_insertFile] at hg
    rcases hg with rfl | hg
    · change site.freshAddr < site.freshAddr + 1
      omega
    · have hlt := h.linked.bounded g hg
      omega
  · rw [hfiles, mem_insertFile] at hg
    rcases hg with rfl | hg
    · rfl
    · exact h.alone g hg

lemma readItemSite_method (h : StoredOnly site) (f : SiteFile) (server : FileState) :
    (readItemSite o f server site).storedStateMethod = site.storedStateMethod := by
  unfold readItemSite
  rw [fileSetStored_storedOnly h]
  split_ifs <;> rfl

end ReadSite

/-! ### All items -/

/-- The entries in the order of the file, each with the server state it is given. -/
def served : FileState → List SiteFile → List (SiteFile × FileState)
  | _, [] => []
  | server, f :: rest => (f, serverAfter f server) :: served (serverAfter f server) rest

/-- How entries inserted one after the other end up: directories behind, others in front. -/
def arrange {α : Type} (isDir : α → Bool) (before l : List α) : List α :=
  (l.filter fun x => !isDir x).reverse ++ before ++ l.filter isDir

lemma arrange_cons {α : Type} (isDir : α → Bool) (before : List α) (x : α) (l : List α) :
    arrange isDir before (x :: l) =
      arrange isDir (if isDir x then before ++ [x] else x :: before) l := by
  unfold arrange
  cases hx : isDir x <;> simp [hx]

lemma arrange_map {α β : Type} (isDir : α → Bool) (isDir' : β → Bool) (g : α → β)
    (h : ∀ x, isDir' (g x) = isDir x) (l : List α) :
    (arrange isDir [] l).map g = arrange isDir' [] (l.map g) := by
  unfold arrange
  simp [List.filter_map, Function.comp_def, h]

lemma arrange_perm {α : Type} (isDir : α → Bool) (l : List α) : (arrange isDir [] l).Perm l := by
  unfold arrange
  rw [List.append_nil]
  have hswap := List.filter_append_perm (fun x => !isDir x) l
  simp only [Bool.not_not] at hswap
  exact ((List.reverse_perm _).append_right _).trans hswap

lemma mem_arrange {α : Type} {isDir : α → Bool} {l : List α} {x : α} :
    x ∈ arrange isDir [] l ↔ x ∈ l := (arrange_perm isDir l).mem_iff

/-- The view of an entry that was read from its item. -/
def readView (o : SiteOptions) (p : SiteFile × FileState) : FileType × FileState × FileState :=
  (p.1.type, savedState o p.1, p.2)

def isDirView (v : FileType × FileState × FileState) : Bool := v.1 = .dir

lemma serverAfter_default {f : SiteFile} {server : FileState}
    (h : server.existing = false → server = {}) :
    (serverAfter f server).existing = false → serverAfter f server = {} := by
  unfold serverAfter
  split_ifs
  · simp
  · exact h

section Items
variable {m : DataModel} {o : SiteOptions}

lemma insertFile_view {type : FileType} {g : SiteFile} (hg : g.type = type)
    (files : List SiteFile) :
    (insertFile type g files).map view =
      if isDirView (view g) then files.map view ++ [view g] else view g :: files.map view := by
  unfold insertFile
  have hdir : isDirView (view g) = true ↔ type = .dir := by simp [isDirView, view, hg]
  simp only [hdir]
  split_ifs with he hd <;> simp_all

theorem reads_items (l : List SiteFile) (hl : ∀ f ∈ l, Recordable m f) (doc : XmlDoc)
    (hsite : StoredOnly doc.site) (hserver : doc.server.existing = false → doc.server = {}) :
    ∃ doc', Reads m (l.flatMap (itemTokens o)) doc doc' ∧
      doc'.site.storedStateMethod = doc.site.storedStateMethod ∧
      doc'.site.files.map view =
        arrange isDirView (doc.site.files.map view) ((served doc.server l).map (readView o)) := by
  induction l generalizing doc with
  | nil => exact ⟨doc, Reads.nil, rfl, by simp [served, arrange]⟩
  | cons f l ih =>
    obtain ⟨doc₁, hr₁, hs₁, hsite₁⟩ := reads_item (o := o) (hl f (by simp)) doc
    have hdefault := serverAfter_default (f := f) hserver
    have hsite' : StoredOnly doc₁.site := by
      rw [hsite₁]
      exact readItemSite_storedOnly hsite f hdefault
    obtain ⟨doc₂, hr₂, hm₂, hf₂⟩ :=
      ih (fun g hg => hl g (List.mem_cons_of_mem f hg)) doc₁ hsite' (by rw [hs₁]; exact hdefault)
    refine ⟨doc₂, hr₁.append hr₂, ?_, ?_⟩
    · rw [hm₂, hsite₁, readItemSite_method hsite]
    · have hfiles := readItemSite_files (o := o) hsite f hdefault
      have hview := @insertFile_view f.type
        (readEntry o f (serverAfter f doc.server) doc.site) rfl doc.site.files
      rw [hf₂, hs₁, hsite₁, hfiles, hview, served, List.map_cons, arrange_cons]
      rfl

end Items

/-! ### The whole file -/

section Options
variable {m : DataModel} {doc : XmlDoc} {site site' : Site} {type : FileType}
  {stored server : FileState}

lemma leaves_line (h : Holds doc site type stored server) {line : List Token}
    (hline : ∀ doc', Holds doc' site type stored server →
      Leaves m line doc' site' type stored server) :
    Leaves m (optionLine true line) doc site' type stored server := by
  simp only [optionLine, ↓reduceIte, List.flatten_cons, List.flatten_nil, List.append_nil]
  refine (leaves_text h _).append fun doc₁ h₁ => ?_
  exact (hline doc₁ h₁).append fun doc₂ h₂ => leaves_text h₂ _

/-- A line that may be missing because it changes nothing. -/
lemma leaves_optional (h : Holds doc site type stored server) (b : Bool) {line : List Token}
    (hline : ∀ doc', Holds doc' site type stored server →
      Leaves m line doc' site type stored server) :
    Leaves m (optionLine b line) doc site type stored server := by
  cases b with
  | true => exact leaves_line h hline
  | false => exact h.leaves

lemma leaves_declined (h : Holds doc site type stored server) {name : Text}
    (hname : mapid name = none) :
    Leaves m [.empty name []] doc site type stored server :=
  ⟨doc, reads_declined hname, h⟩

lemma leaves_stateMethod (h : Holds doc site type stored server) (method : StateMethod) :
    Leaves m (flag .opt_state_method (methodElm method)) doc
      { site with storedStateMethod := method } type stored server := by
  cases method <;>
    exact ⟨_, reads_flag rfl rfl, by rw [← h.site]; rfl, h.type, h.stored, h.server⟩

/-- The options set the stored state method. -/
lemma leaves_options (h : Holds doc site type stored server) (o : SiteOptions) :
    Leaves m (optionsTokens o) doc { site with storedStateMethod := o.stateMethod } type stored
      server := by
  have hcontent : Leaves m (List.flatten [[.text [10]],
      optionLine true [.empty Elm.opt_saved_by.name
        [(ascii "package", ascii "sitecopy"), (ascii "version", ascii "0.16.3")]],
      optionLine (o.stateMethod = .checksum) (flag .opt_checksum .opt_checksum_md5),
      optionLine true (flag .opt_state_method (methodElm o.stateMethod)),
      optionLine o.safemode [.empty (ascii "safemode") []],
      optionLine true [.empty (ascii "escaped-filenames") []]]) (opened doc .options)
      { site with storedStateMethod := o.stateMethod } type stored server := by
    simp only [List.flatten_cons, List.flatten_nil, List.append_nil]
    have hopened : Holds (opened doc .options) site type stored server :=
      ⟨h.site, h.type, h.stored, h.server⟩
    refine (leaves_text hopened _).append fun doc₁ h₁ => ?_
    refine (leaves_optional h₁ true fun doc' h' => ?_).append fun doc₂ h₂ => ?_
    · exact ⟨_, reads_empty rfl, h'.site, h'.type, h'.stored, h'.server⟩
    refine (leaves_optional h₂ _ fun doc' h' => ?_).append fun doc₃ h₃ => ?_
    · exact ⟨_, reads_flag rfl rfl, h'.site, h'.type, h'.stored, h'.server⟩
    refine (leaves_line h₃ fun doc' h' => leaves_stateMethod h' _).append fun doc₄ h₄ => ?_
    refine (leaves_optional h₄ _ fun doc' h' => ?_).append fun doc₅ h₅ => ?_
    · exact leaves_declined h' (by decide +kernel)
    exact leaves_line h₅ fun doc' h' => leaves_declined h' (by decide +kernel)
  obtain ⟨doc₁, hr, hh⟩ := hcontent
  exact ⟨_, (reads_element hr rfl).append (reads_text [10]), hh.site, hh.type, hh.stored, hh.server⟩

end Options

lemma neEvent_nil (m : DataModel) (p : NeonParser) : neEvent m p (.charData []) = p := by
  simp [neEvent, neCharData, charData]

lemma neEvent_append (m : DataModel) (p : NeonParser) (t u : Bytes) :
    neEvent m (neEvent m p (.charData t)) (.charData u) = neEvent m p (.charData (t ++ u)) := by
  simp only [neEvent, neCharData]
  split_ifs <;> simp_all [charData]

/-- What is read from the file of a site. -/
def readBack (P : Xml.Parser) (m : DataModel) (site dest : Site) : ReadResult :=
  parseStorageFile P m (siteWriteStoredState site).1 dest

/-- The end tags that follow the items. -/
def closingTokens : List Token := [.stop Elm.items.name, .text [10], .stop Elm.sitestate.name]

lemma feed_closing (m : DataModel) (doc : XmlDoc) :
    feed m closingTokens (live doc [some .items, some .sitestate]) = live (charData doc [10]) [] :=
  rfl

/-- The tokens before the items. -/
def openingTokens (o : SiteOptions) : List Token :=
  [.start Elm.sitestate.name [(ascii "version", ascii "1.0")]] ++
    ([.text [10]] ++ optionsTokens o) ++ [.start Elm.items.name []] ++ [.text [10]]

lemma stateDocument_tokens (site : Site) : (stateDocument site).tokens =
    openingTokens site.opts ++ (storedFiles site).flatMap (itemTokens site.opts) ++
      closingTokens := by
  simp [Document.tokens, stateDocument, itemsTokens, element, openingTokens, closingTokens]

/-- What is read before the items, and the parser that then reads them. -/
lemma feed_stateDocument (m : DataModel) (site dest : Site) :
    ∃ doc : XmlDoc, doc.site = { dest with storedStateMethod := site.opts.stateMethod } ∧
      doc.server = {} ∧ feed m (stateDocument site).tokens (live { site := dest } []) =
        feed m closingTokens (feed m ((storedFiles site).flatMap (itemTokens site.opts))
          (live doc [some .items, some .sitestate])) := by
  have hroot : Holds (opened { site := dest } .sitestate) dest .file {} {} := ⟨rfl, rfl, rfl, rfl⟩
  obtain ⟨doc, hr, hh⟩ := (leaves_text (m := m) hroot [10]).append fun doc' h' =>
    leaves_options h' site.opts
  refine ⟨charData (opened doc .items) [10], hh.site, hh.server, ?_⟩
  rw [stateDocument_tokens, openingTokens]
  simp only [feed_append m _ closingTokens, feed_append m _ (List.flatMap _ _)]
  rw [feed_append, feed_append, feed_append, feed_start, hr, feed_start]
  rfl

/-- The parser sees the document, however it cuts the character data. -/
lemma neEvents_document {P : Xml.Parser} {m : DataModel} {site dest : Site} {file : Text}
    (h : bytewise (P.parse file).1 = bytewise (stateDocument site).events) :
    (P.parse file).1.foldl (neEvent m) { doc := { site := dest } } =
      feed m (stateDocument site).tokens (live { site := dest } []) := by
  rw [← foldl_bytewise (neEvent_nil m) (neEvent_append m), h,
    foldl_bytewise (neEvent_nil m) (neEvent_append m)]
  rfl

/-- What is read from a file that the parser reports as the document of a site. -/
theorem parsed_view {P : Xml.Parser} {m : DataModel} {site dest : Site} {file : Text}
    (haccept : (P.parse file).2 = true)
    (hdelivers : bytewise (P.parse file).1 = bytewise (stateDocument site).events)
    (h : ∀ f ∈ storedFiles site, Recordable m f) (hempty : dest.files = []) :
    (parseStorageFile P m file dest).lastError = none ∧
      (parseStorageFile P m file dest).site.storedStateMethod = site.opts.stateMethod ∧
      (parseStorageFile P m file dest).site.files.map view =
        arrange isDirView [] ((served {} (storedFiles site)).map (readView site.opts)) := by
  obtain ⟨doc, hsite, hserver, hfeed⟩ := feed_stateDocument m site dest
  have honly : StoredOnly doc.site := by
    rw [hsite]
    refine ⟨⟨?_, ?_⟩, ?_⟩ <;> simp [hempty]
  obtain ⟨doc', hr, hmethod, hfiles⟩ := reads_items (o := site.opts) (storedFiles site) h doc
    honly fun _ => hserver
  rw [hr, feed_closing] at hfeed
  unfold parseStorageFile
  dsimp only
  rw [haccept, (neEvents_document hdelivers).trans hfeed]
  refine ⟨rfl, ?_, ?_⟩
  · change doc'.site.storedStateMethod = _
    rw [hmethod, hsite]
  · change doc'.site.files.map view = _
    rw [hfiles, hserver, hsite]
    simp only [hempty, List.map_nil]

theorem readBack_view (P : Xml.Parser) {m : DataModel} {site dest : Site}
    (h : ∀ f ∈ storedFiles site, Storable m f) (hempty : dest.files = []) :
    (readBack P m site dest).lastError = none ∧
      (readBack P m site dest).site.storedStateMethod = site.opts.stateMethod ∧
      (readBack P m site dest).site.files.map view =
        arrange isDirView [] ((served {} (storedFiles site)).map (readView site.opts)) := by
  have hwf := stateDocument_wellFormed fun f hf => (h f hf).plainTarget
  have hdelivers := P.delivers _ hwf
  have haccept := P.accepts _ hwf
  rw [← siteWriteStoredState_render] at hdelivers haccept
  exact parsed_view haccept hdelivers (fun f hf => (h f hf).recordable) hempty

/-! ### What comes back -/

/-- The properties of a stored entry that the file keeps: of a regular file the size, the
mode of transfer, and the time or the checksum as the state method dictates. -/
structure Item where
  type : FileType
  filename : Option Text
  mode : UInt32
  contents : Option (ℤ × Bool × (ℤ ⊕ Checksum))
  target : Option Text
  deriving DecidableEq

def itemOf (method : StateMethod) (type : FileType) (s : FileState) : Item where
  type := type
  filename := s.filename
  mode := s.mode
  contents :=
    if type = .file then
      some (s.size, s.ascii, match method with
        | .timesize => .inl s.time
        | .checksum => .inr s.checksum)
    else none
  target := if type = .link then s.linktarget else none

def item (method : StateMethod) (f : SiteFile) : Item := itemOf method f.type f.storedState

lemma itemOf_saved (o : SiteOptions) (f : SiteFile) :
    itemOf o.stateMethod f.type (savedState o f) = item o.stateMethod f := by
  unfold item itemOf savedState readFields
  cases f.type <;> cases o.stateMethod <;> rfl

lemma saved_existing (o : SiteOptions) (f : SiteFile) : (savedState o f).existing = true := by
  unfold savedState readFields
  cases f.type <;> cases o.stateMethod <;> rfl

lemma served_fst (server : FileState) (l : List SiteFile) : (served server l).map Prod.fst = l := by
  induction l generalizing server with
  | nil => rfl
  | cons f l ih => rw [served, List.map_cons, ih]

/-- A list that shows the stored entries of a site, seen through what its items show. -/
lemma arranged_map {o : SiteOptions} {files l : List SiteFile}
    (hview : files.map view = arrange isDirView [] ((served {} l).map (readView o))) {α : Type}
    (g : FileType × FileState × FileState → α) :
    files.map (fun f => g (view f)) =
      (arrange (fun p : SiteFile × FileState => p.1.type = .dir) []
        (served {} l)).map fun p => g (readView o p) := by
  have hmap := congrArg (List.map g) hview
  rw [List.map_map] at hmap
  refine hmap.trans ?_
  rw [← arrange_map (fun p : SiteFile × FileState => decide (p.1.type = .dir)) _
    (readView o) (fun _ => rfl), List.map_map]
  rfl

/-- The items of such a list. -/
lemma arranged_items {o : SiteOptions} {files l : List SiteFile}
    (hview : files.map view = arrange isDirView [] ((served {} l).map (readView o))) :
    files.map (item o.stateMethod) =
      (arrange (fun f : SiteFile => f.type = .dir) [] l).map (item o.stateMethod) := by
  refine (arranged_map hview fun v => itemOf o.stateMethod v.1 v.2.1).trans ?_
  have hfst := arrange_map (fun p : SiteFile × FileState => decide (p.1.type = .dir))
    (fun f : SiteFile => decide (f.type = .dir)) Prod.fst (fun _ => rfl) (served {} l)
  rw [served_fst] at hfst
  rw [← hfst, List.map_map]
  exact List.map_congr_left fun p _ => itemOf_saved o p.1

/-- A site with two stored files, of which one has a server time, and a directory. -/
def savedSite : Site where
  opts := {}
  files :=
    [{ addr := 0
       storedState :=
        { filename := some (ascii "a b"), size := 3, time := 10, existing := true, mode := 0o644 }
       serverState := { time := 11, existing := true } },
     { addr := 1
       storedState := { filename := some (ascii "c"), time := 12, existing := true } },
     { addr := 2
       type := .dir
       storedState := { filename := some (ascii "d"), existing := true, mode := INVALID_MODE } }]
  freshAddr := 3

lemma savedSite_storable : ∀ f ∈ storedFiles savedSite, Storable .lp64 f := by
  have hmem : storedFiles savedSite = savedSite.files := by decide
  rw [hmem]
  intro f hf
  simp only [savedSite, List.mem_cons, List.not_mem_nil, or_false] at hf
  rcases hf with rfl | rfl | rfl
  all_goals exact ⟨⟨_, rfl, by decide, by decide⟩, by decide, by decide, by decide, by decide⟩

/-- The state file round trip: reading what was written into an empty list gives the same
multiset of items and the same state method, and the directories in the same order. -/
theorem state_file_round_trip (P : Xml.Parser) {m : DataModel} {site dest : Site}
    (h : ∀ f ∈ storedFiles site, Storable m f) (hempty : dest.files = []) :
    (readBack P m site dest).lastError = none ∧
      (readBack P m site dest).site.storedStateMethod =
        (siteWriteStoredState site).2.storedStateMethod ∧
      (∀ f ∈ (readBack P m site dest).site.files, f.storedState.existing = true) ∧
      (((readBack P m site dest).site.files.map (item site.opts.stateMethod) : List Item) :
        Multiset Item) = ((storedFiles site).map (item site.opts.stateMethod) : List Item) ∧
      ((readBack P m site dest).site.files.filter fun f => f.type = .dir).map
          (item site.opts.stateMethod) =
        ((storedFiles site).filter fun f => f.type = .dir).map (item site.opts.stateMethod) := by
  obtain ⟨herror, hmethod, hview⟩ := readBack_view P h hempty
  have hitems := arranged_items hview
  refine ⟨herror, hmethod, fun f hf => ?_, ?_, ?_⟩
  · have hmem : view f ∈ (readBack P m site dest).site.files.map view := List.mem_map_of_mem hf
    rw [hview, mem_arrange, List.mem_map] at hmem
    obtain ⟨p, _, hp⟩ := hmem
    have hstored : savedState site.opts p.1 = f.storedState := congrArg (fun v => v.2.1) hp
    rw [← hstored]
    exact saved_existing site.opts p.1
  · rw [hitems]
    exact Multiset.coe_eq_coe.mpr ((arrange_perm _ _).map _)
  · -- the filter only looks at the type, which the item shows
    have hfilter : ∀ l : List SiteFile,
        (l.filter fun f => f.type = .dir).map (item site.opts.stateMethod) =
          (l.map (item site.opts.stateMethod)).filter fun i => i.type = .dir := by
      intro l
      rw [List.filter_map]
      rfl
    rw [hfilter, hitems, ← hfilter]
    congr 1
    unfold arrange
    simp

theorem state_file_round_trip_saved :
    (readBack scanner .lp64 savedSite { opts := {} }).lastError = none ∧
      (readBack scanner .lp64 savedSite { opts := {} }).site.storedStateMethod =
        (siteWriteStoredState savedSite).2.storedStateMethod ∧
      (∀ f ∈ (readBack scanner .lp64 savedSite { opts := {} }).site.files,
        f.storedState.existing = true) ∧
      (((readBack scanner .lp64 savedSite { opts := {} }).site.files.map (item .timesize) :
        List Item) : Multiset Item) =
          ((storedFiles savedSite).map (item .timesize) : List Item) ∧
      ((readBack scanner .lp64 savedSite { opts := {} }).site.files.filter
          fun f => f.type = .dir).map (item .timesize) =
        ((storedFiles savedSite).filter fun f => f.type = .dir).map (item .timesize) :=
  state_file_round_trip scanner savedSite_storable rfl

/-! ### Server states -/

/-- The server state that an item itself carries. -/
def ownServer (f : SiteFile) : FileState :=
  if carriesServer f then { time := f.serverState.time, existing := true } else {}

/-- The accumulated server state holds at most a time. -/
def TimeOnly (server : FileState) : Prop :=
  server = {} ∨ ∃ t : ℤ, server = { time := t, existing := true }

lemma serverAfter_timeOnly {f : SiteFile} {server : FileState} (h : TimeOnly server) :
    TimeOnly (serverAfter f server) := by
  unfold serverAfter
  split_ifs
  · rcases h with rfl | ⟨t, rfl⟩
    · exact Or.inr ⟨_, rfl⟩
    · exact Or.inr ⟨_, rfl⟩
  · exact h

lemma serverAfter_own_iff {f : SiteFile} {server : FileState} (h : TimeOnly server) :
    serverAfter f server = ownServer f ↔ (server.existing = true → carriesServer f = true) := by
  unfold serverAfter ownServer
  rcases h with rfl | ⟨t, rfl⟩ <;> cases carriesServer f <;> simp

lemma serverAfter_existing (f : SiteFile) (server : FileState) :
    (serverAfter f server).existing = true ↔ carriesServer f = true ∨ server.existing = true := by
  unfold serverAfter
  split_ifs with hc
  · simp [hc]
  · simp [hc]

/-- Each entry is served its own state iff no entry without one comes after one with one. -/
lemma served_own_iff (l : List SiteFile) {server : FileState} (h : TimeOnly server) :
    (∀ p ∈ served server l, p.2 = ownServer p.1) ↔
      (server.existing = true → ∀ f ∈ l, carriesServer f = true) ∧
        l.Pairwise fun f g => carriesServer f = true → carriesServer g = true := by
  induction l generalizing server with
  | nil => simp [served]
  | cons f l ih =>
    rw [served, List.forall_mem_cons, ih (serverAfter_timeOnly h), serverAfter_own_iff h,
      serverAfter_existing, List.forall_mem_cons, List.pairwise_cons]
    constructor
    · rintro ⟨hf, hl, hp⟩
      exact ⟨fun hs => ⟨hf hs, hl (Or.inr hs)⟩, fun g hg hc => hl (Or.inl hc) g hg, hp⟩
    · rintro ⟨hs, hf, hp⟩
      refine ⟨fun he => (hs he).1, fun he g hg => ?_, hp⟩
      rcases he with hc | he
      · exact hf g hg hc
      · exact (hs he).2 g hg

/-- Each entry gets back exactly its own server state if and only if no entry without a
server time follows, in the list that is written, one with a server time. -/
theorem server_state_round_trip_iff (P : Xml.Parser) {m : DataModel} {site dest : Site}
    (h : ∀ f ∈ storedFiles site, Storable m f) (hempty : dest.files = []) :
    ((readBack P m site dest).site.files.map fun f =>
        (item site.opts.stateMethod f, f.serverState)) =
      ((arrange (fun f : SiteFile => f.type = .dir) [] (storedFiles site)).map fun f =>
        (item site.opts.stateMethod f, ownServer f)) ↔
    (storedFiles site).Pairwise fun f g => carriesServer f = true → carriesServer g = true := by
  have hread := arranged_map (readBack_view P h hempty).2.2
    fun v => (itemOf site.opts.stateMethod v.1 v.2.1, v.2.2)
  have hfst := arrange_map (fun p : SiteFile × FileState => decide (p.1.type = .dir))
    (fun f : SiteFile => decide (f.type = .dir)) Prod.fst (fun _ => rfl)
    (served {} (storedFiles site))
  rw [served_fst] at hfst
  change List.map _ _ = _ at hread
  have hiff := @served_own_iff (storedFiles site) {} (Or.inl rfl)
  have hpair : (storedFiles site).Pairwise
      (fun f g => carriesServer f = true → carriesServer g = true) ↔
        ∀ p ∈ served {} (storedFiles site), p.2 = ownServer p.1 := by
    rw [hiff]
    simp
  rw [hpair, ← hfst, List.map_map]
  change List.map (fun f => (itemOf site.opts.stateMethod (view f).1 (view f).2.1, (view f).2.2)) _ =
    _ ↔ _
  rw [hread, List.map_inj_left]
  refine forall_congr' fun p => ?_
  rw [mem_arrange]
  refine imp_congr_right fun _ => ?_
  simp only [readView, Function.comp_apply, Prod.mk.injEq, itemOf_saved, true_and]

theorem server_state_round_trip_iff_saved :
    ((readBack scanner .lp64 savedSite { opts := {} }).site.files.map fun f =>
        (item savedSite.opts.stateMethod f, f.serverState)) =
      ((arrange (fun f : SiteFile => f.type = .dir) [] (storedFiles savedSite)).map fun f =>
        (item savedSite.opts.stateMethod f, ownServer f)) ↔
    (storedFiles savedSite).Pairwise fun f g => carriesServer f = true → carriesServer g = true :=
  server_state_round_trip_iff scanner savedSite_storable rfl

/-- The second file and the directory inherit the server time of the first file. -/
theorem server_state_inherited :
    ((readBack scanner .lp64 savedSite { opts := {} }).site.files.map fun f =>
        (item .timesize f, f.serverState)) ≠
      (arrange (fun f : SiteFile => f.type = .dir) [] (storedFiles savedSite)).map fun f =>
        (item .timesize f, ownServer f) := by
  intro heq
  have hread := arranged_map
    (@readBack_view scanner _ _ { opts := {} } savedSite_storable rfl).2.2
    fun v => v.2.2.existing
  have hsnd : (readBack scanner .lp64 savedSite { opts := {} }).site.files.map
      (fun f => f.serverState.existing) =
      (arrange (fun f : SiteFile => f.type = .dir) [] (storedFiles savedSite)).map
        fun f => (ownServer f).existing := by
    have hmap := congrArg (List.map fun x : Item × FileState => x.2.existing) heq
    rw [List.map_map, List.map_map] at hmap
    exact hmap
  have hgot : (readBack scanner .lp64 savedSite { opts := {} }).site.files.map
      (fun f => f.serverState.existing) = [true, true, true] := hread.trans (by decide)
  have hown : ((arrange (fun f : SiteFile => f.type = .dir) [] (storedFiles savedSite)).map
      fun f => (ownServer f).existing) = [false, true, false] := by decide
  rw [hgot, hown] at hsnd
  exact absurd hsnd (by decide)

end Sitecopy.StateFile
