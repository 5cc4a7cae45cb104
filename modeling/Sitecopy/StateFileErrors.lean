import Sitecopy.FileMatching
import Sitecopy.StateFileDocument

/-!
# Errors in the stored state file

`site_read_stored_state` merges each item into the files list as soon as its end tag is
read, so what stands before an error has been merged when the error is found.
-/
namespace Sitecopy.StateFileErrors
open SiteModel FileSet FileSetSpec FileMatching StateFile Xml

/-! ### The whole function -/

/-- What the file system makes of the info file. -/
inductive InfoFile
  | missing
  | unopenable
  | readable (contents : Text)
  /-- `fread` fails after these contents -/
  | broken (contents : Text)
  deriving DecidableEq, Repr

/-- What reaches the XML parser. -/
def InfoFile.contents : InfoFile → Text
  | .missing | .unopenable => []
  | .readable contents | .broken contents => contents

/-- The texts of `last_error`. -/
inductive ReadError
  | errno
  | parser (e : Option ParseError)
  deriving DecidableEq, Repr

structure StoredRead where
  site : Site
  ret : ℤ
  lastError : Option ReadError := none

/-- `site_read_stored_state`. After an error of `fread` the parser is told that the
document is at its end. -/
def siteReadStoredState (P : Parser) (m : DataModel) (file : InfoFile) (site : Site) : StoredRead :=
  match file with
  | .missing => { site := site, ret := SITE_FAILED, lastError := some .errno }
  | .unopenable => { site := site, ret := SITE_ERRORS, lastError := some .errno }
  | .readable contents =>
    let r := parseStorageFile P m contents site
    { site := r.site, ret := r.ret, lastError := r.lastError.map .parser }
  | .broken contents =>
    let r := parseStorageFile P m contents site
    { site := r.site, ret := SITE_ERRORS, lastError := some ((r.lastError.map .parser).getD .errno) }

/-! ### What a file tells the site -/

/-- One change of the site that the end of an element makes. -/
inductive Entry
  | stateMethod (method : StateMethod)
  | item (type : FileType) (stored server : FileState)
  deriving DecidableEq, Repr

def Entry.apply (site : Site) : Entry → Site
  | .stateMethod method => { site with storedStateMethod := method }
  | .item type stored server =>
    let r := fileSetStored type { stored with existing := true } site
    if server.existing then write { r.2 with serverState := server } r.1 else r.1

/-- What the end of an element tells the site. -/
def toldBy (doc : XmlDoc) : Option Elm → Option Entry
  | some .opt_state_method_timesize => some (.stateMethod .timesize)
  | some .opt_state_method_checksum => some (.stateMethod .checksum)
  | some .item => some (.item doc.type doc.stored doc.server)
  | _ => none

/-- What one event tells the site. -/
def toldAt (p : NeonParser) : Event → Option Entry
  | .endElement _ =>
    if p.failure.isSome ∨ p.prune > 0 then none else toldBy p.doc (p.stack.head?.getD none)
  | _ => none

def transcript (m : DataModel) : NeonParser → List Event → List Entry
  | _, [] => []
  | p, e :: events => (toldAt p e).toList ++ transcript m (neEvent m p e) events

/-- What the part of the file before its first error tells the site. -/
def told (P : Parser) (m : DataModel) (file : InfoFile) : List Entry :=
  match file with
  | .missing | .unopenable => []
  | .readable contents | .broken contents =>
    transcript m { doc := { site := { opts := {} } } } (P.parse contents).1

section Transcript
variable {m : DataModel}

lemma endElement_site {doc doc' : XmlDoc} {state : Option Elm} {name : Text}
    (h : endElement m doc state name = .ok doc') :
    doc'.site = (toldBy doc state).toList.foldl Entry.apply doc.site := by
  cases state with
  | none =>
    cases h
    rfl
  | some elm =>
    cases elm
    case server_modtime | modtime =>
      simp only [endElement] at h
      cases htime : readTime m doc.cdata name with
      | error e =>
        rw [htime] at h
        cases h
      | ok time =>
        rw [htime] at h
        cases h
        rfl
    case checksum | ascii =>
      simp only [endElement] at h
      split_ifs at h
      cases h
      rfl
    all_goals
      cases h
      rfl

/-- Only elements that tell the site nothing can have bad values. -/
lemma toldBy_of_error {doc : XmlDoc} {state : Option Elm} {name : Text} {e : ParseError}
    (h : endElement m doc state name = .error e) : toldBy doc state = none := by
  cases state with
  | none => rfl
  | some elm =>
    cases elm
    case opt_state_method_timesize | opt_state_method_checksum | item => cases h
    all_goals rfl

lemma startElement_site (doc : XmlDoc) (name : Text) : (startElement doc name).2.site = doc.site := by
  unfold startElement
  cases mapid name with
  | none => rfl
  | some state =>
    dsimp only
    split_ifs <;> rfl

lemma neEvent_site (p : NeonParser) (e : Event) :
    (neEvent m p e).doc.site = (toldAt p e).toList.foldl Entry.apply p.doc.site := by
  cases e with
  | startElement name attrs =>
    change (neStartElement p name).doc.site = p.doc.site
    unfold neStartElement
    split_ifs
    · rfl
    · rfl
    · have hsite := startElement_site p.doc name
      dsimp only
      split <;> exact hsite
  | charData t =>
    change (neCharData p t).doc.site = p.doc.site
    unfold neCharData charData
    split_ifs <;> rfl
  | endElement name =>
    change (neEndElement m p name).doc.site = _
    unfold neEndElement toldAt
    by_cases hfail : p.failure.isSome
    · simp [hfail]
    · have hprune : p.prune = 0 ∨ p.prune = 1 ∨ p.prune > 1 := by omega
      rcases hprune with h | h | h
      · simp only [hfail, h, gt_iff_lt, lt_irrefl, Nat.not_lt_zero, zero_ne_one, if_false]
        cases hend : endElement m p.doc (p.stack.head?.getD none) name with
        | error e =>
          rw [toldBy_of_error hend]
          rfl
        | ok doc => exact endElement_site hend
      · simp [hfail, h]
      · have hpos : p.prune > 0 := by omega
        simp [hfail, h, hpos]

/-- The parser changes the site as it is told, in the order of the file. -/
lemma foldl_neEvent_site (p : NeonParser) (events : List Event) :
    (events.foldl (neEvent m) p).doc.site = (transcript m p events).foldl Entry.apply p.doc.site := by
  induction events generalizing p with
  | nil => rfl
  | cons e events ih =>
    rw [List.foldl_cons, ih, transcript, List.foldl_append, neEvent_site]

/-! ### What is told does not depend on the site -/

/-- The parser, working for another site. -/
def inSite (site : Site) (p : NeonParser) : NeonParser := { p with doc := { p.doc with site := site } }

lemma toldAt_inSite (site : Site) (p : NeonParser) (e : Event) :
    toldAt (inSite site p) e = toldAt p e := by
  cases e with
  | startElement name attrs => rfl
  | charData t => rfl
  | endElement name =>
    change (if p.failure.isSome ∨ p.prune > 0 then none
      else toldBy { p.doc with site := site } (p.stack.head?.getD none)) = toldAt p (.endElement name)
    have htold : toldBy { p.doc with site := site } (p.stack.head?.getD none) =
        toldBy p.doc (p.stack.head?.getD none) := by
      cases p.stack.head?.getD none with
      | none => rfl
      | some elm => cases elm <;> rfl
    rw [htold]
    rfl

lemma endElement_inSite (s t : Site) (doc : XmlDoc) (state : Option Elm) (name : Text) :
    (endElement m { doc with site := t } state name).map (fun d => { d with site := s }) =
      (endElement m doc state name).map fun d => { d with site := s } := by
  cases state with
  | none => rfl
  | some elm =>
    cases elm
    case server_modtime | modtime =>
      simp only [endElement]
      cases readTime m doc.cdata name <;> rfl
    case checksum | ascii =>
      simp only [endElement]
      split_ifs <;> rfl
    all_goals rfl

lemma startElement_inSite (t : Site) (doc : XmlDoc) (name : Text) :
    startElement { doc with site := t } name =
      ((startElement doc name).1, { (startElement doc name).2 with site := t }) := by
  unfold startElement
  cases mapid name with
  | none => rfl
  | some state =>
    dsimp only
    split_ifs <;> rfl

lemma neEvent_inSite (s t : Site) (p : NeonParser) (e : Event) :
    inSite s (neEvent m (inSite t p) e) = inSite s (neEvent m p e) := by
  obtain ⟨doc, stack, prune, failure⟩ := p
  cases e with
  | startElement name attrs =>
    simp only [neEvent, neStartElement, inSite, startElement_inSite]
    split_ifs
    · rfl
    · rfl
    · cases (startElement doc name).1 <;> rfl
  | charData text =>
    by_cases h : failure.isSome = true ∨ prune > 0
    · simp [neEvent, neCharData, inSite, h]
    · simp [neEvent, neCharData, charData, inSite, h]
  | endElement name =>
    have hend := endElement_inSite (m := m) s t doc (stack.head?.getD none) name
    by_cases hfail : failure.isSome = true
    · simp [neEvent, neEndElement, inSite, hfail]
    · by_cases hone : prune = 1
      · simp [neEvent, neEndElement, inSite, hfail, hone]
      · by_cases hmany : prune > 1
        · simp [neEvent, neEndElement, inSite, hfail, hmany]
        · simp only [neEvent, neEndElement, inSite, hfail, hone, hmany, if_false]
          cases h : endElement m doc (stack.head?.getD none) name with
          | error e =>
            cases h' : endElement m { doc with site := t } (stack.head?.getD none) name with
            | error e' =>
              rw [h, h'] at hend
              cases hend
              rfl
            | ok doc' =>
              rw [h, h'] at hend
              cases hend
          | ok doc' =>
            cases h' : endElement m { doc with site := t } (stack.head?.getD none) name with
            | error e' =>
              rw [h, h'] at hend
              cases hend
            | ok doc'' =>
              rw [h, h'] at hend
              have hdoc : ({ doc'' with site := s } : XmlDoc) = { doc' with site := s } :=
                Except.ok.inj hend
              simp [hdoc]

lemma transcript_inSite (site : Site) (p : NeonParser) (events : List Event) :
    transcript m (inSite site p) events = transcript m p events := by
  induction events generalizing p with
  | nil => rfl
  | cons e events ih =>
    rw [transcript, transcript, toldAt_inSite, ← ih (neEvent m p e), ← neEvent_inSite site site, ih]

end Transcript

/-! ### Items are never merged without a trace -/

def Entry.isItem : Entry → Bool
  | .stateMethod _ => false
  | .item _ _ _ => true

lemma held_write_server {site : Site} (wl : WellLinked site) {f : SiteFile} (hf : f ∈ site.files)
    (server : FileState) (s : Slot) :
    held s (write { f with serverState := server } site).files = held s site.files := by
  obtain ⟨pre, post, hfiles⟩ := List.append_of_mem hf
  have hholds : holds s { f with serverState := server } = holds s f := by
    cases s <;> rfl
  rw [@write_files site pre post f { f with serverState := server } wl.nodup hfiles rfl, hfiles]
  simp only [held_append, held_cons, hholds]

lemma Entry.apply_wellLinked {site : Site} (wl : WellLinked site) (e : Entry) :
    WellLinked (e.apply site) := by
  cases e with
  | stateMethod method => exact ⟨wl.nodup, wl.bounded⟩
  | item type stored server =>
    have hset : WellLinked (fileSetStored type { stored with existing := true } site).1 :=
      fileSet_wellLinked wl
    unfold Entry.apply
    dsimp only
    split_ifs
    · exact write_wellLinked hset _
    · exact hset

/-- The stored state that an item adds. -/
def Entry.recorded : Entry → Multiset (FileType × FileState)
  | .stateMethod _ => 0
  | .item type stored _ => {(type, { stored with existing := true })}

/-- Every item adds one stored state, and leaves the local states alone. -/
lemma Entry.apply_held {site : Site} (wl : WellLinked site) (e : Entry) :
    held .storedSlot (e.apply site).files = e.recorded + held .storedSlot site.files ∧
      held .localSlot (e.apply site).files = held .localSlot site.files := by
  cases e with
  | stateMethod method => exact ⟨(zero_add _).symm, rfl⟩
  | item type stored server =>
    have hset := @setSlot_held type { stored with existing := true } site .storedSlot wl rfl
    have hmem := @SiteStats.setSlot_mem type { stored with existing := true } site .storedSlot wl
    have hlinked : WellLinked (fileSetStored type { stored with existing := true } site).1 :=
      fileSet_wellLinked wl
    rw [setSlot_stored] at hset hmem
    simp only [Entry.apply, Entry.recorded]
    generalize fileSetStored type { stored with existing := true } site = r at hset hmem hlinked ⊢
    rw [Multiset.singleton_add]
    split_ifs
    · rw [held_write_server hlinked hmem, held_write_server hlinked hmem]
      exact hset
    · exact hset

lemma Entry.apply_card {site : Site} (wl : WellLinked site) (e : Entry) :
    (held .storedSlot (e.apply site).files).card =
      (held .storedSlot site.files).card + if e.isItem then 1 else 0 := by
  rw [(e.apply_held wl).1, Multiset.card_add, add_comm]
  cases e <;> rfl

/-- After some entries have been told, the list holds what it held and what they record. -/
lemma foldl_apply_held {site : Site} (wl : WellLinked site) (entries : List Entry) :
    held .storedSlot (entries.foldl Entry.apply site).files =
        (entries.map Entry.recorded).sum + held .storedSlot site.files ∧
      held .localSlot (entries.foldl Entry.apply site).files = held .localSlot site.files := by
  induction entries generalizing site with
  | nil => exact ⟨(zero_add _).symm, rfl⟩
  | cons e entries ih =>
    obtain ⟨hstored, hlocal⟩ := ih (e.apply_wellLinked wl)
    obtain ⟨hs, hl⟩ := e.apply_held wl
    rw [List.foldl_cons, List.map_cons, List.sum_cons]
    refine ⟨?_, hlocal.trans hl⟩
    rw [hstored, hs]
    ac_rfl

lemma foldl_apply_wellLinked {site : Site} (wl : WellLinked site) (entries : List Entry) :
    WellLinked (entries.foldl Entry.apply site) := by
  induction entries generalizing site with
  | nil => exact wl
  | cons e entries ih => exact ih (e.apply_wellLinked wl)

lemma foldl_apply_card {site : Site} (wl : WellLinked site) (entries : List Entry) :
    (held .storedSlot (entries.foldl Entry.apply site).files).card =
      (held .storedSlot site.files).card + entries.countP Entry.isItem := by
  induction entries generalizing site with
  | nil => rfl
  | cons e entries ih =>
    rw [List.foldl_cons, ih (e.apply_wellLinked wl), e.apply_card wl, List.countP_cons]
    omega

/-- The method that the site has after it is told these entries. -/
def methodAfter (method : StateMethod) (entries : List Entry) : StateMethod :=
  entries.foldl (fun method e => match e with
    | .stateMethod method => method
    | .item _ _ _ => method) method

lemma foldl_apply_methods {site : Site} {entries : List Entry} (h : ∀ e ∈ entries, e.isItem = false) :
    entries.foldl Entry.apply site =
      { site with storedStateMethod := methodAfter site.storedStateMethod entries } := by
  induction entries generalizing site with
  | nil => rfl
  | cons e entries ih =>
    rw [List.foldl_cons, ih fun e' he' => h e' (List.mem_cons_of_mem e he')]
    cases e with
    | stateMethod method => rfl
    | item type stored server => exact absurd (h _ List.mem_cons_self) (by simp [Entry.isItem])

/-! ### All or nothing -/

/-- The files list, the counters and the stored state method are what they were. -/
structure Kept (site site' : Site) : Prop where
  files : site'.files = site.files
  stats : site'.stats = site.stats
  method : site'.storedStateMethod = site.storedStateMethod

/-- No item, and no other state method in the end. -/
structure TellsNothing (method : StateMethod) (entries : List Entry) : Prop where
  items : ∀ e ∈ entries, e.isItem = false
  method : methodAfter method entries = method

lemma kept_iff {site : Site} (wl : WellLinked site) (entries : List Entry) :
    Kept site (entries.foldl Entry.apply site) ↔ TellsNothing site.storedStateMethod entries := by
  constructor
  · intro h
    have hcard := foldl_apply_card wl entries
    rw [h.files] at hcard
    have hnone : entries.countP Entry.isItem = 0 := by omega
    have hitems : ∀ e ∈ entries, e.isItem = false := by
      intro e he
      simpa using List.countP_eq_zero.mp hnone e he
    have hmethod := h.method
    rw [foldl_apply_methods hitems] at hmethod
    exact ⟨hitems, hmethod⟩
  · intro h
    rw [foldl_apply_methods h.items]
    exact ⟨rfl, rfl, h.method⟩

lemma parseStorageFile_site (P : Parser) (m : DataModel) (contents : Text) (site : Site) :
    (parseStorageFile P m contents site).site =
      (transcript m { doc := { site := { opts := {} } } } (P.parse contents).1).foldl Entry.apply
        site := by
  have hstart : transcript m { doc := { site := { opts := {} } } } (P.parse contents).1 =
      transcript m { doc := { site := site } } (P.parse contents).1 :=
    transcript_inSite { opts := {} } { doc := { site := site } } _
  have hfold := @foldl_neEvent_site m { doc := { site := site } } (P.parse contents).1
  rw [hstart, ← hfold]
  unfold parseStorageFile
  dsimp only
  split
  · rfl
  · split_ifs <;> rfl

/-- Whatever becomes of the file, the site is changed by what it tells before its first error. -/
theorem siteReadStoredState_site (P : Parser) (m : DataModel) (file : InfoFile) (site : Site) :
    (siteReadStoredState P m file site).site = (told P m file).foldl Entry.apply site := by
  cases file with
  | missing | unopenable => rfl
  | readable contents | broken contents => exact parseStorageFile_site P m contents site

/-- A state file that ends after its first item. -/
def cutFile : InfoFile := .readable
  (ascii "<?xml version=\"1.0\" encoding=\"ISO-8859-1\"?>\n<sitestate version='1.0'>\n<items>\n" ++
    ascii "<item><type><type-file/></type><filename>a</filename></item>\n<item><type>")

end Sitecopy.StateFileErrors
