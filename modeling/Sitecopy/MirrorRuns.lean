import Sitecopy.GatheredLists
import Sitecopy.StorageFile

/-!
# Runs that mirror a local tree

Each run scans the local tree, reads the info file of the run before and updates the remote
site. After every run the remote tree is what the local tree was, and a second run in a row
finds nothing to do.
-/
namespace Sitecopy.MirrorRuns
open SiteModel FileSet FileSetSpec SiteStats SiteUpdate UpdateConvergence StateFile ReachedFiles
open HiddenPaths DirectoryLists DirectoryOrder FileTrees RemoteTree UpdateMirror GatheredLists
open UpdateAccounting FileMatching LocalScan ScanCompleteness ConsoleRuns StateFileErrors Paths

/-! ### Runs -/

/-- What a run leaves: the info file, the session with the server, and the exit code. -/
structure RunResult (σ : Type) where
  file : InfoFile
  sess : σ
  ret : ℤ

/-- `verify_sites` and `act_on_site` for an update of one site whose definition is in order. A
site that is skipped makes the run fail. -/
def updateRun {σ : Type} (P : Xml.Parser) (m : DataModel) (env : Env σ) (o : SiteOptions)
    (disk : Disk) (fails : Failures) (fuel : ℕ) (file : InfoFile) (sess : σ) :
    Option (RunResult σ) := do
  let scanned ← siteReadLocalState disk fails fuel { opts := o }
  let read := siteReadStoredState P m file scanned
  if read.ret = SITE_ERRORS ∨ read.ret = SITE_FAILED then
    pure { file := file, sess := sess, ret := -1 }
  else if !read.site.stats.remoteIsDifferent then pure { file := file, sess := sess, ret := 0 }
  else
    let r := siteUpdate env read.site sess
    pure
      { file := .readable (siteWriteStoredState r.site).1
        sess := r.sess
        ret := StorageFile.issueError r.ret }

/-- The file and the exit code are those of `act_on_site`. -/
lemma actOnSite_update {σ : Type} (fs : StorageFile.FileSystem) (hopen : fs.opens = true)
    (env : Env σ) (now : ℤ) (site : Site) (sess : σ) (disk : Option Text)
    (hdiff : site.stats.remoteIsDifferent = true) :
    let r := siteUpdate env site sess
    let act := (StorageFile.actOnSite fs env false now site sess).run {}
    act.1.2 = StorageFile.issueError r.ret ∧
      act.2.actions.foldl StorageFile.Action.effect disk =
        some (siteWriteStoredState r.site).1 := by
  refine ⟨?_, StorageFile.finished_contents disk hdiff hopen⟩
  unfold StorageFile.actOnSite StorageFile.writeStorageFile StorageFile.siteOpenStorageFile
  rw [hdiff, hopen]
  rfl

/-! ### Snapshots of the local tree -/

/-- The local tree at the time of a run, with the contents of its files. -/
structure Snapshot (o : SiteOptions) (β : Type) where
  tree : LocalTree o
  contents : Text → β

open Classical in
/-- The directories and files of a snapshot that are not excluded. -/
noncomputable def Snapshot.files {o : SiteOptions} {β : Type} (s : Snapshot o β) : Tree UInt8 β :=
  fun n =>
    if Present s.tree.toDisk o .dir n then some .dir
    else if Present s.tree.toDisk o .file n then some (.file (s.contents n))
    else none

/-- The number can be read back from an info file. -/
def InRange (m : DataModel) (t : ℤ) : Prop := LONG_MIN m < t ∧ t < LONG_MAX m

/-- What is asked of a snapshot: no links, names that are C strings, sizes and times in the range
of the data model, and no names like those of temporary files. -/
structure Fits (m : DataModel) {o : SiteOptions} {β : Type} (s : Snapshot o β) : Prop where
  nulFree : NulFree s.tree.toDisk
  nolink : ∀ n, ¬ Present s.tree.toDisk o .link n
  sizes : ∀ c ∈ allCalls s.tree, LONG_MIN m ≤ c.2.size ∧ c.2.size ≤ LONG_MAX m
  times : ∀ c ∈ allCalls s.tree, InRange m c.2.time
  temps : o.tempupload = true → ∀ n, IsFile s.files n → s.files (tempUploadFilename n) = none

/-- A file whose contents changed looks changed. -/
def Detects {o : SiteOptions} {β : Type} (s s' : Snapshot o β) : Prop :=
  ∀ c ∈ allCalls s.tree, ∀ c' ∈ allCalls s'.tree, c.1 = .file → c'.1 = .file → ∀ n,
    c.2.filename = some n → c'.2.filename = some n → methodDiffers o c.2 c'.2 = false →
      s.contents n = s'.contents n

/-- How the next snapshot may differ: no file takes the place of a directory, a file whose
contents changed looks changed, and no temporary name was in use. -/
structure Follows {o : SiteOptions} {β : Type} (s s' : Snapshot o β) : Prop where
  noClash : NoClash s'.files s.files
  detects : Detects s s'
  temps : o.tempupload = true → ∀ n, IsFile s'.files n → s.files (tempUploadFilename n) = none

section Snapshots
variable {m : DataModel} {o : SiteOptions} {β : Type} {s : Snapshot o β} {type type' : FileType}
  {n : Text}

lemma call_of_present (h : Present s.tree.toDisk o type n) :
    ∃ c ∈ allCalls s.tree, c.1 = type ∧ c.2.filename = some n :=
  ((allCalls_complete s.tree).listed type n).mpr h

lemma present_of_call {c : FileType × FileState} (hc : c ∈ allCalls s.tree)
    (hn : c.2.filename = some n) : Present s.tree.toDisk o c.1 n :=
  ((allCalls_complete s.tree).listed c.1 n).mp ⟨c, hc, rfl, hn⟩

/-- There is one call for a path. -/
lemma call_unique {c c' : FileType × FileState} (hc : c ∈ allCalls s.tree)
    (hc' : c' ∈ allCalls s.tree) (hn : c.2.filename = c'.2.filename) : c = c' :=
  List.inj_on_of_nodup_map (List.pairwise_map.mpr (allCalls_complete s.tree).once) hc hc' hn

lemma present_unique (h : Present s.tree.toDisk o type n) (h' : Present s.tree.toDisk o type' n) :
    type = type' := by
  obtain ⟨c, hc, rfl, hn⟩ := call_of_present h
  obtain ⟨c', hc', rfl, hn'⟩ := call_of_present h'
  rw [call_unique hc hc' (hn.trans hn'.symm)]

lemma files_cases (s : Snapshot o β) (n : Text) :
    Present s.tree.toDisk o .dir n ∧ s.files n = some .dir ∨
      Present s.tree.toDisk o .file n ∧ s.files n = some (.file (s.contents n)) ∨
      ¬ Present s.tree.toDisk o .dir n ∧ ¬ Present s.tree.toDisk o .file n ∧ s.files n = none := by
  classical
  unfold Snapshot.files
  split_ifs with hdir hfile
  · exact Or.inl ⟨hdir, rfl⟩
  · exact Or.inr (Or.inl ⟨hfile, rfl⟩)
  · exact Or.inr (Or.inr ⟨hdir, hfile, rfl⟩)

lemma files_file (h : Present s.tree.toDisk o .file n) :
    s.files n = some (.file (s.contents n)) := by
  rcases files_cases s n with ⟨hdir, -⟩ | ⟨-, hn⟩ | ⟨-, hno, -⟩
  · cases present_unique h hdir
  · exact hn
  · exact absurd h hno

lemma isFile_files : IsFile s.files n ↔ Present s.tree.toDisk o .file n := by
  refine ⟨?_, fun h => ⟨_, files_file h⟩⟩
  rintro ⟨c, hc⟩
  rcases files_cases s n with ⟨-, hn⟩ | ⟨h, -⟩ | ⟨-, -, hn⟩
  · rw [hn] at hc
    cases hc
  · exact h
  · rw [hn] at hc
    cases hc

/-- The entries of the tree are the files that are present. -/
lemma holds_files (hnolink : ∀ n, ¬ Present s.tree.toDisk o .link n) :
    Holds s.files type n ↔ Present s.tree.toDisk o type n := by
  cases type with
  | link => exact (iff_false_intro (hnolink n)).symm
  | file => exact isFile_files
  | dir =>
    change s.files n = some .dir ↔ _
    rcases files_cases s n with ⟨h, hn⟩ | ⟨h, hn⟩ | ⟨hno, -, hn⟩
    · simp [h, hn]
    · rw [hn]
      refine ⟨fun hfile => (by cases hfile), fun hdir => ?_⟩
      cases present_unique h hdir
    · simp [hno, hn]

lemma files_closed (s : Snapshot o β) : Closed slash s.files := by
  intro p hp q hq
  have habove : ∃ type, Present s.tree.toDisk o type p := by
    rcases files_cases s p with ⟨h, -⟩ | ⟨h, -⟩ | ⟨-, -, hn⟩
    · exact ⟨_, h⟩
    · exact ⟨_, h⟩
    · exact absurd hn hp
  obtain ⟨type, h⟩ := habove
  have hdir := present_above s.tree h hq
  rcases files_cases s q with ⟨-, hn⟩ | ⟨hfile, -⟩ | ⟨hno, -⟩
  · exact hn
  · cases present_unique hfile hdir
  · exact absurd hdir hno

end Snapshots

/-! ### The list of a run -/

/-- The list after a scan of the snapshot. -/
def scanned {o : SiteOptions} {β : Type} (s : Snapshot o β) : Site :=
  makeCalls ScanCompleteness.setLocal (allCalls s.tree) { opts := o }

/-- A list that was written after a run that mirrored the snapshot. -/
structure Synced (m : DataModel) {o : SiteOptions} {β : Type} (s : Snapshot o β) (site : Site) :
    Prop where
  opts : site.opts = o
  storable : ∀ f ∈ StateFile.storedFiles site, Storable m f
  ordered : Ordered site.files
  once : (StateFile.storedFiles site).Pairwise fun f g => f.type = g.type →
    f.storedState.filename ≠ g.storedState.filename
  describes : ∀ type n, Holds s.files type n ↔
    ∃ f ∈ StateFile.storedFiles site, f.type = type ∧ f.storedState.filename = some n
  /-- the stored states are those that a scan of the snapshot finds -/
  agrees : ∀ f ∈ StateFile.storedFiles site, ∀ c ∈ allCalls s.tree, c.1 = f.type →
    c.2.filename = f.storedState.filename →
      fileCompare f.type c.2 f.storedState o = .unchanged

/-- The list after the scan of a snapshot, and after the file of `site` was read into it. -/
structure Loaded (m : DataModel) {o : SiteOptions} {β : Type} (s : Snapshot o β)
    (site read : Site) : Prop where
  gathered : Gathered o read
  ordered : OrderedSite read
  locals : held .localSlot read.files = (allCalls s.tree : Multiset (FileType × FileState))
  stored : held .storedSlot read.files =
    ((StateFile.storedFiles site).map (itemState o) : List (FileType × FileState))
  times : ServedIn (InRange m) read

section Reading
variable {P : Xml.Latin1Parser} {m : DataModel} {o : SiteOptions} {β : Type} {s s' : Snapshot o β}
  {site read : Site}

/-- With enough fuel the scan gives this list. -/
lemma scan_runs (s : Snapshot o β) : ∃ fuel₀, ∀ fuel ≥ fuel₀,
    siteReadLocalState s.tree.toDisk noFailures fuel { opts := o } = some (scanned s) := by
  refine ⟨StackSearch.size (PreorderSearch.extend (letters s.tree.toDisk o)) s.tree.height [] + 1,
    fun fuel hfuel => ?_⟩
  rw [siteReadLocalState_calls, scanCalls_tree s.tree (show _ < fuel by omega), Option.map_some]
  rfl

lemma gathered_method {dest : Site} (h : Gathered o dest) (method : StateMethod) :
    Gathered o { dest with storedStateMethod := method } := by
  obtain ⟨⟨⟨hnodup, hbounded⟩, hopts, hpaired⟩, ⟨⟨a, b, hlinked, hexact⟩, hentries⟩, hnames,
    hmatched, hwatched⟩ := h
  exact ⟨⟨⟨hnodup, hbounded⟩, hopts, hpaired⟩,
    ⟨⟨a, b, ⟨hnodup, hbounded⟩, hexact⟩, hentries⟩, hnames, hmatched, hwatched⟩

/-- A scan finds no server states. -/
lemma scanned_times (s : Snapshot o β) (Q : ℤ → Prop) : ServedIn Q (scanned s) := by
  have hcalls : ∀ (calls : List (FileType × FileState)) (site : Site), WellLinked site →
      ServedIn Q site → ServedIn Q (makeCalls ScanCompleteness.setLocal calls site) := by
    intro calls
    induction calls with
    | nil => exact fun _ _ h => h
    | cons c calls ih =>
      intro site wl h
      exact ih _ (fileSet_wellLinked wl) (@servedIn_setSlot Q site .localSlot c.1 c.2 h wl)
  apply hcalls
  · exact ⟨by simp, by simp⟩
  · simp [ServedIn]

lemma Synced.nolink (h : Synced m s site) {f : SiteFile} (hf : f ∈ StateFile.storedFiles site) :
    f.type ≠ .link := by
  intro ht
  obtain ⟨n, hn, -⟩ := (h.storable f hf).name
  exact (h.describes .link n).mpr ⟨f, hf, ht, hn⟩

/-- Reading the file of a list into the list of a scan. -/
theorem Synced.readBack (h : Synced m s site) (hw : Watched o) (hfits : Fits m s') :
    (StateFile.readBack P.toParser m site (scanned s')).lastError = none ∧
      Loaded m s' site (StateFile.readBack P.toParser m site (scanned s')).site := by
  obtain ⟨hok, hsite⟩ := @readBack_items P.toParser m site (scanned s') h.storable
  have hscan : Gathered o (scanned s') ∧ held .localSlot (scanned s').files = _ ∧
      held .storedSlot (scanned s').files = 0 :=
    gathered_scan hw (allCalls_complete s'.tree) hfits.nulFree
  obtain ⟨hgathered, hlocal, hstored⟩ := hscan
  have hraw : TargetsRaw site := fun f hf ht => absurd ht (h.nolink hf)
  have hnames : ∀ f ∈ StateFile.storedFiles site, StateFile.Named f := by
    intro f hf
    obtain ⟨n, hn, -, hnul⟩ := (h.storable f hf).name
    exact ⟨n, hn, hnul⟩
  obtain ⟨hread, hown, hother⟩ := gathered_items
    (gathered_method hgathered site.opts.stateMethod) hw site.opts
    (StateFile.storedFiles site) {} hnames h.once hstored
  have hscanned : ∃ L, Scanned o L (scanned s') ∧ Arranged L := by
    obtain ⟨fuel₀, hruns⟩ := scan_runs s'
    exact scan_scanned s'.tree hfits.nulFree noFailures (hruns fuel₀ le_rfl)
  obtain ⟨L, hL, harranged⟩ := hscanned
  refine ⟨hok, ?_⟩
  have hordered := orderedSite_read h.ordered hraw hL harranged hok
  rw [hsite] at hordered ⊢
  refine ⟨hread, hordered, hother.trans hlocal, ?_, ?_⟩
  · rw [hown, h.opts]
  · apply servedIn_items
    · exact (gathered_method hgathered site.opts.stateMethod).paired.linked
    · exact scanned_times s' _
    · apply served_times
      · intro hex
        cases hex
      · exact fun f hf ht hex => (h.storable f hf).serverTime ht hex

end Reading

/-! ### What the list shows -/

section Saved
variable {o : SiteOptions} {g : SiteFile} {state : FileState}

/-- What an item keeps is all that is compared. -/
lemma compare_saved (hex : g.storedState.existing = true) :
    fileCompare g.type state (savedState o g) o = fileCompare g.type state g.storedState o := by
  unfold fileCompare savedState readFields methodDiffers permsCompared
  cases g.type <;> cases o.stateMethod <;> simp [hex]

lemma methodDiffers_saved (ht : g.type = .file) :
    methodDiffers o state (savedState o g) = methodDiffers o state g.storedState := by
  unfold savedState readFields methodDiffers
  rw [ht]
  cases o.stateMethod <;> rfl

lemma methodDiffers_trans {x y z : FileState} (hxy : methodDiffers o x y = false)
    (hyz : methodDiffers o y z = false) : methodDiffers o x z = false := by
  unfold methodDiffers at *
  cases hm : o.stateMethod with
  | timesize =>
    simp only [hm, Bool.or_eq_false_iff, decide_eq_false_iff_not, not_not] at hxy hyz ⊢
    exact ⟨hxy.1.trans hyz.1, hxy.2.trans hyz.2⟩
  | checksum =>
    simp only [hm, decide_eq_false_iff_not, not_not] at hxy hyz ⊢
    exact hxy.trans hyz

lemma methodDiffers_of_unchanged {x y : FileState}
    (h : fileCompare .file x y o = .unchanged) : methodDiffers o x y = false := by
  obtain ⟨hx, hy⟩ := fileCompare_both h (by decide) (by decide)
  rw [fileCompare_file hx hy] at h
  by_contra hdiff
  rw [Bool.not_eq_false] at hdiff
  rw [if_pos hdiff] at h
  cases h

end Saved

section Listing
variable {P : Xml.Latin1Parser} {m : DataModel} {o : SiteOptions} {β : Type} {s s' : Snapshot o β}
  {site read : Site} {f : SiteFile} {n : Text}

lemma Loaded.call (h : Loaded m s' site read) (hf : f ∈ read.files)
    (hl : f.localState.existing = true) : (f.type, f.localState) ∈ allCalls s'.tree := by
  have hmem : (f.type, f.localState) ∈ held .localSlot read.files :=
    mem_held.mpr ⟨f, hf, hl, rfl, rfl⟩
  rw [h.locals] at hmem
  exact hmem

lemma Loaded.item (h : Loaded m s' site read) (hf : f ∈ read.files)
    (hs : f.storedState.existing = true) :
    ∃ g ∈ StateFile.storedFiles site, g.type = f.type ∧ savedState o g = f.storedState := by
  have hmem : (f.type, f.storedState) ∈ held .storedSlot read.files :=
    mem_held.mpr ⟨f, hf, hs, rfl, rfl⟩
  rw [h.stored, Multiset.mem_coe, List.mem_map] at hmem
  obtain ⟨g, hg, heq⟩ := hmem
  obtain ⟨ht, hstate⟩ := Prod.mk.inj heq
  exact ⟨g, hg, ht, hstate⟩

lemma Loaded.shows_local (h : Loaded m s' site read) (hfits : Fits m s') :
    Shows .localSlot read.files s'.files where
  closed := files_closed s'
  entries type n := by
    rw [holds_files hfits.nolink, side_iff_held, h.locals,
      ← (allCalls_complete s'.tree).listed type n]
    constructor
    · rintro ⟨c, hc, rfl, hn⟩
      exact ⟨c.2, hc, hn⟩
    · rintro ⟨state, hc, hn⟩
      exact ⟨(type, state), hc, rfl, hn⟩

lemma Loaded.shows_stored (h : Loaded m s' site read) (hsync : Synced m s site) :
    Shows .storedSlot read.files s.files where
  closed := files_closed s
  entries type n := by
    rw [hsync.describes, side_iff_held, h.stored]
    constructor
    · rintro ⟨g, hg, rfl, hn⟩
      exact ⟨savedState o g, List.mem_map.mpr ⟨g, hg, rfl⟩, (savedState_filename o g).trans hn⟩
    · rintro ⟨state, hmem, hn⟩
      obtain ⟨g, hg, heq⟩ := List.mem_map.mp hmem
      obtain ⟨rfl, rfl⟩ := Prod.mk.inj heq
      exact ⟨g, hg, rfl, (savedState_filename o g).symm.trans hn⟩

lemma Loaded.entry (h : Loaded m s' site read) (hsync : Synced m s site) (hfits : Fits m s')
    (hf : f ∈ read.files) : RemoteTree.Entry o f where
  ok := h.gathered.paired.opts ▸ h.gathered.reached.entries f hf
  paired := h.gathered.paired.paired f hf
  nolink ht := by
    rcases (h.gathered.paired.paired f hf).present with hl | hs
    · obtain ⟨n, hn, -⟩ := h.gathered.names f hf .localSlot hl
      have hpresent := present_of_call (h.call hf hl) hn
      rw [ht] at hpresent
      exact hfits.nolink n hpresent
    · obtain ⟨g, hg, hgt, -⟩ := h.item hf hs
      exact hsync.nolink hg (hgt.trans ht)

/-- A file that looks as it did has the same contents. -/
lemma Loaded.honest (h : Loaded m s' site read) (hp : Plain o) (hsync : Synced m s site)
    (hdetects : Detects s s') (hf : f ∈ read.files) (ht : f.type = .file)
    (hl : f.localState.existing = true) (hs : f.storedState.existing = true)
    (hsame : fileContentsChanged o f = false) :
    s.files (localName f) = s'.files (localName f) := by
  obtain ⟨n, hn, -⟩ := h.gathered.names f hf .localSlot hl
  have hname : localName f = n := by
    unfold localName
    rw [show f.localState.filename = some n from hn]
    rfl
  obtain ⟨g, hg, hgt, hsaved⟩ := h.item hf hs
  have hgn : g.storedState.filename = some n := by
    rw [← savedState_filename o g, hsaved, ← hn]
    rcases (h.gathered.paired.paired f hf).named hl hs with heq | ⟨hmoved, -⟩
    · exact heq.symm
    · rw [hp.checkmoved] at hmoved
      cases hmoved
  have hgfile : g.type = .file := hgt.trans ht
  have hthere : IsFile s.files n := (hsync.describes .file n).mpr ⟨g, hg, hgfile, hgn⟩
  obtain ⟨c, hc, hct, hcn⟩ := call_of_present (isFile_files.mp hthere)
  have hcall := h.call hf hl
  rw [ht] at hcall
  -- both scans found what was recorded
  have hbefore : methodDiffers o c.2 g.storedState = false := by
    have hagrees := hsync.agrees g hg c hc (hct.trans hgfile.symm) (hcn.trans hgn.symm)
    rw [hgfile] at hagrees
    exact methodDiffers_of_unchanged hagrees
  have hafter : methodDiffers o g.storedState f.localState = false := by
    rw [contents_eq, Bool.or_eq_false_iff] at hsame
    rw [methodDiffers_comm, ← methodDiffers_saved hgfile, hsaved]
    exact hsame.1
  have hcontents := hdetects c hc _ hcall hct rfl n hcn hn
    (methodDiffers_trans hbefore hafter)
  rw [hname, files_file (isFile_files.mp hthere), hcontents]
  exact (files_file (present_of_call hcall hn)).symm

/-- The list shows both snapshots. -/
theorem Loaded.shown (h : Loaded m s' site read) (hp : Plain o) (hsync : Synced m s site)
    (hfits : Fits m s') (hdetects : Detects s s') : Shown o read.files s'.files s.files where
  nodup := h.gathered.paired.linked.files_nodup
  entries _ hf := h.entry hsync hfits hf
  matched := h.gathered.matched
  ordered := h.ordered.ordered
  locals := h.shows_local hfits
  stored := h.shows_stored hsync
  honest _ hf ht hl hs hsame := h.honest hp hsync hdetects hf ht hl hs hsame

/-- The list is what an update is to start from. -/
theorem Loaded.listed (h : Loaded m s' site read) (hp : Plain o) (hsync : Synced m s site)
    (hfits : Fits m s') (hfollows : Follows s s') : Listed o read.files s'.files s.files where
  toShown := h.shown hp hsync hfits hfollows.detects
  notHeld f hf hheld := by
    have hno := h.gathered.watched f hf
    rw [hheld.2.2] at hno
    cases hno
  temps hon n hn := ⟨hfits.temps hon n hn, hfollows.temps hon n hn⟩

end Listing

/-! ### What the update writes -/

section Written
variable {m : DataModel} {o : SiteOptions} {β : Type} {s s' : Snapshot o β} {site read : Site}
  {f g : SiteFile} {files' : List SiteFile} {modtime : Text → ℤ} {type : FileType} {n : Text}

lemma present_ne_nil (h : Present s.tree.toDisk o type n) : n ≠ [] := by
  obtain ⟨ds, name, -, hl, rfl⟩ := h
  have hname := (s.tree.named _ name hl.mem).nonempty
  simp [relPath, hname]

/-- The numbers of a stored state can be read back. -/
lemma Loaded.ranges (h : Loaded m s' site read) (hsync : Synced m s site) (hf : f ∈ read.files)
    (ht : f.type = .file) : (LONG_MIN m ≤ f.storedState.size ∧ f.storedState.size ≤ LONG_MAX m) ∧
      InRange m f.storedState.time := by
  have hzero : InRange m 0 := by cases m <;> exact ⟨by decide, by decide⟩
  by_cases hs : f.storedState.existing = true
  · obtain ⟨g, hg, hgt, hsaved⟩ := h.item hf hs
    have hgfile := hgt.trans ht
    have hstorable := hsync.storable g hg
    have hsize := hstorable.size hgfile
    have htime := hstorable.time hgfile
    rw [← hsaved]
    unfold savedState readFields
    rw [hgfile]
    cases o.stateMethod with
    | timesize => exact ⟨hsize, htime⟩
    | checksum => exact ⟨hsize, hzero⟩
  · rw [(h.gathered.reached.entries f hf).clearedStored (Bool.eq_false_of_not_eq_true hs)]
    exact ⟨⟨hzero.1.le, hzero.2.le⟩, hzero⟩

/-- What an update leaves can be written and read back. -/
lemma Loaded.storable (h : Loaded m s' site read) (hsync : Synced m s site) (hfits : Fits m s')
    (hmodtime : ∀ path, InRange m (modtime path)) (hf : f ∈ read.files)
    (hfrom : Descends modtime f g) (hcurrent : UpToDate o g) : Storable m g := by
  have hl : f.localState.existing = true := by
    rw [← hfrom.localState]
    exact hcurrent.localExisting
  obtain ⟨n, hn, hnul⟩ := h.gathered.names f hf .localSlot hl
  have hcall := h.call hf hl
  refine ⟨⟨n, ?_, present_ne_nil (present_of_call hcall hn), hnul⟩, fun ht => ?_, fun ht => ?_,
    fun _ hex => ?_, fun ht => ?_⟩
  · rw [hcurrent.name, hfrom.localState]
    exact hn
  · rcases hfrom.size with hsize | hsize
    · rw [hsize]
      exact hfits.sizes _ hcall
    · rw [hsize]
      exact (h.ranges hsync hf (hfrom.type.symm.trans ht)).1
  · rcases hfrom.time with htime | htime
    · rw [htime]
      exact hfits.times _ hcall
    · rw [htime]
      exact (h.ranges hsync hf (hfrom.type.symm.trans ht)).2
  · rcases hfrom.served with hserved | ⟨path, hserved⟩
    · rw [hserved] at hex ⊢
      exact h.times f hf hex
    · rw [hserved]
      exact hmodtime path
  · exact absurd (hfrom.type.symm.trans ht) (h.entry hsync hfits hf).nolink

/-- The list after the update is one that mirrors the next snapshot. -/
theorem Loaded.synced (h : Loaded m s' site read) (hp : Plain o) (hsync : Synced m s site)
    (hfits : Fits m s') (hfollows : Follows s s') (hmodtime : ∀ path, InRange m (modtime path))
    {written : Site} (hopts : written.opts = o) (hordered : OrderedSite written)
    (hupdated : Updated o modtime (handlerTable o) read.files written.files) :
    Synced m s' written := by
  have hlisted := h.listed hp hsync hfits hfollows
  have hafter : ∀ g ∈ StateFile.storedFiles written, UpToDate o g ∧
      ∃ f ∈ read.files, Descends modtime f g ∧ f.localState.existing = true := by
    intro g hg
    obtain ⟨hcurrent, f, hf, hfrom⟩ := hlisted.after hp hupdated (List.mem_of_mem_filter hg)
    exact ⟨hcurrent, f, hf, hfrom, hfrom.localState ▸ hcurrent.localExisting⟩
  refine ⟨hopts, fun g hg => ?_, hordered.ordered, ?_, fun type n => ?_, fun g hg c hc ht hn => ?_⟩
  · obtain ⟨hcurrent, f, hf, hfrom, -⟩ := hafter g hg
    exact h.storable hsync hfits hmodtime hf hfrom hcurrent
  · have hnd : (StateFile.storedFiles written).Nodup := hordered.linked.files_nodup.filter _
    apply List.Pairwise.imp_of_mem _ hnd
    intro g g' hg hg' hne ht hname
    obtain ⟨hcurrent, f, hf, hfrom, hl⟩ := hafter g hg
    obtain ⟨hcurrent', f', hf', hfrom', hl'⟩ := hafter g' hg'
    obtain ⟨n, hn, -⟩ := h.gathered.names f hf .localSlot hl
    have hn' : f'.localState.filename = some n := by
      rw [← hfrom'.localState, ← hcurrent'.name, ← hname, hcurrent.name, hfrom.localState]
      exact hn
    -- the two entries come from one
    have hsame : f = f' := h.gathered.matched f hf f' hf' .localSlot .localSlot n
      (hfrom.type.symm.trans (ht.trans hfrom'.type)) (sideName_eq hl hn) (sideName_eq hl' hn')
    apply hne
    apply List.inj_on_of_nodup_map hordered.linked.nodup (List.mem_of_mem_filter hg)
      (List.mem_of_mem_filter hg')
    rw [hfrom.addr, hfrom'.addr, hsame]
  · rw [(hlisted.shows_after hp hupdated .storedSlot).entries]
    constructor
    · rintro ⟨g, hg, ht, hn⟩
      have hex : g.storedState.existing = true := (side_some hn).1
      refine ⟨g, List.mem_filter.mpr ⟨hg, hex⟩, ht, ?_⟩
      unfold sideName at hn
      rw [if_pos (show (Slot.storedSlot.get g).existing = true from hex)] at hn
      exact hn
    · rintro ⟨g, hg, ht, hn⟩
      obtain ⟨hmem, hex⟩ := List.mem_filter.mp hg
      exact ⟨g, hmem, ht, sideName_eq hex hn⟩
  · obtain ⟨hcurrent, f, hf, hfrom, hl⟩ := hafter g hg
    have hcall := h.call hf hl
    have hsame : c = (f.type, f.localState) := by
      apply call_unique hc hcall
      rw [hn, hcurrent.name, hfrom.localState]
    rw [hsame]
    dsimp only
    rw [← hfrom.localState]
    exact hcurrent.compared.symm.trans hcurrent.unchanged

end Written

/-! ### Nothing to do -/

section Idle
variable {m : DataModel} {o : SiteOptions} {β : Type} {s s' : Snapshot o β} {site read : Site}
  {f : SiteFile}

/-- A scan of the same snapshot finds what was recorded. -/
lemma Loaded.unchanged (h : Loaded m s site read) (hp : Plain o) (hsync : Synced m s site)
    (hfits : Fits m s) (hf : f ∈ read.files) : f.diff = .unchanged := by
  have hlocals := h.shows_local hfits
  have hstored := h.shows_stored hsync
  have hordered := h.ordered.ordered
  have he := h.entry hsync hfits hf
  rcases diff_cases hp.checkmoved he with ⟨-, hl, hs⟩ | ⟨-, hl, hs⟩ | ⟨-, hl, hs⟩
  · exact absurd (hstored.there hordered hf hs)
      (hlocals.missing h.gathered.matched hordered hf hl hs)
  · exact absurd (hlocals.there hordered hf hl)
      (hstored.missing h.gathered.matched hordered hf hs hl)
  · obtain ⟨g, hg, hgt, hsaved⟩ := h.item hf hs
    have hname : f.localState.filename = g.storedState.filename := by
      rw [← savedState_filename o g, hsaved]
      rcases he.paired.named hl hs with heq | ⟨hmoved, -⟩
      · exact heq
      · rw [hp.checkmoved] at hmoved
        cases hmoved
    have hagrees := hsync.agrees g hg _ (h.call hf hl) hgt.symm hname
    rw [← compare_saved (List.mem_filter.mp hg).2, hsaved, hgt] at hagrees
    exact (show f.diff = _ from he.ok.compared).trans hagrees

lemma Loaded.remote_iff (h : Loaded m s' site read) (hp : Plain o) :
    read.stats.remoteIsDifferent = true ↔ ∃ f ∈ read.files, f.diff ≠ .unchanged := by
  rw [UpdateConvergence.remote_iff h.gathered.reached.counted]
  refine exists_congr fun f => and_congr_right fun hf => ?_
  refine ⟨fun hd => hd.1, fun hd => ⟨hd, ?_⟩⟩
  rw [h.gathered.paired.opts]
  rintro (⟨-, hignore⟩ | ⟨hno, -⟩)
  · rw [h.gathered.watched f hf] at hignore
    cases hignore
  · rw [hp.nodelete] at hno
    cases hno

/-- If nothing differs, the file is still right. -/
lemma Loaded.synced_idle (h : Loaded m s' site read) (hp : Plain o) (hsync : Synced m s site)
    (hfits : Fits m s') (hdetects : Detects s s') (hsame : ∀ f ∈ read.files, f.diff = .unchanged) :
    Synced m s' site where
  opts := hsync.opts
  storable := hsync.storable
  ordered := hsync.ordered
  once := hsync.once
  describes type n := by
    rw [(h.shown hp hsync hfits hdetects).same hp.checkmoved hsame]
    exact hsync.describes type n
  agrees g hg c hc ht hn := by
    have hmem : (g.type, savedState o g) ∈ held .storedSlot read.files := by
      rw [h.stored]
      exact List.mem_map.mpr ⟨g, hg, rfl⟩
    obtain ⟨f, hf, hs, hft, hstored⟩ := mem_held.mp hmem
    have hcompared := (h.gathered.paired.paired f hf).compared
    have hcmp := (show f.diff = _ from hcompared).symm.trans (hsame f hf)
    obtain ⟨hl, -⟩ := fileCompare_both hcmp (by decide) (by decide)
    have hname : f.localState.filename = f.storedState.filename := by
      rcases (h.gathered.paired.paired f hf).named hl hs with heq | ⟨hmoved, -⟩
      · exact heq
      · rw [hp.checkmoved] at hmoved
        cases hmoved
    have hcall : c = (f.type, f.localState) := by
      apply call_unique hc (h.call hf hl)
      rw [hn, hname, show f.storedState = _ from hstored, savedState_filename]
    have hsaved : f.storedState = savedState o g := hstored
    have htype : f.type = g.type := hft
    rw [hcall, ← compare_saved (List.mem_filter.mp hg).2, ← hsaved, ← htype]
    exact hcmp

end Idle

/-! ### Runs one after the other -/

/-- What was left by a run that mirrored the snapshot. -/
def Mirrored (m : DataModel) {o : SiteOptions} {β : Type} (s : Snapshot o β)
    (r : RunResult (Tree UInt8 β)) : Prop :=
  (∃ site, Synced m s site ∧ r.file = .readable (siteWriteStoredState site).1) ∧ r.sess = s.files

/-- Updates for one snapshot after the other, each with the file and the remote tree that the one
before left. -/
noncomputable def updateRuns (P : Xml.Parser) (m : DataModel) {o : SiteOptions} {β : Type}
    (modtime : Text → ℤ) (fuel : ℕ) :
    List (Snapshot o β) → InfoFile → Tree UInt8 β → Option (List (RunResult (Tree UInt8 β)))
  | [], _, _ => some []
  | s :: rest, file, t => do
    let r ← updateRun P m (treeDriver o s.files modtime) o s.tree.toDisk noFailures fuel file t
    let rs ← updateRuns P m modtime fuel rest r.file r.sess
    pure (r :: rs)

/-- The file that `action_init` writes. -/
def initialFile (o : SiteOptions) : InfoFile :=
  .readable (siteWriteStoredState (SiteOperations.siteInitialize { opts := o })).1

section Sequences
variable {m : DataModel} {o : SiteOptions} {β : Type} {s s' : Snapshot o β} {site : Site}
  {modtime : Text → ℤ} {r : RunResult (Tree UInt8 β)}

/-- A run reads the file of a list, and then acts if there are differences. -/
lemma Synced.run (P : Xml.Latin1Parser) (h : Synced m s site) (hw : Watched o)
    (hfits : Fits m s') : ∃ read, Loaded m s' site read ∧ ∃ fuel₀, ∀ fuel ≥ fuel₀,
      ∀ (σ : Type) (env : Env σ) (sess : σ),
        updateRun P.toParser m env o s'.tree.toDisk noFailures fuel
            (.readable (siteWriteStoredState site).1) sess =
          some (if read.stats.remoteIsDifferent then
            { file := .readable (siteWriteStoredState (siteUpdate env read sess).site).1
              sess := (siteUpdate env read sess).sess
              ret := StorageFile.issueError (siteUpdate env read sess).ret }
          else { file := .readable (siteWriteStoredState site).1, sess := sess, ret := 0 }) := by
  obtain ⟨hok, hloaded⟩ := @Synced.readBack P m o β s s' site h hw hfits
  obtain ⟨fuel₀, hscan⟩ := scan_runs s'
  refine ⟨_, hloaded, fuel₀, fun fuel hfuel σ env sess => ?_⟩
  have hret : (siteReadStoredState P.toParser m (.readable (siteWriteStoredState site).1)
      (scanned s')).ret = 1 := ret_of_lastError hok
  have hsite : (siteReadStoredState P.toParser m (.readable (siteWriteStoredState site).1)
      (scanned s')).site = (StateFile.readBack P.toParser m site (scanned s')).site := rfl
  unfold updateRun
  rw [hscan fuel hfuel, Option.bind_eq_bind, Option.bind_some]
  dsimp only
  rw [hret, hsite, if_neg (by decide)]
  cases (StateFile.readBack P.toParser m site (scanned s')).site.stats.remoteIsDifferent <;> rfl

/-- A run that starts where one stopped that mirrored `s` mirrors `s'`. -/
theorem run_mirrors (P : Xml.Latin1Parser) (hp : Plain o) (hw : Watched o)
    (hmodtime : ∀ path, InRange m (modtime path)) (h : Mirrored m s r) (hfits : Fits m s')
    (hfollows : Follows s s') : ∃ r', Mirrored m s' r' ∧ r'.ret = 0 ∧ ∃ fuel₀, ∀ fuel ≥ fuel₀,
      updateRun P.toParser m (treeDriver o s'.files modtime) o s'.tree.toDisk noFailures fuel r.file
        r.sess = some r' := by
  obtain ⟨⟨site, hsync, hfile⟩, hremote⟩ := h
  obtain ⟨read, hloaded, fuel₀, hrun⟩ := hsync.run P hw hfits
  have hlisted : Listed read.opts read.files s'.files s.files := by
    rw [hloaded.gathered.paired.opts]
    exact hloaded.listed hp hsync hfits hfollows
  have hplain : Plain read.opts := by rwa [hloaded.gathered.paired.opts]
  obtain ⟨hret, hsess, hupdated⟩ := hlisted.updates modtime hplain hfollows.noClash
  rw [hloaded.gathered.paired.opts] at hret hsess hupdated
  refine ⟨_, ?_, ?_, fuel₀, fun fuel hfuel => by
    rw [hfile, hremote]
    exact hrun fuel hfuel _ (treeDriver o s'.files modtime) s.files⟩
  · split_ifs with hdiff
    · refine ⟨⟨_, ?_, rfl⟩, hsess⟩
      exact hloaded.synced hp hsync hfits hfollows hmodtime hloaded.gathered.paired.opts
        (hloaded.ordered.update _ _) hupdated
    · have hsame : ∀ f ∈ read.files, f.diff = .unchanged := by
        by_contra hno
        push Not at hno
        exact hdiff ((hloaded.remote_iff hp).mpr hno)
      have hshown := hloaded.shown hp hsync hfits hfollows.detects
      exact ⟨⟨site, hloaded.synced_idle hp hsync hfits hfollows.detects hsame, rfl⟩,
        (hshown.same hp.checkmoved hsame).symm⟩
  · split_ifs
    · rw [hret]
      rfl
    · rfl

/-- The next run for the same snapshot calls no method of the driver and writes nothing. -/
theorem run_idle (P : Xml.Latin1Parser) (hp : Plain o) (hw : Watched o) (h : Mirrored m s r)
    (hfits : Fits m s) : ∃ fuel₀, ∀ fuel ≥ fuel₀, ∀ (σ : Type) (env : Env σ) (sess : σ),
      updateRun P.toParser m env o s.tree.toDisk noFailures fuel r.file sess =
        some { file := r.file, sess := sess, ret := 0 } := by
  obtain ⟨⟨site, hsync, hfile⟩, -⟩ := h
  obtain ⟨read, hloaded, fuel₀, hrun⟩ := hsync.run P hw hfits
  have hsame : read.stats.remoteIsDifferent ≠ true := by
    rw [ne_eq, hloaded.remote_iff hp]
    rintro ⟨f, hf, hd⟩
    exact hd (hloaded.unchanged hp hsync hfits hf)
  refine ⟨fuel₀, fun fuel hfuel σ env sess => ?_⟩
  rw [hfile, hrun fuel hfuel σ env sess, if_neg hsame]

/-- A snapshot without files. -/
def emptySnapshot (o : SiteOptions) (contents : Text → β) : Snapshot o β where
  tree := emptyTree o
  contents := contents

lemma empty_present {contents : Text → β} {type : FileType} {n : Text} :
    ¬ Present (emptySnapshot o contents).tree.toDisk o type n := by
  rintro ⟨ds, name, -, hl, -⟩
  cases hl.mem

lemma empty_files (contents : Text → β) (n : Text) : (emptySnapshot o contents).files n = none := by
  rcases files_cases (emptySnapshot o contents) n with ⟨h, -⟩ | ⟨h, -⟩ | ⟨-, -, hn⟩
  · exact absurd h empty_present
  · exact absurd h empty_present
  · exact hn

/-- The first run finds an initialized file and nothing on the server. -/
lemma mirrored_initial (contents : Text → β) : Mirrored m (emptySnapshot o contents)
    { file := initialFile o, sess := fun _ => none, ret := 0 } := by
  refine ⟨⟨SiteOperations.siteInitialize { opts := o }, ?_, rfl⟩, ?_⟩
  · have hnone : StateFile.storedFiles (SiteOperations.siteInitialize { opts := o }) = [] := rfl
    refine ⟨rfl, by simp [hnone], ⟨?_, List.nodup_nil, List.Pairwise.nil⟩, by simp [hnone],
      fun type n => ?_, by simp [hnone]⟩
    · intro f hf
      cases hf
    · rw [holds_files fun _ => empty_present, hnone]
      simp [empty_present]
  · funext n
    exact (empty_files contents n).symm

/-- Every snapshot may be the first. -/
lemma follows_empty (contents : Text → β) (s : Snapshot o β) :
    Follows (emptySnapshot o contents) s where
  noClash n hdir := by
    rw [empty_files] at hdir
    cases hdir
  detects c hc := by
    intro c' hc' hct hct' n hn
    exact absurd (present_of_call hc hn) empty_present
  temps _ n _ := empty_files contents _

lemma runs_from (P : Xml.Latin1Parser) (hp : Plain o) (hw : Watched o)
    (hmodtime : ∀ path, InRange m (modtime path)) (h : Mirrored m s r)
    (snapshots : List (Snapshot o β)) (hfits : ∀ s ∈ snapshots, Fits m s)
    (hchain : (s :: snapshots).IsChain Follows) : ∃ rs,
      List.Forall₂ (fun s r => Mirrored m s r ∧ r.ret = 0) snapshots rs ∧
        ∃ fuel₀, ∀ fuel ≥ fuel₀,
          updateRuns P.toParser m modtime fuel snapshots r.file r.sess = some rs := by
  induction snapshots generalizing s r with
  | nil => exact ⟨[], List.Forall₂.nil, 0, fun _ _ => rfl⟩
  | cons s' rest ih =>
    obtain ⟨hfits', hrest⟩ := List.forall_mem_cons.mp hfits
    obtain ⟨hfollows, hchain⟩ := List.isChain_cons_cons.mp hchain
    obtain ⟨r', hmirrored, hret, fuel₁, hrun⟩ := run_mirrors P hp hw hmodtime h hfits' hfollows
    obtain ⟨rs, hrs, fuel₂, hruns⟩ := ih hmirrored hrest hchain
    refine ⟨r' :: rs, List.Forall₂.cons ⟨hmirrored, hret⟩ hrs, max fuel₁ fuel₂,
      fun fuel hfuel => ?_⟩
    unfold updateRuns
    rw [hrun fuel (le_trans (le_max_left _ _) hfuel), Option.bind_eq_bind, Option.bind_some,
      hruns fuel (le_trans (le_max_right _ _) hfuel)]
    rfl

lemma runs_initial (P : Xml.Latin1Parser) (hp : Plain o) (hw : Watched o)
    (hmodtime : ∀ path, InRange m (modtime path)) (snapshots : List (Snapshot o β))
    (hfits : ∀ s ∈ snapshots, Fits m s) (hchain : snapshots.IsChain Follows) : ∃ rs,
      List.Forall₂ (fun s r => Mirrored m s r ∧ r.ret = 0) snapshots rs ∧
        ∃ fuel₀, ∀ fuel ≥ fuel₀, updateRuns P.toParser m modtime fuel snapshots (initialFile o)
          (fun _ => none) = some rs := by
  cases snapshots with
  | nil => exact ⟨[], List.Forall₂.nil, 0, fun _ _ => rfl⟩
  | cons s rest =>
    exact runs_from P hp hw hmodtime (mirrored_initial s.contents) (s :: rest) hfits
      (List.isChain_cons_cons.mpr ⟨follows_empty s.contents s, hchain⟩)

/-- A tree with one file. -/
def pageTree (mtime : ℤ) : LocalTree {} where
  entries d := if d = ascii "/" then [ascii "a"] else []
  lstat _ := { kind := .regular, mode := 0o644, mtime := mtime, size := 1 }
  stat _ := none
  readlink _ := []
  checksum _ := .zero
  height := 1
  finite e he := by cases he
  named d n hn := by
    split_ifs at hn
    · rw [List.mem_singleton.mp hn]
      exact ⟨by decide, by decide⟩
    · cases hn
  distinct d := by split_ifs <;> simp

def page (mtime : ℤ) (content : ℕ) : Snapshot {} ℕ := ⟨pageTree mtime, fun _ => content⟩

def pageState (mtime : ℤ) : FileState :=
  { filename := some (ascii "a"), existing := true, mode := 0o644, time := mtime, size := 1 }

end Sequences

end Sitecopy.MirrorRuns
