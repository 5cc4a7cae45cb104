import Sitecopy.DirectoryLists
import Sitecopy.RemoteFetch

/-!
# The order of fetched directories

`site_fetch` puts each listing before those of the directories visited earlier, so the
directories of a deeper level come first. A synch creates them in that order.
-/
namespace Sitecopy.FetchOrder
open SiteModel FileSet FileSetSpec SiteStats StateProgram SiteOperations StateFile DirectoryLists
open RemoteFetch LocalSynch Paths StackSearch

/-! ### What a synch creates -/

def mkdirPath : SynchEvent → Option Text
  | .localCall _ (.mkdir path _) _ => some path
  | _ => none

/-- The directories that `mkdir` was called for, in the order of the calls. -/
def mkdirs (trace : List SynchEvent) : List Text := trace.filterMap mkdirPath

/-- What `synch_create_directories` creates for an entry. -/
def created (o : SiteOptions) (f : SiteFile) : List Text :=
  if f.type = .dir ∧ f.diff = .deleted then [fileFullLocal f.storedState o] else []

section Synch
variable {τ : Type} {env : SynchEnv τ} {o : SiteOptions}

lemma synchCreateDirectory_mkdirs (f : SiteFile) (r : SynchRun τ) :
    Ends (synchCreateDirectory env o f) r fun _ r' =>
      ∃ seg, r'.trace = r.trace ++ seg ∧ (seg.filterMap mkdirPath).Sublist (created o f) := by
  unfold synchCreateDirectory created
  split_ifs with hact
  · simp only [ends_ite, ends_bind, ends_pure, ends_localCall, ends_fileDownloaded]
    split_ifs <;> exact ⟨_, rfl, List.Sublist.refl _⟩
  · exact ⟨[], (List.append_nil _).symm, List.Sublist.refl _⟩

lemma downloadFile_mkdirs (f : SiteFile) (r : SynchRun τ) :
    Ends (downloadFile env o f) r fun _ r' =>
      ∃ seg, r'.trace = r.trace ++ seg ∧ seg.filterMap mkdirPath = [] := by
  unfold downloadFile restoreTime restorePerms
  simp only [ends_ite, ends_bind, ends_pure, ends_driverCall, ends_localCall, ends_fileDownloaded,
    List.append_assoc]
  split_ifs <;> exact ⟨_, rfl, rfl⟩

lemma synchFile_mkdirs (f : SiteFile) (r : SynchRun τ) :
    Ends (synchFile env o f) r fun _ r' =>
      ∃ seg, r'.trace = r.trace ++ seg ∧ seg.filterMap mkdirPath = [] := by
  unfold synchFile
  by_cases ht : f.type = .file
  · rw [if_neg (not_not.mpr ht)]
    cases f.diff with
    | unchanged => exact ⟨[], (List.append_nil _).symm, rfl⟩
    | deleted => exact downloadFile_mkdirs f r
    | new | moved => exact ⟨_, rfl, rfl⟩
    | changed =>
      dsimp only
      split_ifs
      · exact ⟨_, rfl, rfl⟩
      · exact downloadFile_mkdirs f r
  · rw [if_pos ht]
    exact ⟨[], (List.append_nil _).symm, rfl⟩

lemma synchDeleteDirectory_mkdirs (f : SiteFile) (r : SynchRun τ) :
    Ends (synchDeleteDirectory env o f) r fun _ r' =>
      ∃ seg, r'.trace = r.trace ++ seg ∧ seg.filterMap mkdirPath = [] := by
  unfold synchDeleteDirectory
  split_ifs
  · simp only [ends_ite, ends_bind, ends_pure, ends_localCall, ends_synchDelete]
    split_ifs <;> exact ⟨_, rfl, rfl⟩
  · exact ⟨[], (List.append_nil _).symm, rfl⟩

lemma synchPasses_mkdirs (files : List SiteFile) (r : SynchRun τ) :
    Ends (synchPasses env o files) r fun _ r' => ∃ seg, r'.trace = r.trace ++ seg ∧
      (seg.filterMap mkdirPath).Sublist (files.flatMap (created o)) := by
  unfold synchPasses
  rw [ends_bind]
  apply (forEach_logs SynchRun.trace mkdirPath files
    (fun f _ r => synchCreateDirectory_mkdirs f r) r).mono
  rintro a r₁ ⟨seg₁, h₁, hs₁⟩
  rw [ends_ite]
  split_ifs
  · rw [ends_bind]
    apply (forEach_logs_none SynchRun.trace mkdirPath a.1
      (fun f _ r => synchFile_mkdirs f r) r₁).mono
    rintro b r₂ ⟨seg₂, h₂, hs₂⟩
    rw [ends_ite]
    split_ifs
    · apply (forEachBackward_logs_none SynchRun.trace mkdirPath b.1
        (fun f _ r => synchDeleteDirectory_mkdirs f r) r₂).mono
      rintro c r₃ ⟨seg₃, h₃, hs₃⟩
      refine ⟨seg₁ ++ (seg₂ ++ seg₃), by simp [h₃, h₂, h₁], ?_⟩
      rw [List.filterMap_append, List.filterMap_append, hs₂, hs₃, List.append_nil, List.append_nil]
      exact hs₁
    · refine ⟨seg₁ ++ seg₂, by rw [← List.append_assoc, ← h₁]; exact h₂, ?_⟩
      rw [List.filterMap_append, hs₂, List.append_nil]
      exact hs₁
  · exact ⟨seg₁, h₁, hs₁⟩

/-- A synch creates missing directories in the order of the list. -/
theorem siteSynch_mkdirs (env : SynchEnv τ) (site : Site) (sess : τ) :
    (mkdirs (siteSynch env site sess).trace).Sublist (site.files.flatMap (created site.opts)) := by
  have hrun : Ends (synchSiteFiles env site.opts (needConn site.stats) site.files)
      { stats := site.stats, sess := sess } fun _ r =>
        (mkdirs r.trace).Sublist (site.files.flatMap (created site.opts)) := by
    unfold synchSiteFiles synchFinish
    split_ifs
    · simp only [ends_ite, ends_bind, ends_pure, ends_driverCall]
      split_ifs
      · exact List.nil_sublist _
      · apply (synchPasses_mkdirs site.files _).mono
        rintro a r ⟨seg, h, hs⟩
        simpa [mkdirs, h, mkdirPath, List.filterMap_cons] using hs
    · simp only [ends_bind, ends_pure]
      apply (synchPasses_mkdirs site.files _).mono
      rintro a r ⟨seg, h, hs⟩
      simpa [mkdirs, h] using hs
  exact hrun

/-- On a list of stored states the synch follows the order of the stored directories. -/
theorem mkdirs_parentsFirst {site : Site} (h : OneSided .storedSlot site)
    (hfirst : ParentsFirst slash (storedDirs site.files)) (env : SynchEnv τ) (sess : τ) :
    ParentsFirst slash (mkdirs (siteSynch env site sess).trace) := by
  have hsub : ∀ files : List SiteFile, (∀ f ∈ files, (Slot.storedSlot.get f).existing = true ∧
      ∃ n, (Slot.storedSlot.get f).filename = some n) →
      (files.flatMap (created site.opts)).Sublist
        ((storedDirs files).map fun n => site.opts.localRoot ++ n) := by
    intro files hown
    induction files with
    | nil => exact List.Sublist.refl _
    | cons f files ih =>
      obtain ⟨⟨hex, n, hn⟩, hrest⟩ := List.forall_mem_cons.mp hown
      unfold storedDirs created at *
      rw [List.flatMap_cons, List.filterMap_cons]
      by_cases ht : f.type = .dir
      · have hname : sideName .storedSlot f = some n := by rw [sideName, if_pos hex, hn]
        have hfull : fileFullLocal f.storedState site.opts = site.opts.localRoot ++ n := by
          change f.storedState.filename = some n at hn
          rw [fileFullLocal, hn, Option.getD_some]
        rw [if_pos ht, hname, List.map_cons, hfull]
        split_ifs
        · exact (ih hrest).cons_cons _
        · exact (ih hrest).cons _
      · rw [if_neg ht, if_neg fun hact => ht hact.1]
        exact ih hrest
  apply (hfirst.prepend site.opts.localRoot).sublist
  exact (siteSynch_mkdirs env site sess).trans (hsub site.files h.own)

end Synch

/-! ### What a fetch stores -/

/-- The directories among the fetched files that are not excluded. -/
def fetchedDirs (o : SiteOptions) (files : List ProtoFile) : List Text :=
  files.filterMap fun f =>
    if f.type = .dir ∧ fileIsexcluded f.filename o = false then some f.filename else none

section Fetch
variable {σ : Type} {env : FetchEnv σ} {site : Site} {tree : RemoteTree}

lemma destroyStored_files (h : ∀ f ∈ site.files, f.localState.existing = false) :
    (siteDestroyStored site).files = [] := by
  have hloop : Ends (forEach (destroyStoredFile site.opts) site.files) site.stats
      fun r _ => r.1 = [] := by
    apply (forEach_ends (I := fun done rest _ _ => done = [] ∧
      ∀ f ∈ rest, f.localState.existing = false) _ ⟨rfl, h⟩).mono
    · exact fun _ _ hI => hI.1
    · rintro done f rest failed st ⟨rfl, hrest⟩
      obtain ⟨hf, hrest⟩ := List.forall_mem_cons.mp hrest
      unfold destroyStoredFile
      rw [hf]
      exact ⟨rfl, hrest⟩
  exact hloop

lemma fetchAddFile_oneSided (h : OneSided .storedSlot site) (f : ProtoFile) (now : ℤ) :
    OneSided .storedSlot (fetchAddFile f now site).1 ∧
      storedDirs (fetchAddFile f now site).1.files = storedDirs site.files ++
        if f.type = .dir then [f.filename] else [] := by
  have hset : OneSided .storedSlot (setSlot .storedSlot (fetchedType f.type)
      (fetchedState site.opts f) site).1 := h.setSlot rfl rfl
  have hpairs : dirPairs (setSlot .storedSlot (fetchedType f.type)
      (fetchedState site.opts f) site).1.files = dirPairs site.files ++
        if fetchedType f.type = .dir then [Slot.single .storedSlot (some f.filename)] else [] :=
    h.setSlot_dirPairs rfl rfl
  have hmem := @setSlot_mem (fetchedType f.type) (fetchedState site.opts f) site .storedSlot h.linked
  rw [setSlot_stored] at hset hpairs hmem
  have hdir : fetchedType f.type = .dir ↔ f.type = .dir := by cases f.type <;> decide
  have hdirs : storedDirs site.files ++ (if f.type = .dir then [f.filename] else []) =
      storedDirs (fileSetStored (fetchedType f.type) (fetchedState site.opts f) site).1.files := by
    rw [storedDirs_eq, storedDirs_eq, hpairs, List.filterMap_append]
    congr 1
    simp only [hdir]
    split_ifs <;> rfl
  rw [hdirs]
  unfold fetchAddFile
  generalize fileSetStored (fetchedType f.type) (fetchedState site.opts f) site = r at hset hmem
  obtain ⟨ha, ht, hl, hn, he⟩ := mungeModtime_keeps site.opts r.2 f.modtime now r.1.stats
  have hmunged : OneSided .storedSlot { r.1 with
      stats := (mungeModtime site.opts r.2 f.modtime now r.1.stats).2 } :=
    ⟨⟨hset.linked.nodup, hset.linked.bounded⟩, hset.own, hset.alone⟩
  have hlocal := congrArg FileState.existing hl
  dsimp only
  rw [storedDirs_eq, storedDirs_eq]
  split_ifs
  all_goals
    refine ⟨hmunged.write hmem ha ⟨he, hn⟩ hlocal, congrArg _ ?_⟩
    apply dirPairs_write hmunged.linked hmem
    · exact ha
    · exact dirPair_congr ht hl hn he

lemma fetchAddFile_opts (f : ProtoFile) (now : ℤ) : (fetchAddFile f now site).1.opts = site.opts :=
  fileSet_opts

lemma addFetched_oneSided (files : List ProtoFile) (h : OneSided .storedSlot site) (s : σ) :
    Ends (addFetched env files site) s fun site' _ => OneSided .storedSlot site' ∧
      storedDirs site'.files = storedDirs site.files ++ fetchedDirs site.opts files := by
  induction files generalizing site s with
  | nil => exact ⟨h, (List.append_nil _).symm⟩
  | cons f files ih =>
    unfold addFetched
    cases hex : fileIsexcluded f.filename site.opts with
    | true =>
      rw [if_neg (by simp)]
      apply (ih h s).mono
      rintro site' s' ⟨hone, hdirs⟩
      refine ⟨hone, ?_⟩
      rw [hdirs]
      simp [fetchedDirs, hex]
    | false =>
      rw [if_pos (by simp), ends_bind]
      apply Ends.of_forall
      intro now s'
      obtain ⟨hadd, hdirs⟩ := fetchAddFile_oneSided h f now
      apply (ih hadd s').mono
      rintro site' s'' ⟨hone, hdirs'⟩
      refine ⟨hone, ?_⟩
      rw [hdirs', hdirs, fetchAddFile_opts, List.append_assoc]
      congr 1
      by_cases ht : f.type = .dir
      · simp [fetchedDirs, ht, hex]
      · simp [fetchedDirs, ht]

/-- The directories come listing by listing, the listing of the last one visited first. -/
lemma fetchedDirs_found {o : SiteOptions} {files : List ProtoFile} {visited : List (Text × ℕ)}
    (h : files.map shown = RemoteFetch.found tree visited) :
    fetchedDirs o files = visited.flatMap fun p => subdirectories o tree p.1 := by
  have hshown : fetchedDirs o files = (files.map shown).filterMap fun p =>
      if p.1 = .dir ∧ fileIsexcluded p.2 o = false then some p.2 else none := by
    rw [List.filterMap_map]
    rfl
  rw [hshown, h, RemoteFetch.found, List.filterMap_flatMap]
  apply List.flatMap_congr
  intro p _
  rw [List.filterMap_map]
  unfold subdirectories directories
  induction tree.listing p.1 with
  | nil => rfl
  | cons f l ih =>
    rw [List.filterMap_cons, ih]
    by_cases ht : f.type = .dir
    · cases hex : fileIsexcluded (join slash p.1 f.filename) o with
      | true => simp [keyOf, ht, hex]
      | false => simp [keyOf, ht, hex]
    · simp [keyOf, ht]

/-- Parents come first exactly if nothing but the root was found to have subdirectories. -/
theorem visited_parentsFirst_iff {o : SiteOptions} {visited : List (Text × ℕ)}
    (h : Searching (subdirectories o tree) DIRSTACKSIZE [] visited []) :
    ParentsFirst slash (visited.flatMap fun p => subdirectories o tree p.1) ↔
      ∀ d n, Placed o tree d n → n < DIRSTACKSIZE → d ≠ [] → subdirectories o tree d = [] := by
  constructor
  · intro hfirst d n hplaced hn hd
    apply List.eq_nil_iff_forall_not_mem.mpr
    intro e he
    -- `d` was found in a directory visited before it, whose listing comes later
    obtain ⟨xs, ys, hv⟩ := List.append_of_mem (h.done.mpr ⟨hplaced, hn⟩)
    obtain ⟨q, hq, hdq⟩ := (h.ordered xs _ ys hv).resolve_left hd
    rw [hv, List.flatMap_append, List.flatMap_cons] at hfirst
    have hpair := (List.pairwise_append.mp (List.pairwise_append.mp hfirst).2.1).2.2
    apply hpair e he d (List.mem_flatMap.mpr ⟨q, hq, hdq⟩)
    obtain ⟨f, _, _, _, rfl⟩ := mem_subdirectories.mp he
    exact join_below hd
  · intro hflat
    apply List.pairwise_of_forall_mem_list
    intro a ha b _
    obtain ⟨p, hp, hap⟩ := List.mem_flatMap.mp ha
    obtain ⟨hplaced, hn⟩ := h.done.mp hp
    obtain ⟨f, hf, _, _, rfl⟩ := mem_subdirectories.mp hap
    by_cases hd : p.1 = []
    · rw [hd, join_root]
      exact (tree.named _ f hf).not_below
    · rw [hflat p.1 p.2 hplaced hn hd] at hap
      cases hap

/-! ### What the file records of it -/

/-- A fetched entry has the name it was fetched under, and no link target. -/
lemma fetchAddFile_entries (h : OneSided .storedSlot site) (f : ProtoFile) (now : ℤ) :
    ∀ g ∈ (fetchAddFile f now site).1.files, g ∈ site.files ∨
      g.storedState.filename = some f.filename ∧ g.storedState.linktarget = none := by
  have hfiles : (fileSetStored (fetchedType f.type) (fetchedState site.opts f) site).1.files =
      insertFile (fetchedType f.type) (newEntry (fetchedType f.type) (fetchedState site.opts f)
        site .storedSlot .deleted) site.files := fileSet_create h.create
  have hsnd : (fileSetStored (fetchedType f.type) (fetchedState site.opts f) site).2.storedState =
      fetchedState site.opts f := @ReachedFiles.setSlot_get _ _ _ .storedSlot
  have hmunge : ∀ (e : SiteFile) (st : Stats), e.storedState = fetchedState site.opts f →
      (mungeModtime site.opts e f.modtime now st).1.storedState.filename = some f.filename ∧
        (mungeModtime site.opts e f.modtime now st).1.storedState.linktarget = none := by
    intro e st he
    unfold mungeModtime
    split_ifs <;> simp [FileSet.fileSetDiff, he, fetchedState]
  intro g hg
  unfold fetchAddFile at hg
  simp only [write, List.mem_map] at hg
  obtain ⟨e, he, rfl⟩ := hg
  split_ifs
  · exact Or.inr (hmunge _ _ hsnd)
  · rw [hfiles, mem_insertFile] at he
    rcases he with rfl | he
    · exact Or.inr ⟨rfl, rfl⟩
    · exact Or.inl he
  · exact Or.inr (hmunge _ _ hsnd)
  · rw [hfiles, mem_insertFile] at he
    rcases he with rfl | he
    · exact Or.inr ⟨rfl, rfl⟩
    · exact Or.inl he

/-- The file can record the entry. -/
def Recordable (f : SiteFile) : Prop := Named f ∧ PlainTarget f

lemma addFetched_recordable (files : List ProtoFile) (h : OneSided .storedSlot site)
    (hsite : ∀ f ∈ site.files, Recordable f) (hfiles : ∀ f ∈ files, 0 ∉ f.filename) (s : σ) :
    Ends (addFetched env files site) s fun site' _ => ∀ f ∈ site'.files, Recordable f := by
  induction files generalizing site s with
  | nil => exact hsite
  | cons f files ih =>
    obtain ⟨hf, hrest⟩ := List.forall_mem_cons.mp hfiles
    unfold addFetched
    split_ifs
    · rw [ends_bind]
      apply Ends.of_forall
      intro now s'
      apply ih (fetchAddFile_oneSided h f now).1 _ hrest
      intro g hg
      rcases fetchAddFile_entries h f now g hg with hg | ⟨hn, ht⟩
      · exact hsite g hg
      · exact ⟨⟨_, hn, hf⟩, fun _ => by rw [ht]; rfl⟩
    · exact ih h hsite hrest s

/-- The names of the tree are C strings. -/
def NulFree (tree : RemoteTree) : Prop := ∀ d, ∀ f ∈ tree.listing d, 0 ∉ f.filename

lemma join_nulFree {d n : Text} (hd : 0 ∉ d) (hn : 0 ∉ n) : 0 ∉ join slash d n := by
  unfold join
  split_ifs
  · exact hn
  · simp only [List.mem_append, List.mem_cons]
    rintro (h | h | h)
    · exact hd h
    · exact absurd h (by decide)
    · exact hn h

lemma placed_nulFree {o : SiteOptions} (hnul : NulFree tree) {d : Text} {n : ℕ}
    (h : Placed o tree d n) : 0 ∉ d := by
  induction h with
  | root => simp
  | child _ _ he ih =>
    obtain ⟨f, hf, _, _, rfl⟩ := mem_subdirectories.mp (List.mem_of_getElem? he)
    exact join_nulFree ih (hnul _ f hf)

lemma found_nulFree {o : SiteOptions} (hnul : NulFree tree) {files : List ProtoFile}
    {visited : List (Text × ℕ)} (h : Searching (subdirectories o tree) DIRSTACKSIZE [] visited [])
    (hshown : files.map shown = RemoteFetch.found tree visited) : ∀ f ∈ files, 0 ∉ f.filename := by
  intro f hf
  have hmem : shown f ∈ RemoteFetch.found tree visited := by
    rw [← hshown]
    exact List.mem_map_of_mem hf
  simp only [RemoteFetch.found, List.mem_flatMap, List.mem_map] at hmem
  obtain ⟨p, hp, g, hg, hk⟩ := hmem
  have hname : join slash p.1 g.filename = f.filename := congrArg Prod.snd hk
  rw [← hname]
  exact join_nulFree (placed_nulFree hnul (h.done.mp hp).1) (hnul _ g hg)

end Fetch

/-! ### The order -/

/-- Whatever a synch meets, it creates no directory before its parent. -/
def CreatesParentsFirst (site : Site) : Prop :=
  ∀ (τ : Type) (env : SynchEnv τ) (sess : τ),
    ParentsFirst slash (mkdirs (siteSynch env site sess).trace)

/-- The directories of the list, and of what is read back from its file, are in the order in
which they can be created. -/
structure CreationOrder (P : Xml.Parser) (m : DataModel) (site : Site) : Prop where
  list : ParentsFirst slash (storedDirs site.files)
  synch : CreatesParentsFirst site
  reread : ∀ dest : Site, dest.files = [] → (readBack P m site dest).lastError = none →
    ParentsFirst slash (storedDirs (readBack P m site dest).site.files) ∧
      CreatesParentsFirst (readBack P m site dest).site

/-- Writing and reading keeps the order of the directories. -/
theorem creationOrder_iff (P : Xml.Parser) (m : DataModel) {site : Site}
    (h : OneSided .storedSlot site) (hrec : ∀ f ∈ site.files, Recordable f) :
    CreationOrder P m site ↔ ParentsFirst slash (storedDirs site.files) := by
  constructor
  · exact CreationOrder.list
  · intro hfirst
    refine ⟨hfirst, fun τ env sess => mkdirs_parentsFirst h hfirst env sess, ?_⟩
    intro dest hempty hok
    have hstored : ∀ f ∈ storedFiles site, Recordable f := fun f hf =>
      hrec f (List.mem_of_mem_filter hf)
    have hreads := readBack_stores (fun f hf => (hstored f hf).1)
      (targetsAreText_of_plain fun f hf => (hstored f hf).2) hok
    have hdest : OneSided .storedSlot { dest with storedStateMethod := site.opts.stateMethod } := by
      refine ⟨⟨?_, ?_⟩, ?_, ?_⟩ <;> simp [hempty]
    obtain ⟨hone, hdirs⟩ := StoresAll.oneSided hreads hdest
    rw [dirKeys_stored fun f hf => (hstored f hf).1] at hdirs
    have hkept : storedDirs (readBack P m site dest).site.files = storedDirs site.files := by
      rw [hdirs]
      simp [hempty, storedDirs]
    rw [← hkept] at hfirst
    exact ⟨hfirst, fun τ env sess => mkdirs_parentsFirst hone hfirst env sess⟩

section Order
variable {σ : Type} {env : FetchEnv σ} {site : Site} {tree : RemoteTree}

lemma siteFetch_order (hlocal : ∀ f ∈ site.files, f.localState.existing = false)
    (hs : Serves env site.opts tree) (hnul : NulFree tree) (P : Xml.Parser) (m : DataModel)
    {fuel : ℕ} (hfuel : size (subdirectories site.opts tree) tree.height [] < fuel) (sess : σ) :
    Ends (siteFetch env fuel site) sess fun r _ => ∃ out, r = some out ∧
      (out.ret = SITE_OK → (CreationOrder P m out.site ↔ ∀ d n, Placed site.opts tree d n →
        n < DIRSTACKSIZE → d ≠ [] → subdirectories site.opts tree d = [])) := by
  apply (siteFetch_runs hs hfuel sess).mono
  rintro _ _ ⟨out, rfl, hruns⟩
  refine ⟨out, rfl, fun hok => ?_⟩
  obtain ⟨visited, files, s', hdone, hshown, hsite⟩ := hruns hok
  have hempty := destroyStored_files hlocal
  have hnone : OneSided .storedSlot (siteDestroyStored site) := by
    refine ⟨⟨?_, ?_⟩, ?_, ?_⟩ <;> simp [hempty]
  obtain ⟨hone, hdirs⟩ := @addFetched_oneSided σ env _ files hnone s'
  have hrec := @addFetched_recordable σ env _ files hnone (by simp [hempty])
    (found_nulFree hnul hdone hshown) s'
  change ∀ f ∈ ((addFetched env files (siteDestroyStored site)).run s').1.files, _ at hrec
  rw [← hsite] at hone hdirs hrec
  rw [creationOrder_iff P m hone hrec, hdirs, hempty, ← visited_parentsFirst_iff hdone]
  change ParentsFirst slash ([] ++ fetchedDirs site.opts files) ↔ _
  rw [List.nil_append, fetchedDirs_found hshown]

end Order

/-- A successful fetch leaves its directories in creation order exactly if no visited
directory but the root has subdirectories. -/
theorem fetch_order_iff {σ : Type} (env : FetchEnv σ) (site : Site) (tree : RemoteTree)
    (hlocal : ∀ f ∈ site.files, f.localState.existing = false) (hs : Serves env site.opts tree)
    (hnul : NulFree tree) (P : Xml.Parser) (m : DataModel) (sess : σ) :
    ∃ fuel₀, ∀ fuel ≥ fuel₀, ∃ r sess', (siteFetch env fuel site).run sess = (some r, sess') ∧
      (r.ret = SITE_OK → (CreationOrder P m r.site ↔ ∀ d n, Placed site.opts tree d n →
        n < DIRSTACKSIZE → d ≠ [] → subdirectories site.opts tree d = [])) := by
  refine ⟨size (subdirectories site.opts tree) tree.height [] + 1, fun fuel hfuel => ?_⟩
  have hsize : size (subdirectories site.opts tree) tree.height [] < fuel := by omega
  obtain ⟨out, hout, hiff⟩ := siteFetch_order hlocal hs hnul P m hsize sess
  exact ⟨out, _, Prod.ext hout rfl, hiff⟩

/-- The directory `a` with a directory `b` in it. -/
def deepTree : RemoteTree where
  listing d :=
    if d = [] then [{ filename := ascii "a", type := .dir }]
    else if d = ascii "a" then [{ filename := ascii "b", type := .dir }]
    else []
  height := 2
  finite := by
    intro e (he : e ∈ [ascii "a"])
    rw [List.mem_singleton.mp he]
    intro e' (he' : e' ∈ [ascii "a/b"])
    rw [List.mem_singleton.mp he']
    rfl
  named d f hf := by
    split_ifs at hf
    · rw [List.mem_singleton.mp hf]
      exact ⟨by decide, by decide⟩
    · rw [List.mem_singleton.mp hf]
      exact ⟨by decide, by decide⟩
    · cases hf
  distinct d := by split_ifs <;> simp

lemma deepTree_nulFree : NulFree deepTree := by
  intro d f hf
  unfold deepTree at hf
  dsimp only at hf
  split_ifs at hf
  · rw [List.mem_singleton.mp hf]
    decide
  · rw [List.mem_singleton.mp hf]
    decide
  · cases hf

theorem fetch_order_iff_deep :
    ∃ fuel₀, ∀ fuel ≥ fuel₀, ∃ r sess',
      (siteFetch (treeDriver {} deepTree) fuel { opts := {} }).run PUnit.unit = (some r, sess') ∧
      (r.ret = SITE_OK → (CreationOrder Xml.scanner .lp64 r.site ↔ ∀ d n, Placed {} deepTree d n →
        n < DIRSTACKSIZE → d ≠ [] → subdirectories {} deepTree d = [])) :=
  fetch_order_iff (treeDriver {} deepTree) { opts := {} } deepTree (by simp)
    (treeDriver_serves _ _) deepTree_nulFree Xml.scanner .lp64 PUnit.unit

/-- The inner directory comes first in the list, and is the first to be created. -/
theorem nested_directory_first :
    ∃ fuel r sess', (siteFetch (treeDriver {} deepTree) fuel { opts := {} }).run PUnit.unit =
        (some r, sess') ∧
      r.ret = SITE_OK ∧ ¬ CreationOrder Xml.scanner .lp64 r.site := by
  have hdirs : ((siteFetch (treeDriver {} deepTree) 4 { opts := {} }).run PUnit.unit).1.map
      (fun r => (r.ret, storedDirs r.site.files)) =
        some (SITE_OK, [ascii "a/b", ascii "a"]) := by
    decide
  cases hrun : (siteFetch (treeDriver {} deepTree) 4 { opts := {} }).run PUnit.unit with
  | mk out sess' =>
    rw [hrun] at hdirs
    obtain ⟨r, rfl, hr⟩ := Option.map_eq_some_iff.mp hdirs
    obtain ⟨hret, hlist⟩ := Prod.mk.inj hr
    refine ⟨4, r, sess', hrun, hret, fun h => ?_⟩
    have hfirst := h.list
    rw [hlist] at hfirst
    exact (List.pairwise_cons.mp hfirst).1 (ascii "a") (by simp) ⟨ascii "b", by decide⟩

end Sitecopy.FetchOrder
