import Sitecopy.DirectoryOrder
import Sitecopy.InfoFileReading
import Sitecopy.LinkTargets
import Sitecopy.ScanCompleteness

/-!
# Sequences of console runs

A run scans the local tree, reads what the run before wrote, updates the remote site and
writes the info file, or it catches up or initializes and writes the file. Whatever the
driver does, the directories stay in order, as long as no link target in an info file
holds markup.
-/
namespace Sitecopy.ConsoleRuns
open SiteModel FileSet FileSetSpec StateProgram SiteStats SiteUpdate SiteOperations StateFile
open DirectoryLists DirectoryOrder Paths LocalScan ScanCompleteness StackSearch StateFileErrors
open HiddenPaths NamedEntries UpdateAccounting

/-! ### Scans with failures -/

section Seen
variable {disk : Disk} {fails : Failures} {o : SiteOptions} {d n : Text}

/-- The disk as a scan sees it if these calls fail. -/
def seenDisk (disk : Disk) (fails : Failures) (o : SiteOptions) : Disk :=
  { disk with entries := fun d => if fails .opendir d then []
      else (disk.entries d).filter fun n => (scanEntry disk fails o d n).isSome }

lemma scanEntry_seen {r : FileType × FileState} (h : scanEntry disk fails o d n = some r) :
    scanEntry (seenDisk disk fails o) noFailures o d n = some r := by
  unfold scanEntry at h ⊢
  split_ifs at h ⊢
  obtain ⟨item, hitem, h⟩ := Option.bind_eq_some_iff.mp h
  have hseen : examine (seenDisk disk fails o) noFailures o (d ++ n) = some item :=
    examine_some.mpr ⟨(examine_some.mp hitem).1, rfl, fun _ _ => rfl⟩
  dsimp only at h ⊢
  rw [hseen, Option.bind_some]
  split_ifs at h ⊢
  obtain ⟨s, hs, rfl⟩ := Option.map_eq_some_iff.mp h
  have hread : readState (seenDisk disk fails o) noFailures o (d ++ n)
      ((d ++ n).drop o.localRoot.length) item = some s := by
    unfold readState at hs ⊢
    cases hk : item.kind <;> cases hm : o.stateMethod <;>
      simp only [hk, hm, noFailures, Bool.false_eq_true, if_false] at hs ⊢
    all_goals first
      | exact hs
      | split_ifs at hs
        exact hs
  rw [hread]
  rfl

/-- What a loop over the entries finds. -/
lemma entries_seen {β : Type} (g : Text → Option (FileType × FileState) → Option β)
    (hg : ∀ n, g n none = none) (d : Text) :
    ((seenDisk disk fails o).entries d).filterMap
        (fun n => g n (scanEntry (seenDisk disk fails o) noFailures o d n)) =
      if fails .opendir d then [] else
        (disk.entries d).filterMap fun n => g n (scanEntry disk fails o d n) := by
  unfold seenDisk
  dsimp only
  split_ifs
  · rfl
  · rw [List.filterMap_filter]
    apply List.filterMap_congr
    intro n _
    cases h : scanEntry disk fails o d n with
    | none => simp [hg]
    | some r =>
      rw [Option.isSome_some, if_pos rfl]
      exact congrArg (g n) (scanEntry_seen h)

lemma callsIn_seen : callsIn (seenDisk disk fails o) noFailures o = callsIn disk fails o := by
  funext d
  exact entries_seen (fun _ r => r) (fun _ => rfl) d

/-- The path of a directory that a scan enters. -/
def enteredPath (d n : Text) : Option (FileType × FileState) → Option Text
  | some (.dir, _) => some (d ++ n ++ [slash])
  | _ => none

lemma subdirectories_seen : subdirectories (seenDisk disk fails o) noFailures o =
    subdirectories disk fails o := by
  funext d
  exact entries_seen (enteredPath d) (fun _ => rfl) d

/-- A scan with failures is a scan of this disk without failures. -/
theorem siteReadLocalState_seen (disk : Disk) (fails : Failures) (fuel : ℕ) (site : Site) :
    siteReadLocalState disk fails fuel site =
      siteReadLocalState (seenDisk disk fails site.opts) noFailures fuel site := by
  rw [siteReadLocalState_calls, siteReadLocalState_calls, scanCalls_eq, scanCalls_eq,
    subdirectories_seen, callsIn_seen]

def seenTree (tree : LocalTree o) (fails : Failures) : LocalTree o where
  toDisk := seenDisk tree.toDisk fails o
  height := tree.height
  finite := by
    apply tree.finite.mono
    intro d e he
    obtain ⟨n, hn, he⟩ := List.mem_filterMap.mp he
    refine List.mem_filterMap.mpr ⟨n, ?_, he⟩
    unfold seenDisk at hn
    dsimp only at hn
    split_ifs at hn
    · cases hn
    · exact List.mem_of_mem_filter hn
  named d n hn := by
    unfold seenDisk at hn
    dsimp only at hn
    split_ifs at hn
    · cases hn
    · exact tree.named d n (List.mem_of_mem_filter hn)
  distinct d := by
    unfold seenDisk
    dsimp only
    split_ifs
    · exact List.nodup_nil
    · exact (tree.distinct d).filter _

end Seen

/-! ### The list after a scan -/

section Above
variable {disk : Disk} {o : SiteOptions} {ds : List Text} {n b : Text}

/-- What an entry lies below are the directories on the way to it. -/
lemma below_relPath (hds : ∀ c ∈ ds, slash ∉ c) (hn : slash ∉ n)
    (h : Below slash (relPath ds n) b) :
    ∃ es m rest, ds = es ++ m :: rest ∧ b = relPath es m := by
  obtain ⟨t, h⟩ := h
  induction ds generalizing b with
  | nil =>
    have hmem : slash ∈ n := by
      change n = _ at h
      rw [h]
      simp
    exact absurd hmem hn
  | cons d ds ih =>
    rw [relPath_cons] at h
    rcases List.append_eq_append_iff.mp h with ⟨l, rfl, hl⟩ | ⟨l, rfl, hl⟩
    · cases l with
      | nil => exact ⟨[], d, ds, rfl, List.append_nil d⟩
      | cons c l =>
        obtain ⟨rfl, hrest⟩ := List.cons.inj hl
        obtain ⟨es, m, rest, rfl, rfl⟩ := ih (fun c hc => hds c (by simp [hc])) hrest
        exact ⟨d :: es, m, rest, rfl, (relPath_cons d).symm⟩
    · cases l with
      | nil => exact ⟨[], b, ds, by simp, rfl⟩
      | cons c l =>
        obtain ⟨rfl, -⟩ := List.cons.inj hl
        exact absurd (by simp) (hds _ List.mem_cons_self)

lemma inside_above (h : Inside disk o ds) {es rest : List Text} {m : Text}
    (hds : ds = es ++ m :: rest) :
    Inside disk o es ∧ Lists disk noFailures o (dirPath o es) m .dir := by
  induction h generalizing es m rest with
  | root => simp at hds
  | @child ds n hinside hlists ih =>
    rcases List.eq_nil_or_concat rest with rfl | ⟨rest', x, rfl⟩
    · obtain ⟨rfl, hm⟩ := List.append_inj' hds rfl
      obtain ⟨rfl, -⟩ := List.cons.inj hm
      exact ⟨hinside, hlists⟩
    · rw [List.concat_eq_append, ← List.cons_append, ← List.append_assoc] at hds
      exact ih (List.append_inj' hds rfl).1

/-- Whatever a file lies below is a directory that is there. -/
lemma present_above (tree : LocalTree o) {type : FileType} (h : Present tree.toDisk o type n)
    (hb : Below slash n b) : Present tree.toDisk o .dir b := by
  obtain ⟨ds, name, hinside, hlists, rfl⟩ := h
  obtain ⟨es, m, rest, hds, rfl⟩ := below_relPath (plain_of_inside tree hinside)
    (tree.named _ name hlists.mem).plain hb
  obtain ⟨hes, hm⟩ := inside_above hinside hds
  exact ⟨es, m, hes, hm, rfl⟩

end Above

/-- The names of a tree are C strings. -/
def NulFree (disk : Disk) : Prop := ∀ d, ∀ n ∈ disk.entries d, 0 ∉ n

/-- The directories among the calls of `file_set_local`. -/
def calledDirs (calls : List (FileType × FileState)) : List Text :=
  calls.filterMap fun c => if c.1 = .dir then c.2.filename else none

/-- A list of local states with these directories. -/
structure Scanned (o : SiteOptions) (L : List Text) (site : Site) : Prop where
  paired : PairedSite o site
  cnamed : ∀ f ∈ site.files, ∀ s : Slot, CNamed (s.get f)
  side : OneSided .localSlot site
  pairs : dirPairs site.files = L.map fun n => (some n, none)

section Scanned
variable {o : SiteOptions} {L : List Text} {site : Site}

lemma Scanned.empty (o : SiteOptions) : Scanned o [] { opts := o } where
  paired := ⟨⟨by simp, by simp⟩, rfl, by simp⟩
  cnamed := by simp
  side := ⟨⟨by simp, by simp⟩, by simp, by simp⟩
  pairs := rfl

lemma Scanned.setLocal (h : Scanned o L site) (type : FileType) {state : FileState} {n : Text}
    (hn : state.filename = some n) (hex : state.existing = true) (hnul : 0 ∉ n) :
    Scanned o (L ++ calledDirs [(type, state)]) (ScanCompleteness.setLocal type state site) where
  paired := h.paired.setSlot .localSlot type hex
  cnamed := @setSlot_cnamed type state site .localSlot h.paired.linked h.cnamed
    fun _ => ⟨n, hn, hnul⟩
  side := h.side.setSlot hn hex
  pairs := by
    have hpairs : dirPairs (ScanCompleteness.setLocal type state site).files =
        dirPairs site.files ++ if type = .dir then [Slot.single .localSlot (some n)] else [] :=
      h.side.setSlot_dirPairs hn hex
    rw [hpairs, h.pairs, List.map_append]
    congr 1
    by_cases ht : type = .dir
    · simp [calledDirs, ht, hn, Slot.single]
    · simp [calledDirs, ht]

lemma Scanned.makeCalls (h : Scanned o L site) (calls : List (FileType × FileState))
    (hcalls : ∀ c ∈ calls, c.2.existing = true ∧ ∃ n, c.2.filename = some n ∧ 0 ∉ n) :
    Scanned o (L ++ calledDirs calls)
      (ScanCompleteness.makeCalls ScanCompleteness.setLocal calls site) := by
  induction calls generalizing L site with
  | nil =>
    have hnone : calledDirs [] = [] := rfl
    rwa [hnone, List.append_nil]
  | cons c calls ih =>
    obtain ⟨⟨hex, n, hn, hnul⟩, hrest⟩ := List.forall_mem_cons.mp hcalls
    have hcons : calledDirs (c :: calls) = calledDirs [c] ++ calledDirs calls :=
      @List.filterMap_append _ _ [c] calls _
    rw [hcons, ← List.append_assoc]
    exact ih (h.setLocal c.1 hn hex hnul) hrest

lemma Scanned.merging (h : Scanned o L site) : Merging o L [] site := by
  refine ⟨h.paired, h.cnamed, ?_, ?_, [], ?_, List.Sublist.refl _, by simp⟩
  · rw [localDirs_eq, h.pairs, List.filterMap_map]
    exact List.filterMap_some
  · rw [storedDirs_eq, h.pairs, List.filterMap_map]
    simp
  · rw [dirNames_eq, h.pairs, List.filterMap_map, List.append_nil]
    exact List.filterMap_some

/-- The local directories of a list that was just scanned: parents come first, and above a
directory there are only others. -/
structure Arranged (L : List Text) : Prop where
  distinct : L.Nodup
  parentsFirst : ParentsFirst slash L
  closed : ∀ a ∈ L, ∀ b, Below slash a b → b ∈ L

lemma mem_calledDirs {calls : List (FileType × FileState)} {n : Text} :
    n ∈ calledDirs calls ↔ ∃ c ∈ calls, c.1 = .dir ∧ c.2.filename = some n := by
  unfold calledDirs
  rw [List.mem_filterMap]
  constructor
  · rintro ⟨c, hc, hn⟩
    split_ifs at hn with ht
    exact ⟨c, hc, ht, hn⟩
  · rintro ⟨c, hc, ht, hn⟩
    exact ⟨c, hc, by rw [if_pos ht, hn]⟩

lemma calledDirs_arranged (tree : LocalTree o) {calls : List (FileType × FileState)}
    (h : Complete tree.toDisk o calls) : Arranged (calledDirs calls) where
  distinct := by
    refine List.pairwise_filterMap.mpr (h.once.imp ?_)
    intro c e hce p hp q hq hpq
    split_ifs at hp hq
    exact hce (hp.trans (hpq ▸ hq.symm))
  parentsFirst := by
    refine List.pairwise_filterMap.mpr (h.ordered.imp ?_)
    intro c e hce p hp q hq
    split_ifs at hp hq
    exact hce p q hp hq
  closed a ha b hb := by
    rw [mem_calledDirs] at ha ⊢
    exact (h.listed .dir b).mpr (present_above tree ((h.listed .dir a).mp ha) hb)

lemma present_nulFree {disk : Disk} (hnul : NulFree disk) {type : FileType} {n : Text}
    (h : Present disk o type n) : 0 ∉ n := by
  obtain ⟨ds, m, hinside, hlists, rfl⟩ := h
  have hds : ∀ c ∈ ds, 0 ∉ c := by
    clear hlists
    induction hinside with
    | root => simp
    | @child ds n _ hl ih =>
      intro c hc
      rcases List.mem_append.mp hc with hc | hc
      · exact ih c hc
      · obtain rfl := List.mem_singleton.mp hc
        exact hnul _ c hl.mem
  simp only [relPath, List.mem_append, List.mem_flatMap, not_or, not_exists, not_and]
  exact ⟨fun c hc => ⟨hds c hc, by decide⟩, hnul _ m hlists.mem⟩

/-- A scan gives a list of local states with arranged directories. -/
theorem scan_scanned (tree : LocalTree o) (hnul : NulFree tree.toDisk) (fails : Failures)
    {fuel : ℕ} (h : siteReadLocalState tree.toDisk fails fuel { opts := o } = some site) :
    ∃ L, Scanned o L site ∧ Arranged L := by
  have hnul' : NulFree (seenTree tree fails).toDisk := by
    intro d n hn
    apply hnul d
    change n ∈ if fails .opendir d then [] else (tree.entries d).filter _ at hn
    split_ifs at hn
    · cases hn
    · exact List.mem_of_mem_filter hn
  obtain ⟨calls, fuel', hcomplete, hruns⟩ := scan_complete { opts := o } (seenTree tree fails)
  have hscanned := (Scanned.empty o).makeCalls calls ?_
  · -- both amounts of fuel suffice
    rw [siteReadLocalState_seen] at h
    have hmax := scanLoop_mono (Nat.le_max_left fuel fuel') h
    have hmax' := scanLoop_mono (Nat.le_max_right fuel fuel') (hruns fuel' le_rfl).2
    rw [← Option.some.inj (hmax.symm.trans hmax'), List.nil_append] at hscanned
    exact ⟨_, hscanned, calledDirs_arranged (seenTree tree fails) hcomplete⟩
  · intro c hc
    obtain ⟨path, item, hname, hdescribes⟩ := hcomplete.described c hc
    have hpresent := (hcomplete.listed c.1 path).mp ⟨c, hc, rfl, hname⟩
    exact ⟨hdescribes.existing, path, hname, present_nulFree hnul' hpresent⟩

end Scanned

/-! ### The runs -/

/-- How far a run has come. -/
inductive Stage
  | begun
  | scanned
  | ready
  deriving DecidableEq, Repr

/-- The info file and the list in the course of any number of runs, of which each may have its
own options. A list is written only if it is among the `allowed` ones. -/
inductive Reached (P : Xml.Parser) (m : DataModel) (allowed : Site → Prop) :
    InfoFile → Stage → Site → Prop
  | first (o : SiteOptions) : Reached P m allowed .missing .begun { opts := o }
  /-- the next run begins, whether or not this one came to its end -/
  | next {file : InfoFile} {stage : Stage} {site : Site} (o : SiteOptions) :
      Reached P m allowed file stage site → Reached P m allowed file .begun { opts := o }
  | scan {file : InfoFile} {o : SiteOptions} {site : Site} (tree : LocalTree o) (fails : Failures)
      (fuel : ℕ) : NulFree tree.toDisk → Reached P m allowed file .begun { opts := o } →
      siteReadLocalState tree.toDisk fails fuel { opts := o } = some site →
      Reached P m allowed file .scanned site
  | read {file : InfoFile} {site : Site} : Reached P m allowed file .scanned site →
      (siteReadStoredState P m file site).ret ≠ SITE_ERRORS →
      (siteReadStoredState P m file site).ret ≠ SITE_FAILED →
      Reached P m allowed file .ready (siteReadStoredState P m file site).site
  /-- with any driver and any answers of the user -/
  | update {file : InfoFile} {site : Site} {σ : Type} (env : Env σ) (sess : σ) :
      Reached P m allowed file .ready site →
      Reached P m allowed file .ready (siteUpdate env site sess).site
  /-- the list after one pass of an update -/
  | pass {file : InfoFile} {site : Site} {σ : Type} (env : Env σ) (sess : σ) (p : Handler) :
      Reached P m allowed file .ready site →
      Reached P m allowed file .ready (runHandler env sess p site)
  | catchup {file : InfoFile} {site : Site} : Reached P m allowed file .scanned site →
      Reached P m allowed file .ready (siteCatchup site)
  | init {file : InfoFile} {site : Site} : Reached P m allowed file .begun site →
      Reached P m allowed file .ready (siteInitialize site)
  | write {file : InfoFile} {site : Site} : Reached P m allowed file .ready site → allowed site →
      Reached P m allowed (.readable (siteWriteStoredState site).1) .ready
        (siteWriteStoredState site).2

/-- No link target that is written holds markup. -/
def TargetsRaw (site : Site) : Prop := ∀ f ∈ storedFiles site, RawTarget f

/-- The file holds directories in order under names that can be read back. -/
inductive FileOk : InfoFile → Prop
  | missing : FileOk .missing
  | written {site : Site} : Ordered site.files → TargetsRaw site →
      FileOk (.readable (siteWriteStoredState site).1)

/-- What holds of the list at each stage. -/
def ListOk : Stage → Site → Prop
  | .begun, site => site.files = []
  | .scanned, site => ∃ o L, Scanned o L site ∧ Arranged L
  | .ready, site => OrderedSite site

section Invariant
variable {P : Xml.Latin1Parser} {m : DataModel} {o : SiteOptions} {L K : List Text} {site : Site}

lemma nameOk_of_paired {f : SiteFile} (h : Paired o f) (hn : ∀ s : Slot, CNamed (s.get f)) :
    NameOk f where
  localNamed hl := by
    obtain ⟨n, hname, -⟩ := hn .localSlot hl
    exact Option.isSome_iff_exists.mpr ⟨n, hname⟩
  storedNamed hs := by
    obtain ⟨n, hname, -⟩ := hn .storedSlot hs
    exact Option.isSome_iff_exists.mpr ⟨n, hname⟩
  deleted_iff := h.deleted_iff
  present hl := h.present.resolve_left (by simp [hl])
  paired hd := by
    have hcmp : fileCompare f.type f.localState f.storedState o = f.diff := h.compared.symm
    exact (fileCompare_both hcmp (by rcases hd with hd | hd <;> simp [hd])
      (by rcases hd with hd | hd <;> simp [hd])).2

lemma orderedSite_merged (h : Merging o L K site) (hL : Arranged L)
    (hK : K.Nodup ∧ ParentsFirst slash K) : OrderedSite site where
  linked := h.paired.linked
  entries f hf := nameOk_of_paired (h.paired.paired f hf) (h.cnamed f hf)
  ordered := h.ordered ⟨hL.distinct, hL.parentsFirst⟩ hL.closed hK

lemma Scanned.orderedSite (h : Scanned o L site) (hL : Arranged L) : OrderedSite site :=
  orderedSite_merged h.merging hL ⟨List.nodup_nil, List.Pairwise.nil⟩

lemma orderedSite_nil (h : site.files = []) : OrderedSite site := by
  refine ⟨⟨⟨?_, ?_⟩, ?_⟩, ?_, ?_, ?_⟩ <;> simp [h, dirNames, ParentsFirst]

/-- Raw targets are reported as text. -/
lemma targetsAreText_of_raw (h : TargetsRaw site) : TargetsAreText P.toParser site := by
  intro haccept
  refine ⟨Xml.decode, ?_⟩
  obtain ⟨hdecoded, -⟩ := (reported_document h).events
  have hdelivers := P.decodes _ (stateDocument_raw h) rfl (by
    rw [← siteWriteStoredState_render]
    exact haccept)
  rw [hdecoded, ← siteWriteStoredState_render] at hdelivers
  exact hdelivers

lemma named_of_namesOk {f : SiteFile} (h : NamesOk f) (hs : f.storedState.existing = true) :
    StateFile.Named f := h.storedName hs

/-- Reading what was written of an ordered list into a scanned one. -/
lemma orderedSite_read {dest : Site} (hsite : Ordered site.files) (hraw : TargetsRaw site)
    (hdest : Scanned o L dest) (hL : Arranged L)
    (hok : (readBack P.toParser m site dest).lastError = none) :
    OrderedSite (readBack P.toParser m site dest).site := by
  have hnames : ∀ f ∈ storedFiles site, StateFile.Named f := by
    intro f hf
    obtain ⟨hmem, hex⟩ := List.mem_filter.mp hf
    exact named_of_namesOk (hsite.entries f hmem) hex
  have hreads := readBack_stores hnames (targetsAreText_of_raw hraw) hok
  have hkeys := dirKeys_stored hnames
  have hsub := hsite.storedDirs_sublist
  have hmerging : Merging o L [] { dest with storedStateMethod := site.opts.stateMethod } := by
    obtain ⟨⟨⟨hnodup, hbounded⟩, hopts, hpaired⟩, hcnamed, hlocals, hrecorded, hdirs⟩ :=
      hdest.merging
    exact ⟨⟨⟨hnodup, hbounded⟩, hopts, hpaired⟩, hcnamed, hlocals, hrecorded, hdirs⟩
  have hread := storesAll_merging hreads hmerging ?_ ?_
  · rw [List.nil_append, hkeys] at hread
    exact orderedSite_merged hread hL
      ⟨hsite.distinct.sublist hsub, hsite.parentsFirst.sublist hsub⟩
  · intro k hk
    obtain ⟨f, hf, rfl⟩ := List.mem_map.mp hk
    obtain ⟨n, hn, hnul⟩ := hnames f hf
    rw [storedKey, hn, Option.getD_some]
    exact hnul
  · rw [List.nil_append, hkeys]
    exact hsite.distinct.sublist hsub

lemma lastError_none {contents : Text}
    (h : (siteReadStoredState P.toParser m (.readable contents) site).ret ≠ SITE_ERRORS) :
    (parseStorageFile P.toParser m contents site).lastError = none := by
  unfold siteReadStoredState parseStorageFile at *
  dsimp only at *
  split
  · next hfailure =>
    rw [hfailure] at h
    exact absurd rfl h
  · next hfailure =>
    rw [hfailure] at h
    split_ifs at h ⊢
    · rfl
    · exact absurd rfl h

theorem reached_ok {file : InfoFile} {stage : Stage}
    (h : Reached P.toParser m TargetsRaw file stage site) : FileOk file ∧ ListOk stage site := by
  induction h with
  | first o => exact ⟨.missing, rfl⟩
  | next o _ ih => exact ⟨ih.1, rfl⟩
  | scan tree fails fuel hnul _ hscan ih =>
    obtain ⟨L, hscanned, hL⟩ := scan_scanned tree hnul fails hscan
    exact ⟨ih.1, _, L, hscanned, hL⟩
  | read _ herrors hfailed ih =>
    obtain ⟨hfile, o, L, hscanned, hL⟩ := ih
    refine ⟨hfile, ?_⟩
    cases hfile with
    | missing => exact absurd rfl hfailed
    | written hordered hraw =>
      exact orderedSite_read hordered hraw hscanned hL (lastError_none herrors)
  | update env sess _ ih => exact ⟨ih.1, OrderedSite.update ih.2 env sess⟩
  | pass env sess p _ ih => exact ⟨ih.1, OrderedSite.handler ih.2 env sess p⟩
  | catchup _ ih =>
    obtain ⟨hfile, o, L, hscanned, hL⟩ := ih
    exact ⟨hfile, (hscanned.orderedSite hL).catchup⟩
  | @init file site _ ih =>
    obtain ⟨hfile, hnone⟩ := ih
    refine ⟨hfile, orderedSite_nil ?_⟩
    change (siteDestroyStored site).files = []
    unfold siteDestroyStored visitFiles
    rw [show site.files = [] from hnone]
    rfl
  | write _ hallowed ih =>
    obtain ⟨-, ⟨⟨hnodup, hbounded⟩, hentries⟩, hordered⟩ := ih
    exact ⟨.written hordered hallowed, ⟨⟨hnodup, hbounded⟩, hentries⟩, hordered⟩

lemma ListOk.orderedSite {stage : Stage} (h : ListOk stage site) : OrderedSite site := by
  cases stage with
  | begun => exact orderedSite_nil h
  | scanned =>
    obtain ⟨o, L, hscanned, hL⟩ := h
    exact hscanned.orderedSite hL
  | ready => exact h

end Invariant

/-! ### The calls for directories -/

def dirCreated : Event → Option Text
  | .call _ (.dirCreate dirname) _ => some dirname
  | _ => none

def dirRemoved : Event → Option Text
  | .call _ (.dirRemove dirname) _ => some dirname
  | _ => none

/-- The remote path of a name. -/
def remoteName (o : SiteOptions) (n : Text) : Text :=
  o.remoteRoot ++ if o.lowercase then n.map tolower else n

/-- What one pass over the list does. -/
def passTrace {σ : Type} (env : Env σ) (sess : σ) (p : Handler) (site : Site) : List Event :=
  ((p.pass env site.opts site.files).run { stats := site.stats, sess := sess }).2.trace

section Calls
variable {σ : Type} {env : Env σ} {o : SiteOptions} {files : List SiteFile}

/-- The name of a directory on one side, if it has one there. -/
def sideDir (s : Slot) (f : SiteFile) : List Text :=
  (if f.type = .dir then sideName s f else none).toList

lemma flatMap_sideDir (s : Slot) (files : List SiteFile) : files.flatMap (sideDir s) =
    files.filterMap fun f => if f.type = .dir then sideName s f else none :=
  (List.filterMap_eq_flatMap_toList _ _).symm

lemma sideDir_of_named {s : Slot} {f : SiteFile} (ht : f.type = .dir)
    (hex : (s.get f).existing = true) (hn : CNamed (s.get f)) :
    (sideDir s f).map (remoteName o) = [fileFullRemote (s.get f) o] := by
  obtain ⟨n, hname, -⟩ := hn hex
  simp [sideDir, sideName, ht, hex, hname, remoteName, fileFullRemote]

lemma updateCreateDirectory_creates {f : SiteFile} (h : NameOk f) (hn : NamesOk f) (r : Run σ) :
    Ends (updateCreateDirectory env o f) r fun _ r' => ∃ seg, r'.trace = r.trace ++ seg ∧
      (seg.filterMap dirCreated).Sublist ((sideDir .localSlot f).map (remoteName o)) := by
  unfold updateCreateDirectory finishDirectory
  by_cases hact : f.type = .dir ∧ (f.diff = .new ∨ f.diff = .changed)
  · have hl : f.localState.existing = true :=
      h.localExisting (by rcases hact.2 with hd | hd <;> simp [hd])
    rw [if_pos hact, sideDir_of_named (s := .localSlot) hact.1 hl hn.localName]
    simp only [ends_ite, ends_bind, ends_pure, ends_feCanUpdate, ends_call, ends_driverErr,
      ends_fileUploaded, List.append_assoc]
    split_ifs
    all_goals first
      | exact ⟨[], (List.append_nil _).symm, List.nil_sublist _⟩
      | exact ⟨_, rfl, List.Sublist.refl _⟩
      | exact ⟨_, rfl, List.nil_sublist _⟩
  · rw [if_neg hact]
    exact ⟨[], (List.append_nil _).symm, List.nil_sublist _⟩

lemma updateDeleteDirectory_removes {f : SiteFile} (h : NameOk f) (hn : NamesOk f) (r : Run σ) :
    Ends (updateDeleteDirectory env o f) r fun _ r' => ∃ seg, r'.trace = r.trace ++ seg ∧
      (seg.filterMap dirRemoved).Sublist ((sideDir .storedSlot f).map (remoteName o)) := by
  unfold updateDeleteDirectory
  by_cases hact : f.type = .dir ∧ f.diff = .deleted
  · rw [if_pos hact,
      sideDir_of_named (s := .storedSlot) hact.1 (h.storedExisting hact.2) hn.storedName]
    simp only [ends_ite, ends_bind, ends_pure, ends_feCanUpdate, ends_call, ends_driverErr,
      ends_deleteEntry, List.append_assoc]
    split_ifs
    all_goals first
      | exact ⟨[], (List.append_nil _).symm, List.nil_sublist _⟩
      | exact ⟨_, rfl, List.Sublist.refl _⟩
  · rw [if_neg hact]
    exact ⟨[], (List.append_nil _).symm, List.nil_sublist _⟩

end Calls

/-- In the list, and in the calls that an update makes for it, a directory comes before those
in it when they are created, and after them when they are removed. -/
structure OrderKept (site : Site) : Prop where
  locals : ParentsFirst slash (localDirs site.files)
  stored : ParentsFirst slash (storedDirs site.files)
  creates : ∀ (σ : Type) (env : Env σ) (sess : σ), ∃ names, ParentsFirst slash names ∧
    names.Sublist (localDirs site.files) ∧
    (passTrace env sess .createDirectories site).filterMap dirCreated =
      names.map (remoteName site.opts)
  removes : ∀ (σ : Type) (env : Env σ) (sess : σ), ∃ names, ParentsFirst slash names ∧
    names.Sublist (storedDirs site.files) ∧
    (passTrace env sess .deleteDirectories site).filterMap dirRemoved =
      (names.map (remoteName site.opts)).reverse

theorem OrderedSite.kept {site : Site} (h : OrderedSite site) : OrderKept site where
  locals := h.ordered.sides.1
  stored := h.ordered.sides.2
  creates σ env sess := by
    obtain ⟨seg, htrace, hsub⟩ := forEach_logs Run.trace dirCreated site.files
      (fun f hf r => @updateCreateDirectory_creates σ env site.opts f (h.entries f hf)
        (h.ordered.entries f hf) r) { stats := site.stats, sess := sess }
    rw [← List.map_flatMap, flatMap_sideDir] at hsub
    obtain ⟨names, hnames, heq⟩ := List.sublist_map_iff.mp hsub
    refine ⟨names, h.ordered.sides.1.sublist hnames, hnames, ?_⟩
    rw [← heq]
    exact congrArg (List.filterMap dirCreated) htrace
  removes σ env sess := by
    obtain ⟨seg, htrace, hsub⟩ := forEachBackward_logs Run.trace dirRemoved site.files
      (fun f hf r => @updateDeleteDirectory_removes σ env site.opts f (h.entries f hf)
        (h.ordered.entries f hf) r) { stats := site.stats, sess := sess }
    rw [← List.map_flatMap, flatMap_sideDir, List.filterMap_reverse] at hsub
    obtain ⟨names, hnames, heq⟩ := List.sublist_map_iff.mp hsub
    have hnames' := List.reverse_sublist.mpr hnames
    rw [List.reverse_reverse] at hnames'
    refine ⟨names.reverse, h.ordered.sides.2.sublist hnames', hnames', ?_⟩
    rw [List.map_reverse, List.reverse_reverse, ← heq]
    exact congrArg (List.filterMap dirRemoved) htrace

/-- As long as no link target that is written holds markup, every list in every sequence of runs
has its directories in order. -/
theorem directory_order_kept (P : Xml.Latin1Parser) (m : DataModel) {file : InfoFile}
    {stage : Stage} {site : Site} (h : Reached P.toParser m TargetsRaw file stage site) :
    OrderKept site :=
  OrderedSite.kept (reached_ok h).2.orderedSite

/-! ### A directory in a directory -/

/-- The directory `a` with a directory `b` in it. -/
def nestedTree : LocalTree {} where
  entries d := if d = ascii "/" then [ascii "a"] else if d = ascii "/a/" then [ascii "b"] else []
  lstat _ := { kind := .directory, mode := 0o755 }
  stat _ := none
  readlink _ := []
  checksum _ := .zero
  height := 2
  finite := by
    intro e (he : e ∈ [ascii "/a/"])
    rw [List.mem_singleton.mp he]
    intro e' (he' : e' ∈ [ascii "/a/b/"])
    rw [List.mem_singleton.mp he']
    rfl
  named d n hn := by
    split_ifs at hn
    · rw [List.mem_singleton.mp hn]
      exact ⟨by decide, by decide⟩
    · rw [List.mem_singleton.mp hn]
      exact ⟨by decide, by decide⟩
    · cases hn
  distinct d := by split_ifs <;> simp

lemma nestedTree_nulFree : NulFree nestedTree.toDisk := by
  intro d n hn
  simp only [nestedTree] at hn
  split_ifs at hn
  · rw [List.mem_singleton.mp hn]
    decide
  · rw [List.mem_singleton.mp hn]
    decide
  · cases hn

lemma ret_of_lastError {P : Xml.Parser} {m : DataModel} {contents : Text} {site : Site}
    (h : (parseStorageFile P m contents site).lastError = none) :
    (siteReadStoredState P m (.readable contents) site).ret = 1 := by
  unfold siteReadStoredState
  dsimp only
  unfold parseStorageFile at h ⊢
  dsimp only at h ⊢
  split at h
  · cases h
  · split_ifs at h ⊢
    rfl

/-- What is written of storable entries is read without errors, whatever the list holds. -/
lemma ret_of_written (P : Xml.Parser) {m : DataModel} {site : Site}
    (h : ∀ f ∈ storedFiles site, Storable m f) (dest : Site) :
    (siteReadStoredState P m (.readable (siteWriteStoredState site).1) dest).ret = 1 := by
  have hok : (readBack P m site { opts := {} }).lastError = none := (readBack_view P h rfl).1
  have hret := ret_of_lastError hok
  apply InfoFileReading.ret_of_wellFormed
  rcases InfoFileReading.storedState_ret (P := P) (m := m) (.readable (siteWriteStoredState site).1)
    { opts := {} } with ⟨hwell, -⟩ | ⟨-, herrors⟩ | ⟨hmissing, -⟩
  · exact hwell
  · rw [hret] at herrors
    cases herrors
  · cases hmissing

def scannedDir (name : Text) : FileState :=
  { filename := some name, existing := true, mode := 0o755 }

/-- What a scan makes of it. -/
def nestedScan : Site :=
  (fileSetLocal .dir (scannedDir (ascii "a/b"))
    (fileSetLocal .dir (scannedDir (ascii "a")) { opts := {} }).1).1

/-- What a catchup writes of it. -/
def nestedFile : InfoFile := .readable (siteWriteStoredState (siteCatchup nestedScan)).1

/-- A catchup, and a second run that reads its file. -/
theorem directory_order_kept_nested : OrderKept
    (siteReadStoredState Xml.latin1Scanner.toParser .lp64 nestedFile nestedScan).site := by
  have hscan : siteReadLocalState nestedTree.toDisk noFailures 4 { opts := {} } =
      some nestedScan := rfl
  have hdirs : ∀ f ∈ (siteCatchup nestedScan).files, f.type = .dir ∧
      (f.storedState.filename = some (ascii "a") ∨ f.storedState.filename = some (ascii "a/b")) := by
    decide
  have hstorable : ∀ f ∈ storedFiles (siteCatchup nestedScan), Storable .lp64 f := by
    intro f hf
    obtain ⟨htype, hname⟩ := hdirs f (List.mem_of_mem_filter hf)
    refine ⟨?_, by simp [htype], by simp [htype], by simp [htype], by simp [htype]⟩
    rcases hname with hname | hname
    · exact ⟨_, hname, by decide, by decide⟩
    · exact ⟨_, hname, by decide, by decide⟩
  have hret : (siteReadStoredState Xml.latin1Scanner.toParser .lp64 nestedFile nestedScan).ret =
      1 := ret_of_written _ hstorable _
  have hscanned :
      Reached Xml.latin1Scanner.toParser .lp64 TargetsRaw .missing .scanned nestedScan :=
    .scan nestedTree noFailures 4 nestedTree_nulFree (.first {}) hscan
  have hwritten : Reached Xml.latin1Scanner.toParser .lp64 TargetsRaw nestedFile .ready
      (siteWriteStoredState (siteCatchup nestedScan)).2 := by
    apply Reached.write (.catchup hscanned)
    intro f hf ht
    rw [(hdirs f (List.mem_of_mem_filter hf)).1] at ht
    cases ht
  have hnext : Reached Xml.latin1Scanner.toParser .lp64 TargetsRaw nestedFile .scanned nestedScan :=
    .scan nestedTree noFailures 4 nestedTree_nulFree (.next {} hwritten) hscan
  have hread := Reached.read hnext (by rw [hret]; decide) (by rw [hret]; decide)
  exact directory_order_kept Xml.latin1Scanner .lp64 hread

/-! ### Markup in a link target -/

def maintainOptions : SiteOptions := { protocol := .sftp, symlinks := .maintain }

/-- A link target that ends its item and adds two directories and another link to the file. -/
def injectedTarget : Text :=
  ascii "x</linktarget></item>\n<item><type><type-directory/></type><filename>d/e</filename>\n" ++
  ascii "</item>\n<item><type><type-directory/></type><filename>d</filename>\n</item>\n" ++
  ascii "<item><type><type-link/></type><filename>m</filename>\n<linktarget>y"

/-- The link `l` with this target. -/
def linkTree : LocalTree maintainOptions where
  entries d := if d = ascii "/" then [ascii "l"] else []
  lstat _ := { kind := .symlink, mode := 0o777 }
  stat _ := none
  readlink _ := injectedTarget
  checksum _ := .zero
  height := 0
  finite := rfl
  named d n hn := by
    split_ifs at hn
    · rw [List.mem_singleton.mp hn]
      exact ⟨by decide, by decide⟩
    · cases hn
  distinct d := by split_ifs <;> simp

lemma linkTree_nulFree : NulFree linkTree.toDisk := by
  intro d n hn
  simp only [linkTree] at hn
  split_ifs at hn
  · rw [List.mem_singleton.mp hn]
    decide
  · cases hn

def linkState (target : Text) : FileState :=
  { filename := some (ascii "l"), existing := true, mode := 0o777, linktarget := some target }

def linkScan : Site :=
  (fileSetLocal .link (linkState injectedTarget) { opts := maintainOptions }).1

/-- A site without markup whose file is the same. -/
def injectedSite : Site where
  opts := maintainOptions
  files := [
    { addr := 0, type := .link, storedState := linkState (ascii "x") },
    { addr := 1, type := .dir, storedState :=
      { filename := some (ascii "d/e"), existing := true, mode := INVALID_MODE } },
    { addr := 2, type := .dir, storedState :=
      { filename := some (ascii "d"), existing := true, mode := INVALID_MODE } },
    { addr := 3, type := .link, storedState :=
      { filename := some (ascii "m"), existing := true, mode := INVALID_MODE,
        linktarget := some (ascii "y") } }]
  freshAddr := 4

lemma injected_file : (siteWriteStoredState (siteCatchup linkScan)).1 =
    (siteWriteStoredState injectedSite).1 := by
  have hopts : (siteCatchup linkScan).opts = maintainOptions := rfl
  have hopts' : injectedSite.opts = maintainOptions := rfl
  have hitems : (storedFiles (siteCatchup linkScan)).flatMap (writeItem maintainOptions) =
      (storedFiles injectedSite).flatMap (writeItem maintainOptions) := by
    rw [linkScan, injectedTarget, ascii_ofList, ascii_ofList, ascii_ofList]
    decide +kernel
  unfold siteWriteStoredState
  dsimp only
  rw [hopts, hopts', hitems]

/-- A tree without files. -/
def emptyTree (o : SiteOptions) : LocalTree o where
  entries _ := []
  lstat _ := { kind := .other }
  stat _ := none
  readlink _ := []
  checksum _ := .zero
  height := 0
  finite := rfl
  named := by simp
  distinct _ := List.nodup_nil

/-- Every parser reads the two directories in the wrong order. -/
lemma injected_read (P : Xml.Parser) (m : DataModel) :
    (readBack P m injectedSite { opts := maintainOptions }).lastError = none ∧
      storedDirs (readBack P m injectedSite { opts := maintainOptions }).site.files =
        [ascii "d/e", ascii "d"] := by
  have hstored : storedFiles injectedSite = injectedSite.files := rfl
  have hstorable : ∀ f ∈ storedFiles injectedSite, Storable m f := by
    rw [hstored]
    intro f hf
    simp only [injectedSite, List.mem_cons, List.not_mem_nil, or_false] at hf
    rcases hf with rfl | rfl | rfl | rfl
    · exact ⟨⟨_, rfl, by decide, by decide⟩, by simp, by simp, by simp,
        fun _ => ⟨_, rfl, by decide⟩⟩
    · exact ⟨⟨_, rfl, by decide, by decide⟩, by simp, by simp, by simp, by simp⟩
    · exact ⟨⟨_, rfl, by decide, by decide⟩, by simp, by simp, by simp, by simp⟩
    · exact ⟨⟨_, rfl, by decide, by decide⟩, by simp, by simp, by simp,
        fun _ => ⟨_, rfl, by decide⟩⟩
  have hok : (readBack P m injectedSite { opts := maintainOptions }).lastError = none :=
    (readBack_view P hstorable rfl).1
  refine ⟨hok, ?_⟩
  have hnames : ∀ f ∈ storedFiles injectedSite, StateFile.Named f := by
    intro f hf
    obtain ⟨n, hn, -, hnul⟩ := (hstorable f hf).name
    exact ⟨n, hn, hnul⟩
  have hreads := readBack_stores hnames
    (targetsAreText_of_plain fun f hf => (hstorable f hf).plainTarget) hok
  obtain ⟨-, hdirs⟩ := StoresAll.oneSided hreads
    (by refine ⟨⟨?_, ?_⟩, ?_, ?_⟩ <;> simp)
  rw [hdirs, hstored]
  rfl

/-- A run over an empty tree that reads the two directories in the wrong order. -/
lemma order_broken {text : Text} {prior : Site}
    (hwritten : Reached Xml.latin1Scanner.toParser .lp64 (fun _ => True) (.readable text) .ready
      prior)
    (hok : (parseStorageFile Xml.latin1Scanner.toParser .lp64 text
      { opts := maintainOptions }).lastError = none)
    (hdirs : storedDirs (parseStorageFile Xml.latin1Scanner.toParser .lp64 text
      { opts := maintainOptions }).site.files = [ascii "d/e", ascii "d"]) :
    ∃ site, Reached Xml.latin1Scanner.toParser .lp64 (fun _ => True) (.readable text) .ready site ∧
      ¬ OrderKept site := by
  have hnext : Reached Xml.latin1Scanner.toParser .lp64 (fun _ => True) (.readable text) .scanned
      { opts := maintainOptions } := by
    refine .scan (emptyTree maintainOptions) noFailures 2 ?_ (.next _ hwritten) rfl
    intro d n hn
    cases hn
  have hret := ret_of_lastError hok
  refine ⟨_, Reached.read hnext (by rw [hret]; decide) (by rw [hret]; decide), fun h => ?_⟩
  have hstored : ParentsFirst slash [ascii "d/e", ascii "d"] := hdirs ▸ h.stored
  exact (List.pairwise_cons.mp hstored).1 (ascii "d") (by simp) ⟨ascii "e", by decide⟩

/-- A run that catches up with the link, and one that reads what it wrote. -/
theorem injected_order : ∃ site,
    Reached Xml.latin1Scanner.toParser .lp64 (fun _ => True)
      (.readable (siteWriteStoredState (siteCatchup linkScan)).1) .ready site ∧
      ¬ OrderKept site := by
  obtain ⟨hok, hdirs⟩ := injected_read Xml.latin1Scanner.toParser .lp64
  unfold readBack at hok hdirs
  rw [← injected_file] at hok hdirs
  have hscanned : Reached Xml.latin1Scanner.toParser .lp64 (fun _ => True) .missing .scanned
      linkScan := .scan linkTree noFailures 2 linkTree_nulFree (.first _) rfl
  exact order_broken (Reached.write (.catchup hscanned) trivial) hok hdirs

end Sitecopy.ConsoleRuns
