import Sitecopy.MirrorRuns
import Sitecopy.SynchGuards
import Sitecopy.SynchMirror

/-!
# Commands one after the other

Updates, synchs, catchups and initializations of one site, in any order. As long as the info
file is right about the remote tree before the first of them, and no command is told that it is
when it is not, it stays right.
-/
namespace Sitecopy.ConsoleCommands
open SiteModel FileSet FileSetSpec StateProgram SiteStats SiteUpdate StateFile SiteOperations
open ReachedFiles DirectoryLists DirectoryOrder FileTrees RemoteTree UpdateMirror GatheredLists
open FileMatching LocalScan ScanCompleteness ConsoleRuns MirrorRuns LocalSynch SynchGuards
open SynchMirror DifferenceFlags StateFileErrors StorageFile

/-! ### Runs of the other commands -/

/-- What an action leaves, and the exit code. -/
def actionResult {σ : Type} (sess : σ) : SynchAction σ → σ × ℤ
  | .synched r => (r.sess, issueError r.ret)
  | .nothingToDo | .refused => (sess, 0)

/-- `verify_sites` and `act_on_site` for a synch. -/
def synchRun {σ : Type} (P : Xml.Parser) (m : DataModel) (env : SynchEnv σ) (o : SiteOptions)
    (disk : Disk) (fails : Failures) (fuel : ℕ) (file : InfoFile) (sess : σ) : Option (σ × ℤ) := do
  let scanned ← siteReadLocalState disk fails fuel { opts := o }
  let read := siteReadStoredState P m file scanned
  if read.ret = SITE_ERRORS ∨ read.ret = SITE_FAILED then pure (sess, -1)
  else pure (actionResult sess (actOnSynch env o.keepGoing read.site sess))

/-- The file after a catchup. -/
def catchupRun (o : SiteOptions) (disk : Disk) (fails : Failures) (fuel : ℕ) : Option InfoFile := do
  let scanned ← siteReadLocalState disk fails fuel { opts := o }
  pure (.readable (siteWriteStoredState (siteCatchup scanned)).1)

/-- A command, with the local tree as it is by then. -/
inductive Command (o : SiteOptions) (β : Type)
  | update (s : Snapshot o β)
  | synch (s : Snapshot o β)
  | catchup (s : Snapshot o β)
  | init (s : Snapshot o β)

/-- What is there between two commands, and the exit code of the last one. -/
structure World (β : Type) where
  file : InfoFile
  remote : Tree UInt8 β
  loc : Tree UInt8 β
  ret : ℤ

noncomputable def command (P : Xml.Parser) (m : DataModel) {o : SiteOptions} {β : Type}
    (modtime : Text → ℤ) (fuel : ℕ) (w : World β) : Command o β → Option (World β)
  | .update s => do
    let r ← updateRun P m (treeDriver o s.files modtime) o s.tree.toDisk noFailures fuel w.file
      w.remote
    pure { file := r.file, remote := r.sess, loc := s.files, ret := r.ret }
  | .synch s => do
    let r ← synchRun P m (localDriver o w.remote) o s.tree.toDisk noFailures fuel w.file s.files
    pure { w with loc := r.1, ret := r.2 }
  | .catchup s => do
    let file ← catchupRun o s.tree.toDisk noFailures fuel
    pure { w with file := file, loc := s.files, ret := 0 }
  | .init s => some { w with file := initialFile o, loc := s.files, ret := 0 }

noncomputable def commands (P : Xml.Parser) (m : DataModel) {o : SiteOptions} {β : Type}
    (modtime : Text → ℤ) (fuel : ℕ) : List (Command o β) → World β → Option (List (World β))
  | [], _ => some []
  | c :: cs, w => do
    let w ← command P m modtime fuel w c
    let ws ← commands P m modtime fuel cs w
    pure (w :: ws)

/-! ### Catchup -/

section Catchup
variable {m : DataModel} {o : SiteOptions} {β : Type} {s : Snapshot o β} {f g : SiteFile}

/-- The entry with the local state on both sides. -/
structure CaughtUp (f g : SiteFile) : Prop where
  addr : g.addr = f.addr
  type : g.type = f.type
  localState : g.localState = f.localState
  storedState : g.storedState = f.localState
  serverState : g.serverState = f.serverState

lemma catchup_kept {site : Site} (hnew : ∀ f ∈ site.files, f.diff = .new) :
    Kept (fun f out => ∃ g, out = some g ∧ CaughtUp f g) site.files (siteCatchup site).files := by
  have hends : Ends (forEach (catchupFile site.opts) site.files) site.stats fun r _ =>
      r.2 = false ∧ Kept (fun f out => ∃ g, out = some g ∧ CaughtUp f g) site.files r.1 ∧
        ∀ f ∈ ([] : List SiteFile), f.diff = .new := by
    apply forEach_kept (I := fun (rest : List SiteFile) _ => ∀ f ∈ rest, f.diff = .new) _ hnew
    intro f rest st hrest
    obtain ⟨hd, hrest⟩ := List.forall_mem_cons.mp hrest
    unfold catchupFile
    rw [hd]
    exact ⟨rfl, ⟨_, rfl, rfl, rfl, rfl, rfl, rfl⟩, hrest⟩
  exact hends.2.1

lemma compare_same {type : FileType} {state : FileState} (hex : state.existing = true) :
    fileCompare type state state o = .unchanged := by
  unfold fileCompare methodDiffers
  cases type <;> cases o.stateMethod <;> simp [hex]

/-- A scan finds new files only. -/
lemma scanned_new (hw : Watched o) (hfits : Fits m s) {f : SiteFile} (hf : f ∈ (scanned s).files) :
    f.diff = .new ∧ (f.type, f.localState) ∈ allCalls s.tree := by
  have hscan : Gathered o (scanned s) ∧ held .localSlot (scanned s).files = _ ∧
      held .storedSlot (scanned s).files = 0 :=
    gathered_scan hw (allCalls_complete s.tree) hfits.nulFree
  obtain ⟨hgathered, hlocal, hstored⟩ := hscan
  have hs : f.storedState.existing = false := by
    by_contra hs
    rw [Bool.not_eq_false] at hs
    have hmem : (f.type, f.storedState) ∈ held .storedSlot (scanned s).files :=
      mem_held.mpr ⟨f, hf, hs, rfl, rfl⟩
    rw [hstored] at hmem
    exact Multiset.notMem_zero _ hmem
  have hd := (new_iff (hgathered.reached.entries f hf)).mpr hs
  have hl := (fileCompare_new_iff.mp
    ((hgathered.reached.entries f hf).compared.symm.trans hd)).1
  refine ⟨hd, ?_⟩
  have hmem : (f.type, f.localState) ∈ held .localSlot (scanned s).files :=
    mem_held.mpr ⟨f, hf, hl, rfl, rfl⟩
  rw [hlocal] at hmem
  exact hmem

/-- What a catchup writes is right if the remote tree is as the local one. -/
theorem catchup_synced (hw : Watched o) (hfits : Fits m s) :
    Synced m s (siteCatchup (scanned s)) := by
  have hscan : Gathered o (scanned s) ∧ held .localSlot (scanned s).files = _ ∧
      held .storedSlot (scanned s).files = 0 :=
    gathered_scan hw (allCalls_complete s.tree) hfits.nulFree
  obtain ⟨hgathered, hlocal, -⟩ := hscan
  have hordered : OrderedSite (siteCatchup (scanned s)) := by
    obtain ⟨fuel₀, hruns⟩ := scan_runs s
    obtain ⟨L, hL, harranged⟩ := scan_scanned s.tree hfits.nulFree noFailures (hruns fuel₀ le_rfl)
    exact (hL.orderedSite harranged).catchup
  have hkept := catchup_kept fun f hf => (scanned_new hw hfits hf).1
  have hfrom : ∀ g ∈ storedFiles (siteCatchup (scanned s)), ∃ f ∈ (scanned s).files,
      CaughtUp f g ∧ (f.type, f.localState) ∈ allCalls s.tree ∧ f.localState.existing = true ∧
        ∃ n, f.localState.filename = some n ∧ 0 ∉ n := by
    intro g hg
    obtain ⟨f, hf, x, hx, hcaught⟩ := hkept.mem (List.mem_of_mem_filter hg)
    obtain rfl := Option.some.inj hx
    obtain ⟨hd, hcall⟩ := scanned_new hw hfits hf
    have hl := (fileCompare_new_iff.mp
      ((hgathered.reached.entries f hf).compared.symm.trans hd)).1
    exact ⟨f, hf, hcaught, hcall, hl, hgathered.names f hf .localSlot hl⟩
  refine ⟨hgathered.paired.opts, fun g hg => ?_, hordered.ordered, ?_, fun type n => ?_,
    fun g hg c hc ht hn => ?_⟩
  · obtain ⟨f, hf, hcaught, hcall, hl, n, hn, hnul⟩ := hfrom g hg
    refine ⟨⟨n, ?_, present_ne_nil (present_of_call hcall hn), hnul⟩, fun ht => ?_, fun ht => ?_,
      fun _ hex => ?_, fun ht => ?_⟩
    · rw [hcaught.storedState, hn]
    · rw [hcaught.storedState]
      exact hfits.sizes _ hcall
    · rw [hcaught.storedState]
      exact hfits.times _ hcall
    · rw [hcaught.serverState] at hex ⊢
      exact scanned_times s (InRange m) f hf hex
    · have hpresent := present_of_call hcall hn
      rw [← hcaught.type, ht] at hpresent
      exact absurd hpresent (hfits.nolink n)
  · have hnd : (storedFiles (siteCatchup (scanned s))).Nodup :=
      hordered.linked.files_nodup.filter _
    apply List.Pairwise.imp_of_mem _ hnd
    intro g g' hg hg' hne ht hname
    obtain ⟨f, hf, hcaught, -, hl, n, hn, -⟩ := hfrom g hg
    obtain ⟨f', hf', hcaught', -, hl', n', hn', -⟩ := hfrom g' hg'
    rw [hcaught.storedState, hcaught'.storedState, hn, hn'] at hname
    rw [← Option.some.inj hname] at hn'
    have hsame : f = f' := hgathered.matched f hf f' hf' .localSlot .localSlot n
      (hcaught.type.symm.trans (ht.trans hcaught'.type)) (sideName_eq hl hn) (sideName_eq hl' hn')
    apply hne
    apply List.inj_on_of_nodup_map hordered.linked.nodup (List.mem_of_mem_filter hg)
      (List.mem_of_mem_filter hg')
    rw [hcaught.addr, hcaught'.addr, hsame]
  · rw [holds_files hfits.nolink]
    constructor
    · intro hpresent
      obtain ⟨c, hc, rfl, hn⟩ := call_of_present hpresent
      have hmem : (c.1, c.2) ∈ held .localSlot (scanned s).files := by
        rw [hlocal]
        exact hc
      obtain ⟨f, hf, hl, ht, hstate⟩ := mem_held.mp hmem
      obtain ⟨out, ⟨g, rfl, hcaught⟩, hmem⟩ := hkept.of_mem hf
      have hstored : g.storedState = c.2 := hcaught.storedState.trans hstate
      refine ⟨g, List.mem_filter.mpr ⟨hmem g rfl, ?_⟩, hcaught.type.trans ht, ?_⟩
      · rw [hcaught.storedState]
        exact hl
      · rw [hstored, hn]
    · rintro ⟨g, hg, rfl, hn⟩
      obtain ⟨f, hf, hcaught, hcall, -⟩ := hfrom g hg
      rw [hcaught.type]
      apply present_of_call hcall
      rw [← hcaught.storedState, hn]
  · obtain ⟨f, hf, hcaught, hcall, hl, -⟩ := hfrom g hg
    have hsame : c = (f.type, f.localState) := by
      apply call_unique hc hcall
      rw [hn, hcaught.storedState]
    rw [hsame, hcaught.type, hcaught.storedState]
    exact compare_same hl

end Catchup

/-! ### Synchs -/

/-- The local tree after a synch: the remote one, unless there is nothing on the server. -/
noncomputable def synched {β : Type} (remote loc : Tree UInt8 β) : Tree UInt8 β :=
  open Classical in if ∀ n, remote n = none then loc else remote

section Synchs
variable {m : DataModel} {o : SiteOptions} {β : Type} {s b : Snapshot o β} {site read : Site}
  {L R : Tree UInt8 β}

/-- If all entries are new, there is nothing on the other side. -/
lemma shown_none (h : Shown o read.files L R) (hnew : ∀ f ∈ read.files, f.diff = .new) (n : Text) :
    R n = none := by
  have hno : ∀ type, ¬ Holds R type n := by
    intro type hn
    obtain ⟨f, hf, -, hs, -⟩ := h.stored.entry type hn
    have hnot := (new_iff (h.entries f hf).ok).mp (hnew f hf)
    rw [show f.storedState.existing = true from hs] at hnot
    cases hnot
  rcases node_cases R n with hnone | hdir | hfile
  · exact hnone
  · exact absurd hdir (hno .dir)
  · exact absurd hfile (hno .file)

/-- If there is nothing on the other side, all entries are new. -/
lemma shown_new (h : Shown o read.files L R) (hnone : ∀ n, R n = none) :
    ∀ f ∈ read.files, f.diff = .new := by
  intro f hf
  apply (new_iff (h.entries f hf).ok).mpr
  by_contra hs
  rw [Bool.not_eq_false] at hs
  have hthere := h.stored.there h.ordered hf hs
  have hnot := hnone (nameOn .storedSlot f)
  cases ht : f.type with
  | dir =>
    rw [ht] at hthere
    rw [show R _ = some .dir from hthere] at hnot
    cases hnot
  | file =>
    rw [ht] at hthere
    obtain ⟨c, hc⟩ := hthere
    rw [hc] at hnot
    cases hnot
  | link =>
    rw [ht] at hthere
    exact hthere

/-- What the console makes of a synch. -/
lemma actOnSynch_mirrors (hread : read.opts = o) (hcounted : ReachedSite read)
    (hp : Plain o) (h : Shown o read.files L R) (hapart : Apart L R) :
    actionResult L (actOnSynch (localDriver o R) o.keepGoing read L) =
      (synched R L, 0) := by
  subst hread
  have hsame : { read with opts := { read.opts with keepGoing := read.opts.keepGoing } } = read := rfl
  unfold actOnSynch
  rw [hsame]
  dsimp only
  cases hdiff : read.stats.localIsDifferent with
  | false =>
    have hunchanged : ∀ f ∈ read.files, f.diff = .unchanged := by
      intro f hf
      by_contra hd
      rw [(local_iff hcounted.counted).mpr ⟨f, hf, hd⟩] at hdiff
      cases hdiff
    rw [if_pos (by simp), synched, h.same hp.checkmoved hunchanged, ite_self]
    rfl
  | true =>
    rw [if_neg (by simp)]
    cases hnew : onlyNew read.stats with
    | true =>
      have hnone := shown_none h ((onlyNew_iff hcounted.counted).mp hnew)
      rw [if_pos rfl, synched, if_pos hnone]
      rfl
    | false =>
      have hsome : ¬ ∀ n, R n = none := by
        intro hnone
        rw [(onlyNew_iff hcounted.counted).mpr (shown_new h hnone)] at hnew
        cases hnew
      obtain ⟨hret, hsess⟩ := siteSynch_mirrors h hp.checkmoved hp.lowercase hapart
      rw [if_neg (by simp), synched, if_neg hsome, actionResult, hsess, hret]
      rfl

/-- A synch of a local tree that was changed, with a file that is right about the remote one. -/
lemma synchRun_mirrors (P : Xml.Latin1Parser) (hp : Plain o) (hw : Watched o)
    (hsync : Synced m b site) (hfits : Fits m s) (hdetects : Detects b s)
    (hapart : Apart s.files b.files) : ∃ fuel₀, ∀ fuel ≥ fuel₀,
      synchRun P.toParser m (localDriver o b.files) o s.tree.toDisk noFailures fuel
        (.readable (siteWriteStoredState site).1) s.files = some (synched b.files s.files, 0) := by
  obtain ⟨hok, hloaded⟩ := @Synced.readBack P m o β b s site hsync hw hfits
  obtain ⟨fuel₀, hscan⟩ := scan_runs s
  refine ⟨fuel₀, fun fuel hfuel => ?_⟩
  have hret : (siteReadStoredState P.toParser m (.readable (siteWriteStoredState site).1)
      (scanned s)).ret = 1 := ret_of_lastError hok
  have hsite : (siteReadStoredState P.toParser m (.readable (siteWriteStoredState site).1)
      (scanned s)).site = (StateFile.readBack P.toParser m site (scanned s)).site := rfl
  unfold synchRun
  rw [hscan fuel hfuel, Option.bind_eq_bind, Option.bind_some]
  dsimp only
  rw [hret, hsite, if_neg (by decide), actOnSynch_mirrors hloaded.gathered.paired.opts
    hloaded.gathered.reached hp (hloaded.shown hp hsync hfits hdetects) hapart]
  rfl

end Synchs

/-! ### Any commands -/

section Commands
variable {m : DataModel} {o : SiteOptions} {β : Type} {b : Snapshot o β} {w : World β}

/-- The snapshot that is on the server after a command, if `b` was before. -/
def Command.next (b : Snapshot o β) : Command o β → Snapshot o β
  | .update s | .catchup s => s
  | .synch _ => b
  | .init s => emptySnapshot o s.contents

/-- The local tree after a command. -/
noncomputable def Command.loc (b : Snapshot o β) : Command o β → Tree UInt8 β
  | .update s | .catchup s | .init s => s.files
  | .synch s => synched b.files s.files

/-- A command that may be given while `b` is on the server. Catchup and initialization must say
what is true. -/
def Command.Sensible (m : DataModel) (b : Snapshot o β) : Command o β → Prop
  | .update s => Fits m s ∧ Follows b s
  | .synch s => Fits m s ∧ Detects b s ∧ Apart s.files b.files
  | .catchup s => Fits m s ∧ b.files = s.files
  | .init _ => ∀ n, b.files n = none

/-- Each command is sensible after those before it. -/
def AllSensible (m : DataModel) : Snapshot o β → List (Command o β) → Prop
  | _, [] => True
  | b, c :: cs => c.Sensible m b ∧ AllSensible m (c.next b) cs

/-- The remote tree, the local tree and the exit code after each command. -/
noncomputable def outcomes : Snapshot o β → List (Command o β) →
    List (Tree UInt8 β × Tree UInt8 β × ℤ)
  | _, [] => []
  | b, c :: cs => ((c.next b).files, c.loc b, 0) :: outcomes (c.next b) cs

/-- The info file is right about the remote tree. -/
def Right (m : DataModel) (b : Snapshot o β) (w : World β) : Prop :=
  Mirrored m b { file := w.file, sess := w.remote, ret := w.ret }

lemma catchup_right (hw : Watched o) {s : Snapshot o β} (hfits : Fits m s)
    (hremote : w.remote = s.files) : ∃ fuel₀ w', (∀ fuel ≥ fuel₀, ∀ P modtime,
      command P m modtime fuel w (.catchup s) = some w') ∧ Right m s w' ∧ w'.loc = s.files ∧
        w'.ret = 0 := by
  obtain ⟨fuel₀, hscan⟩ := scan_runs s
  refine ⟨fuel₀, { w with
    file := .readable (siteWriteStoredState (siteCatchup (scanned s))).1
    loc := s.files
    ret := 0 }, fun fuel hfuel P modtime => ?_,
    ⟨⟨siteCatchup (scanned s), catchup_synced hw hfits, rfl⟩, hremote⟩, rfl, rfl⟩
  unfold command
  dsimp only
  unfold catchupRun
  rw [hscan fuel hfuel]
  rfl

lemma initialize_right {s : Snapshot o β} (hremote : ∀ n, w.remote n = none) :
    ∃ w', (∀ P fuel modtime, command P m modtime fuel w (.init s) = some w') ∧
      Right m (emptySnapshot o s.contents) w' ∧ w'.loc = s.files ∧ w'.ret = 0 := by
  refine ⟨_, fun _ _ _ => rfl, ?_, rfl, rfl⟩
  obtain ⟨hfile, -⟩ := mirrored_initial (m := m) (o := o) s.contents
  refine ⟨hfile, ?_⟩
  funext n
  exact (hremote n).trans (empty_files s.contents n).symm

/-- One command. -/
theorem command_right (P : Xml.Latin1Parser) (hp : Plain o) (hw : Watched o) {modtime : Text → ℤ}
    (hmodtime : ∀ path, InRange m (modtime path)) (h : Right m b w) (c : Command o β)
    (hc : c.Sensible m b) : ∃ fuel₀ w', (∀ fuel ≥ fuel₀,
      command P.toParser m modtime fuel w c = some w') ∧ Right m (c.next b) w' ∧
        w'.loc = c.loc b ∧ w'.ret = 0 := by
  cases c with
  | update s =>
    obtain ⟨r', hmirrored, hret, fuel₀, hrun⟩ := run_mirrors P hp hw hmodtime h hc.1 hc.2
    refine ⟨fuel₀, { file := r'.file, remote := r'.sess, loc := s.files, ret := r'.ret },
      fun fuel hfuel => ?_, hmirrored, rfl, hret⟩
    unfold command
    dsimp only at hrun ⊢
    rw [hrun fuel hfuel]
    rfl
  | synch s =>
    obtain ⟨hfits, hdetects, hapart⟩ := hc
    obtain ⟨⟨site, hsync, hfile⟩, hremote⟩ := h
    obtain ⟨fuel₀, hrun⟩ := synchRun_mirrors P hp hw hsync hfits hdetects hapart
    refine ⟨fuel₀, { w with loc := synched b.files s.files, ret := 0 }, fun fuel hfuel => ?_,
      ⟨⟨site, hsync, hfile⟩, hremote⟩, rfl, rfl⟩
    unfold command
    dsimp only
    rw [show w.file = _ from hfile, show w.remote = _ from hremote, hrun fuel hfuel]
    rfl
  | catchup s =>
    obtain ⟨hfits, hsame⟩ := hc
    obtain ⟨fuel₀, w', hrun, hright, hloc, hret⟩ := catchup_right hw hfits (h.2.trans hsame)
    exact ⟨fuel₀, w', fun fuel hfuel => hrun fuel hfuel _ _, hright, hloc, hret⟩
  | init s =>
    have hnone : ∀ n, w.remote n = none := by
      intro n
      rw [show w.remote = _ from h.2]
      exact hc n
    obtain ⟨w', hrun, hright, hloc, hret⟩ := initialize_right (m := m) (s := s) hnone
    exact ⟨0, w', fun fuel _ => hrun _ _ _, hright, hloc, hret⟩

/-- Any number of commands. -/
lemma commands_right (P : Xml.Latin1Parser) (hp : Plain o) (hw : Watched o) {modtime : Text → ℤ}
    (hmodtime : ∀ path, InRange m (modtime path)) (cs : List (Command o β)) (h : Right m b w)
    (hcs : AllSensible m b cs) : ∃ fuel₀ ws, (∀ fuel ≥ fuel₀,
      commands P.toParser m modtime fuel cs w = some ws) ∧
        ws.map (fun w => (w.remote, w.loc, w.ret)) = outcomes b cs := by
  induction cs generalizing b w with
  | nil => exact ⟨0, [], fun _ _ => rfl, rfl⟩
  | cons c cs ih =>
    obtain ⟨hc, hcs⟩ := hcs
    obtain ⟨fuel₁, w', hrun, hright, hloc, hret⟩ := command_right P hp hw hmodtime h c hc
    obtain ⟨fuel₂, ws, hruns, hws⟩ := ih hright hcs
    refine ⟨max fuel₁ fuel₂, w' :: ws, fun fuel hfuel => ?_, ?_⟩
    · unfold commands
      rw [hrun fuel (le_trans (le_max_left _ _) hfuel), Option.bind_eq_bind, Option.bind_some,
        hruns fuel (le_trans (le_max_right _ _) hfuel)]
      rfl
    · rw [List.map_cons, hws, outcomes, hloc, hret, show w'.remote = _ from hright.2]

/-- The first command, whatever the info file is. -/
def Starts (m : DataModel) (w : World β) : Command o β → Prop
  | .catchup s => Fits m s ∧ w.remote = s.files
  | .init _ => ∀ n, w.remote n = none
  | .update _ | .synch _ => False

/-- The snapshot that a first command is given for. -/
def Command.snapshot : Command o β → Snapshot o β
  | .update s | .synch s | .catchup s | .init s => s

end Commands

end Sitecopy.ConsoleCommands
