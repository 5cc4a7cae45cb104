import Sitecopy.DifferenceFlags
import Sitecopy.StorageFile

/-!
# The guards of a synch

Two decisions are taken from the counters before any pass of a synch: the console refuses to
remove all local files, and `site_synch` connects to the server when something is to be
downloaded. The first counts directories and links among the files. The second is right.
-/
namespace Sitecopy.SynchGuards
open SiteModel FileSet StateProgram SiteStats SiteUpdate
open SiteInvariants LocalSynch ReachedFiles UpdateConvergence DifferenceFlags StorageFile

/-! ### What the counters say -/

section Counters
variable {site : Site}

/-- A files list has no entries of this kind. -/
lemma count_zero {p : SiteFile → Bool} {files : List SiteFile} :
    (files.countP p : ℤ) = 0 ↔ ∀ f ∈ files, p f = false := by
  rw [Int.natCast_eq_zero, List.countP_eq_zero]
  simp

/-- The five counters that `act_on_site` tests. -/
def onlyNew (st : Stats) : Bool :=
  st.numunchanged = 0 ∧ st.numdeleted = 0 ∧ st.nummoved = 0 ∧ st.numchanged = 0 ∧
    st.numignored = 0

lemma onlyNew_iff (h : CountedSite site) :
    onlyNew site.stats = true ↔ ∀ f ∈ site.files, f.diff = .new := by
  obtain ⟨a, b, h⟩ := h
  have hst := statistics_of_exact h.exact
  have hcounts : onlyNew site.stats = onlyNew (shift a b site.stats) := rfl
  rw [hcounts, onlyNew, decide_eq_true_eq, hst.numunchanged, hst.numdeleted, hst.nummoved,
    hst.numchanged, hst.numignored]
  simp only [count_zero, decide_eq_false_iff_not]
  constructor
  · rintro ⟨hu, hd, hm, hc, hi⟩ f hf
    cases hdiff : f.diff with
    | new => rfl
    | unchanged => exact absurd hdiff (hu f hf)
    | deleted => exact absurd hdiff (hd f hf)
    | moved => exact absurd hdiff (hm f hf)
    | changed =>
      cases hig : f.ignore with
      | false => exact absurd ⟨hdiff, hig⟩ (hc f hf)
      | true => exact absurd ⟨hdiff, hig⟩ (hi f hf)
  · intro hall
    refine ⟨?_, ?_, ?_, ?_, ?_⟩ <;> intro f hf <;> simp [hall f hf]

/-- A session is opened if some entry is changed or deleted. -/
lemma needConn_iff (h : CountedSite site) :
    needConn site.stats = true ↔ ∃ f ∈ site.files, f.diff = .changed ∨ f.diff = .deleted := by
  obtain ⟨a, b, h⟩ := h
  have hst := statistics_of_exact h.exact
  have hcounts : needConn site.stats = needConn (shift a b site.stats) := rfl
  have hsum : ∀ c d i : ℕ, ((c : ℤ) + d + i > 0 ↔ (0 : ℤ) < c ∨ (0 : ℤ) < d ∨ (0 : ℤ) < i) := by
    intros
    omega
  rw [hcounts, needConn, decide_eq_true_eq, hst.numchanged, hst.numdeleted, hst.numignored, hsum]
  simp only [count_pos, decide_eq_true_eq]
  constructor
  · rintro (⟨f, hf, hd, _⟩ | ⟨f, hf, hd⟩ | ⟨f, hf, hd, _⟩)
    · exact ⟨f, hf, Or.inl hd⟩
    · exact ⟨f, hf, Or.inr hd⟩
    · exact ⟨f, hf, Or.inl hd⟩
  · rintro ⟨f, hf, hd | hd⟩
    · cases hig : f.ignore with
      | false => exact Or.inl ⟨f, hf, hd, hig⟩
      | true => exact Or.inr (Or.inr ⟨f, hf, hd, hig⟩)
    · exact Or.inr (Or.inl ⟨f, hf, hd⟩)

end Counters

/-! ### The console -/

section Console
variable {σ : Type} {env : SynchEnv σ} {o : SiteOptions} {site : Site}

inductive SynchAction (σ : Type)
  | nothingToDo
  | refused
  | synched (r : SynchResult σ)

/-- The `action_synch` case of `act_on_site`. -/
def actOnSynch (env : SynchEnv σ) (keepgoing : Bool) (site : Site) (sess : σ) : SynchAction σ :=
  let site := { site with opts := { site.opts with keepGoing := keepgoing } }
  if !site.stats.localIsDifferent then .nothingToDo
  else if onlyNew site.stats then .refused
  else .synched (siteSynch env site sess)

/-- The exit code. -/
def SynchAction.ret : SynchAction σ → ℤ
  | .synched r => issueError r.ret
  | _ => 0

/-- The driver calls and local calls. -/
def SynchAction.trace : SynchAction σ → List SynchEvent
  | .synched r => r.trace
  | _ => []

/-- The action refuses, and calls nothing. -/
def Refuses (a : SynchAction σ) : Prop := a = .refused ∧ a.trace = []

/-- There are local files, and a synch would remove them all. -/
structure RemovesAll (site : Site) : Prop where
  local' : ∃ f ∈ site.files, f.type = .file ∧ f.localState.existing = true
  stored : ∀ f ∈ site.files, f.type = .file → f.storedState.existing = false

/-- An entry is new exactly if it has no stored state. -/
lemma new_iff {f : SiteFile} (h : EntryOk o f) :
    f.diff = .new ↔ f.storedState.existing = false := by
  rw [h.compared, fileCompare_new_iff]
  constructor
  · exact fun hnew => hnew.2
  · intro hs
    refine ⟨h.present.resolve_right ?_, hs⟩
    simp [hs]

lemma actOnSynch_refuses_iff (h : ReachedSite site) (keepgoing : Bool) (sess : σ) :
    Refuses (actOnSynch env keepgoing site sess) ↔
      site.stats.localIsDifferent = true ∧ ∀ f ∈ site.files, f.diff = .new := by
  rw [← onlyNew_iff h.counted]
  unfold Refuses actOnSynch
  cases hflag : site.stats.localIsDifferent <;> cases hnew : onlyNew site.stats <;>
    simp [SynchAction.trace, hflag, hnew]

/-- The console refuses to remove all local files if and only if no directory and no link has
a stored state. -/
theorem refuses_removal_iff (h : Reached o site) (hall : RemovesAll site) (env : SynchEnv σ)
    (keepgoing : Bool) (sess : σ) :
    Refuses (actOnSynch env keepgoing site sess) ↔
      ∀ f ∈ site.files, f.type ≠ .file → f.storedState.existing = false := by
  have hsite := h.reachedSite
  have hnew : ∀ f ∈ site.files, (f.diff = .new ↔ f.storedState.existing = false) :=
    fun f hf => new_iff (hsite.entries f hf)
  obtain ⟨a, ha, htype, _⟩ := hall.local'
  have hflag : site.stats.localIsDifferent = true := by
    apply (local_iff hsite.counted).mpr
    exact ⟨a, ha, by simp [(hnew a ha).mpr (hall.stored a ha htype)]⟩
  rw [actOnSynch_refuses_iff hsite, and_iff_right hflag]
  constructor
  · intro hdiff f hf _
    exact (hnew f hf).mp (hdiff f hf)
  · intro hother f hf
    apply (hnew f hf).mpr
    by_cases ht : f.type = .file
    · exact hall.stored f hf ht
    · exact hother f hf ht

/-- A local file that was never uploaded. -/
def localFile (site : Site) : Site :=
  (fileSetLocal .file { filename := some (ascii "a"), existing := true } site).1

theorem refuses_removal_iff_alone :
    Refuses (actOnSynch workingSynchEnv false (localFile { opts := {} }) PUnit.unit) ↔
      ∀ f ∈ (localFile { opts := {} }).files, f.type ≠ .file → f.storedState.existing = false :=
  refuses_removal_iff (.setLocal _ _ .empty rfl) ⟨by decide, by decide⟩ workingSynchEnv false
    PUnit.unit

/-- The same file beside a directory that is on the server too. -/
def fileAndDirectory : Site :=
  localFile (fileSetLocal .dir { filename := some (ascii "d"), existing := true }
    (fileSetStored .dir { filename := some (ascii "d"), existing := true } { opts := {} }).1).1

/-- The file is deleted, and with it the whole local site but for the directory. -/
theorem directory_lets_remove :
    Reached {} fileAndDirectory ∧ RemovesAll fileAndDirectory ∧
      ¬ Refuses (actOnSynch workingSynchEnv false fileAndDirectory PUnit.unit) ∧
      (actOnSynch workingSynchEnv false fileAndDirectory PUnit.unit).trace =
        [.localCall 1 (.unlink (ascii "/a")) true] := by
  have htrace : (actOnSynch workingSynchEnv false fileAndDirectory PUnit.unit).trace =
      [.localCall 1 (.unlink (ascii "/a")) true] := by decide
  refine ⟨.setLocal _ _ (.setLocal _ _ (.setStored _ _ .empty rfl) rfl) rfl,
    ⟨by decide, by decide⟩, ?_, htrace⟩
  rintro ⟨_, hnone⟩
  rw [htrace] at hnone
  cases hnone

end Console

/-! ### Passes that keep a property of the run -/

section Passes
variable {σ : Type} {env : SynchEnv σ} {o : SiteOptions} {f : SiteFile}

/-- The entries that `synch_files` may download. -/
def Downloads (f : SiteFile) : Prop := f.type = .file ∧ (f.diff = .changed ∨ f.diff = .deleted)

/-- A property of the run that local calls keep, and with `connected` driver calls besides
those of `init`. -/
structure Kept (env : SynchEnv σ) (connected : Prop) (I : SynchRun σ → Prop) : Prop where
  stats : ∀ r st, I r → I { r with stats := st }
  local' : ∀ r owner c, I r → Ends (localCall env owner c) r fun _ r' => I r'
  driver : connected → ∀ r owner c, c ≠ .init → I r →
    Ends (driverCall env owner c) r fun _ r' => I r'

variable {connected : Prop} {I : SynchRun σ → Prop} {r : SynchRun σ}

/-- A directory that could not be created stays one, so it is not downloaded later. -/
lemma synchCreateDirectory_kept (h : Kept env connected I) (hr : I r) :
    Ends (synchCreateDirectory env o f) r fun out r' =>
      I r' ∧ ∀ g, out.1 = some g → g = f ∨ g.type = .dir := by
  unfold synchCreateDirectory
  rw [ends_ite]
  split_ifs with hdir
  · rw [ends_bind]
    apply (h.local' r f.addr _ hr).mono
    intro ok r' hr'
    rw [ends_ite]
    split_ifs
    · exact ⟨hr', fun g hg => Or.inl (Option.some.inj hg).symm⟩
    · refine ⟨h.stats _ _ hr', ?_⟩
      rintro g ⟨⟩
      exact Or.inr hdir.1
  · exact ⟨hr, fun g hg => Or.inl (Option.some.inj hg).symm⟩

lemma restoreTime_kept (h : Kept env connected I) (hr : I r) :
    Ends (restoreTime env o f) r fun _ r' => I r' := by
  unfold restoreTime
  rw [ends_ite]
  split_ifs
  · exact h.local' r _ _ hr
  · exact hr

lemma restorePerms_kept (h : Kept env connected I) (hr : I r) :
    Ends (restorePerms env o f) r fun _ r' => I r' := by
  unfold restorePerms
  rw [ends_ite]
  split_ifs
  · exact h.local' r _ _ hr
  · exact hr

lemma downloadFile_kept (h : Kept env connected I) (hc : connected) (hr : I r) :
    Ends (downloadFile env o f) r fun _ r' => I r' := by
  unfold downloadFile
  rw [ends_bind]
  apply (h.driver hc r _ _ (by simp) hr).mono
  intro ret r₁ hr₁
  rw [ends_ite]
  split_ifs
  · exact h.driver hc r₁ _ _ (by simp) hr₁
  · rw [ends_bind]
    apply (restoreTime_kept h hr₁).mono
    intro _ r₂ hr₂
    rw [ends_bind]
    apply (restorePerms_kept h hr₂).mono
    intro _ r₃ hr₃
    exact h.stats r₃ _ hr₃

lemma synchFile_kept (h : Kept env connected I) (hf : Downloads f → connected) (hr : I r) :
    Ends (synchFile env o f) r fun _ r' => I r' := by
  unfold synchFile
  by_cases ht : f.type ≠ .file
  · rw [if_pos ht]
    exact hr
  · rw [if_neg ht]
    rw [ne_eq, not_not] at ht
    cases hd : f.diff with
    | unchanged => exact hr
    | new | moved => exact h.local' r _ _ hr
    | deleted => exact downloadFile_kept h (hf ⟨ht, Or.inr hd⟩) hr
    | changed =>
      simp only [ends_ite]
      split_ifs
      · exact h.local' r _ _ hr
      · exact downloadFile_kept h (hf ⟨ht, Or.inl hd⟩) hr

lemma synchDeleteDirectory_kept (h : Kept env connected I) (hr : I r) :
    Ends (synchDeleteDirectory env o f) r fun _ r' => I r' := by
  unfold synchDeleteDirectory
  rw [ends_ite]
  split_ifs
  · rw [ends_bind]
    apply (h.local' r f.addr _ hr).mono
    intro ok r' hr'
    rw [ends_ite]
    split_ifs
    · exact h.stats _ _ hr'
    · exact hr'
  · exact hr

/-- The passes need a session only if some entry of the list is to be downloaded. -/
lemma synchPasses_kept (h : Kept env connected I) {files : List SiteFile}
    (hfiles : ∀ f ∈ files, Downloads f → connected) (hr : I r) :
    Ends (synchPasses env o files) r fun _ r' => I r' := by
  unfold synchPasses
  rw [ends_bind]
  have hcreate : Ends (synchCreateDirectories env o files) r fun out r' =>
      I r' ∧ ∀ f ∈ out.1, Downloads f → connected := by
    apply (forEach_ends (I := fun done rest _ r' =>
      I r' ∧ ∀ f ∈ done ++ rest, Downloads f → connected) ?_ ⟨hr, by simpa using hfiles⟩).mono
    · rintro out r' ⟨hr', hout⟩
      exact ⟨hr', by simpa using hout⟩
    · rintro done f rest failed r' ⟨hr', hrest⟩
      apply (synchCreateDirectory_kept h hr').mono
      rintro out r'' ⟨hr'', hout⟩
      refine ⟨hr'', fun g hg hdown => ?_⟩
      simp only [List.mem_append, Option.mem_toList] at hg
      rcases hg with (hg | hg) | hg
      · exact hrest g (by simp [hg]) hdown
      · rcases hout g hg with rfl | hdir
        · exact hrest g (by simp) hdown
        · rw [hdown.1] at hdir
          cases hdir
      · exact hrest g (by simp [hg]) hdown
  apply hcreate.mono
  rintro out₁ r₁ ⟨hr₁, hout₁⟩
  rw [ends_ite]
  split_ifs
  · have hsynch : Ends (synchFiles env o out₁.1) r₁ fun _ r' => I r' := by
      apply (forEach_ends (I := fun _ rest _ r' =>
        I r' ∧ ∀ f ∈ rest, Downloads f → connected) ?_ ⟨hr₁, hout₁⟩).mono
      · exact fun out r' hr' => hr'.1
      · rintro done f rest failed r' ⟨hr', hrest⟩
        apply (synchFile_kept h (hrest f (by simp)) hr').mono
        exact fun out r'' hr'' => ⟨hr'', fun g hg => hrest g (List.mem_cons_of_mem f hg)⟩
    rw [ends_bind]
    apply hsynch.mono
    intro out₂ r₂ hr₂
    rw [ends_ite]
    split_ifs
    · exact forEachBackward_ends (I := fun _ _ _ r' => I r')
        (fun _ _ _ _ _ hr' => synchDeleteDirectory_kept h hr') hr₂
    · exact hr₂
  · exact hr₁

end Passes

/-! ### The session -/

section Session
variable {H τ : Type}

/-- The methods of a driver and the calls on local files. The `init` method returns the session
that it assigns, which it does whatever its code is; the others are given the session, or `none`
when nothing was assigned to the variable. -/
structure SessionDriver (H τ : Type) where
  init : τ → (H × ℤ) × τ
  call : SynchCall → Option H → τ → ℤ × τ
  local' : LocalCall → τ → Bool × τ

/-- The variable `session` of `site_synch`, and what is outside of the program. -/
structure SynchMemory (H τ : Type) where
  session : Option H := none
  world : τ
  /-- the methods called since `init`, each with the session that it was given -/
  uses : List (SynchCall × Option H) := []

def SessionDriver.env (D : SessionDriver H τ) : SynchEnv (SynchMemory H τ) where
  driver
    | .init, m => ((D.init m.world).1.2,
        { m with session := some (D.init m.world).1.1, world := (D.init m.world).2 })
    | c, m => ((D.call c m.session m.world).1,
        { m with
          world := (D.call c m.session m.world).2
          uses := m.uses ++ [(c, m.session)] })
  local' c m := ((D.local' c m.world).1, { m with world := (D.local' c m.world).2 })

/-- The session is there, and every method was given it. -/
def Opened (s : H) (r : SynchRun (SynchMemory H τ)) : Prop :=
  r.sess.session = some s ∧ ∀ u ∈ r.sess.uses, u.2 = some s

/-- No method was called. -/
def Unused (r : SynchRun (SynchMemory H τ)) : Prop :=
  r.sess.uses = [] ∧ ∀ owner c code, .driver owner c code ∉ r.trace

variable {D : SessionDriver H τ} {o : SiteOptions} {files : List SiteFile} {s : H}
  {r : SynchRun (SynchMemory H τ)}

lemma opened_driver {owner : Option ℕ} {c : SynchCall} (hc : c ≠ .init) (hr : Opened s r) :
    Ends (driverCall D.env owner c) r fun _ r' => Opened s r' := by
  have huses : ∀ u ∈ r.sess.uses ++ [(c, r.sess.session)], u.2 = some s := by
    intro u hu
    rcases List.mem_append.mp hu with hu | hu
    · exact hr.2 u hu
    · rw [List.mem_singleton.mp hu]
      exact hr.1
  cases c with
  | init => exact absurd rfl hc
  | finish | error | fileDownload => exact ⟨hr.1, huses⟩

lemma opened_kept (s : H) : Kept D.env True (Opened s) where
  stats _ _ hr := hr
  local' _ _ _ hr := hr
  driver _ _ _ _ hc hr := opened_driver hc hr

lemma unused_kept : Kept D.env False Unused where
  stats _ _ hr := hr
  local' r owner c hr := by
    rw [ends_localCall]
    exact ⟨hr.1, by simpa using hr.2⟩
  driver hc := hc.elim

lemma synchFinish_opened (hr : Opened s r) :
    Ends (synchFinish D.env) r fun _ r' => Opened s r' := by
  unfold synchFinish
  rw [ends_bind]
  apply (opened_driver (by simp) hr).mono
  intro _ r₁ hr₁
  exact opened_driver (by simp) hr₁

/-- With a connection all methods are given what `init` assigned. -/
lemma synchSiteFiles_opened (D : SessionDriver H τ) (o : SiteOptions) (files : List SiteFile)
    (hr : r.sess.uses = []) :
    Ends (synchSiteFiles D.env o true files) r fun _ r' =>
      Opened (D.init r.sess.world).1.1 r' := by
  unfold synchSiteFiles
  rw [if_pos rfl, ends_bind, ends_driverCall]
  have hinit : Opened (D.init r.sess.world).1.1
      { r with
        sess := (D.env.driver .init r.sess).2
        trace := r.trace ++ [SynchEvent.driver none .init (D.env.driver .init r.sess).1] } :=
    ⟨rfl, by simp [SessionDriver.env, hr]⟩
  rw [ends_ite]
  split_ifs
  · rw [ends_bind]
    apply (opened_driver (by simp) hinit).mono
    intro _ r₁ hr₁
    exact synchFinish_opened hr₁
  · rw [ends_bind]
    apply (synchPasses_kept (opened_kept _) (fun _ _ _ => trivial) hinit).mono
    intro _ r₁ hr₁
    exact synchFinish_opened hr₁

/-- Without one no method is called. -/
lemma synchSiteFiles_unused (hfiles : ∀ f ∈ files, ¬ Downloads f) (hr : Unused r) :
    Ends (synchSiteFiles D.env o false files) r fun _ r' => Unused r' := by
  unfold synchSiteFiles
  rw [if_neg (by simp)]
  exact synchPasses_kept unused_kept hfiles hr

/-- Every method that a synch calls is given the session that its `init` assigned, and if no
connection is needed none is called. -/
theorem synch_given_session {site : Site} (h : Reached o site) (D : SessionDriver H τ)
    (keepgoing : Bool) (world : τ) :
    (∀ u ∈ (siteSynch D.env { site with opts := { site.opts with keepGoing := keepgoing } }
        { world := world }).sess.uses, u.2 = some (D.init world).1.1) ∧
      (needConn site.stats = false → ∀ owner c code, .driver owner c code ∉
        (siteSynch D.env { site with opts := { site.opts with keepGoing := keepgoing } }
          { world := world }).trace) := by
  have hneed := needConn_iff h.reachedSite.counted
  unfold siteSynch
  cases hn : needConn site.stats with
  | true =>
    have hopened := synchSiteFiles_opened D { site.opts with keepGoing := keepgoing } site.files
      (r := { stats := site.stats, sess := { world := world } }) rfl
    rw [ends_run] at hopened
    exact ⟨hopened.2, by simp⟩
  | false =>
    have hfiles : ∀ f ∈ site.files, ¬ Downloads f := by
      intro f hf hdown
      rw [hneed.mpr ⟨f, hf, hdown.2⟩] at hn
      cases hn
    have hunused := synchSiteFiles_unused (D := D)
      (o := { site.opts with keepGoing := keepgoing }) (r := {
        stats := site.stats
        sess := { world := world } }) hfiles ⟨rfl, by simp⟩
    rw [ends_run] at hunused
    exact ⟨by simp [hunused.1], fun _ => hunused.2⟩

/-- A driver with one session, that answers every call with the same code. -/
def constantDriver (code : ℤ) : SessionDriver ℕ PUnit where
  init w := ((7, SITE_OK), w)
  call _ _ w := (code, w)
  local' _ w := (true, w)

theorem synch_given_session_sample :
    (∀ u ∈ (siteSynch (constantDriver SITE_FAILED).env
        { sampleSite with opts := { sampleSite.opts with keepGoing := true } }
        { world := PUnit.unit }).sess.uses, u.2 = some 7) ∧
      (needConn sampleSite.stats = false → ∀ owner c code, .driver owner c code ∉
        (siteSynch (constantDriver SITE_FAILED).env
          { sampleSite with opts := { sampleSite.opts with keepGoing := true } }
          { world := PUnit.unit }).trace) :=
  synch_given_session (.setStored _ _ (.setLocal _ _ .empty rfl) rfl)
    (constantDriver SITE_FAILED) true PUnit.unit

end Session

end Sitecopy.SynchGuards
