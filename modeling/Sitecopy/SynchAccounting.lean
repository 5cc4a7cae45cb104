import Sitecopy.SynchRecords

/-!
# What a synch reports of its failures

Each pass of a synch returns whether one of its calls failed, but the passes share one
variable: a later pass forgets what an earlier one returned, and `chmod` is never counted.
-/
namespace Sitecopy.SynchAccounting
open SiteModel FileSet StateProgram SiteUpdate LocalSynch ReachedFiles

/-! ### Failed operations -/

/-- An operation of the synch that failed. A failed `utime` is only a warning. -/
def Failing : SynchEvent → Prop
  | .driver _ (.fileDownload _ _ _) code => code ≠ SITE_OK
  | .driver _ _ _ => False
  | .localCall _ (.utime _ _) _ => False
  | .localCall _ _ ok => ok = false

/-- The failures that make their pass return an error. -/
def Counted : SynchEvent → Prop
  | .localCall _ (.chmod _ _) _ => False
  | e => Failing e

/-- The failures of the last pass. -/
def FailedRmdir : SynchEvent → Prop
  | .localCall _ (.rmdir _) ok => ok = false
  | _ => False

lemma Counted.failing {e : SynchEvent} (h : Counted e) : Failing e := by
  unfold Counted at h
  split at h
  · exact h.elim
  · exact h

lemma FailedRmdir.counted {e : SynchEvent} (h : FailedRmdir e) : Counted e := by
  unfold FailedRmdir at h
  split at h
  · exact h
  · exact h.elim

/-! ### The passes that ran -/

section Synch
variable {σ : Type} {env : SynchEnv σ} {o : SiteOptions}

/-- The number of passes that a synch with a session starts. -/
def passesStarted (env : SynchEnv σ) (o : SiteOptions) (files : List SiteFile) :
    StateM (SynchRun σ) ℕ := do
  let r ← synchCreateDirectories env o files
  if !r.2 || o.keepGoing then do
    let r ← synchFiles env o r.1
    if !r.2 || o.keepGoing then pure 3 else pure 2
  else pure 1

/-- The same with the session that the synch opens where it needs one. -/
def synchStarts (env : SynchEnv σ) (o : SiteOptions) (needConn : Bool) (files : List SiteFile) :
    StateM (SynchRun σ) ℕ :=
  if needConn then do
    let ret ← driverCall env none .init
    if ret ≠ SITE_OK then pure 0 else passesStarted env o files
  else passesStarted env o files

/-- The number of passes that a synch starts. -/
def synchStarted (env : SynchEnv σ) (site : Site) (sess : σ) : ℕ :=
  ((synchStarts env site.opts (needConn site.stats) site.files).run
    { stats := site.stats, sess := sess }).1

/-- Where no pass is skipped after a failure, all three are started. -/
lemma passesStarted_all {files : List SiteFile} {r : SynchRun σ}
    (h : Ends (synchPasses env o files) r fun out _ => out.2 = false) :
    Ends (passesStarted env o files) r fun n _ => n = 3 := by
  unfold synchPasses at h
  unfold passesStarted
  rw [ends_bind] at h ⊢
  apply h.mono
  intro a r₁ h₁
  rw [ends_ite] at h₁ ⊢
  split_ifs at h₁ ⊢ with hgo
  · rw [ends_bind] at h₁ ⊢
    apply h₁.mono
    intro b r₂ h₂
    rw [ends_ite] at h₂ ⊢
    split_ifs at h₂ ⊢ with hgo₂
    · rfl
    · change b.2 = false at h₂
      simp [h₂] at hgo₂
  · change a.2 = false at h₁
    simp [h₁] at hgo

/-! ### What a pass returns -/

lemma synchCreateDirectory_failed (f : SiteFile) (r : SynchRun σ) :
    Ends (synchCreateDirectory env o f) r fun out r' => ∃ seg, r'.trace = r.trace ++ seg ∧
      (out.2 = true ↔ ∃ e ∈ seg, Counted e) ∧ ∀ e ∈ seg, ¬ FailedRmdir e := by
  unfold synchCreateDirectory
  split_ifs
  · simp only [ends_ite, ends_bind, ends_pure, ends_localCall, ends_fileDownloaded]
    split_ifs with hok
    · exact ⟨_, rfl, by simp [Counted, Failing, hok], by simp [FailedRmdir]⟩
    · exact ⟨_, rfl, by simp [Counted, Failing, hok], by simp [FailedRmdir]⟩
  · exact ⟨[], (List.append_nil _).symm, by simp, by simp⟩

lemma downloadFile_failed (f : SiteFile) (r : SynchRun σ) :
    Ends (downloadFile env o f) r fun out r' => ∃ seg, r'.trace = r.trace ++ seg ∧
      (out.2 = true ↔ ∃ e ∈ seg, Counted e) ∧ ∀ e ∈ seg, ¬ FailedRmdir e := by
  unfold downloadFile restoreTime restorePerms
  simp only [ends_bind, ends_driverCall, ends_ite, ends_localCall, ends_pure, ends_fileDownloaded]
  -- the longest sequence of calls is a download, `utime` and `chmod`
  split_ifs with hret
  · exact ⟨[_, _], List.append_assoc _ _ _, by simp [Counted, Failing, hret], by simp [FailedRmdir]⟩
  · refine ⟨[_, _, _], by simp only [List.append_assoc]; rfl, ?_, ?_⟩
    · simp [Counted, Failing, hret]
    · simp [FailedRmdir]
  · exact ⟨[_, _], List.append_assoc _ _ _, by simp [Counted, Failing, hret], by simp [FailedRmdir]⟩
  · exact ⟨[_, _], List.append_assoc _ _ _, by simp [Counted, Failing, hret], by simp [FailedRmdir]⟩
  · exact ⟨[_], rfl, by simp [Counted, Failing, hret], by simp [FailedRmdir]⟩

lemma synchFile_failed (f : SiteFile) (r : SynchRun σ) :
    Ends (synchFile env o f) r fun out r' => ∃ seg, r'.trace = r.trace ++ seg ∧
      (out.2 = true ↔ ∃ e ∈ seg, Counted e) ∧ ∀ e ∈ seg, ¬ FailedRmdir e := by
  unfold synchFile
  by_cases ht : f.type ≠ .file
  · rw [if_pos ht]
    exact ⟨[], (List.append_nil _).symm, by simp, by simp⟩
  · rw [if_neg ht]
    cases f.diff with
    | unchanged => exact ⟨[], (List.append_nil _).symm, by simp, by simp⟩
    | deleted => exact downloadFile_failed f r
    | new =>
      simp only [ends_bind, ends_localCall, ends_pure]
      exact ⟨_, rfl, by simp [Counted, Failing], by simp [FailedRmdir]⟩
    | moved =>
      simp only [ends_bind, ends_localCall, ends_pure]
      exact ⟨_, rfl, by simp [Counted, Failing], by simp [FailedRmdir]⟩
    | changed =>
      dsimp only
      split_ifs
      · simp only [ends_bind, ends_localCall, ends_pure]
        exact ⟨_, rfl, by simp [Counted], by simp [FailedRmdir]⟩
      · exact downloadFile_failed f r

lemma synchDeleteDirectory_failed (f : SiteFile) (r : SynchRun σ) :
    Ends (synchDeleteDirectory env o f) r fun out r' => ∃ seg, r'.trace = r.trace ++ seg ∧
      (out.2 = true ↔ ∃ e ∈ seg, FailedRmdir e) ∧ ∀ e ∈ seg, Failing e → FailedRmdir e := by
  unfold synchDeleteDirectory
  split_ifs
  · simp only [ends_ite, ends_bind, ends_pure, ends_localCall, ends_synchDelete]
    split_ifs with hok
    · exact ⟨_, rfl, by simp [FailedRmdir, hok], by simp [FailedRmdir, Failing]⟩
    · exact ⟨_, rfl, by simp [FailedRmdir, hok], by simp [FailedRmdir, Failing]⟩
  · exact ⟨[], (List.append_nil _).symm, by simp, by simp⟩

/-! ### What the synch returns -/

/-- The failures that the returned code shows. -/
def Shown (o : SiteOptions) (e : SynchEvent) : Prop :=
  if o.keepGoing then FailedRmdir e else Counted e

lemma FailedRmdir.shown {e : SynchEvent} (h : FailedRmdir e) : Shown o e := by
  unfold Shown
  split_ifs
  · exact h
  · exact h.counted

lemma Shown.failing {e : SynchEvent} (h : Shown o e) : Failing e := by
  unfold Shown at h
  split_ifs at h
  · exact h.counted.failing
  · exact h.failing

lemma shown_of_stop (hk : o.keepGoing = false) (e : SynchEvent) : Shown o e ↔ Counted e := by
  simp [Shown, hk]

lemma synchPasses_failed (files : List SiteFile) (r : SynchRun σ) :
    Ends (synchPasses env o files) r fun out r' => ∃ seg, r'.trace = r.trace ++ seg ∧
      (out.2 = true ↔ ∃ e ∈ seg, Shown o e) := by
  unfold synchPasses
  rw [ends_bind]
  apply (forEach_failed SynchRun.trace Counted (fun e => ¬ FailedRmdir e) files
    (fun f _ r => synchCreateDirectory_failed f r) r).mono
  rintro a r₁ ⟨seg₁, h₁, ha, hfits₁⟩
  rw [ends_ite]
  split_ifs with hgo
  · rw [ends_bind]
    apply (forEach_failed SynchRun.trace Counted (fun e => ¬ FailedRmdir e) a.1
      (fun f _ r => synchFile_failed f r) r₁).mono
    rintro b r₂ ⟨seg₂, h₂, hb, hfits₂⟩
    rw [ends_ite]
    split_ifs with hgo₂
    · apply (forEachBackward_failed SynchRun.trace FailedRmdir
        (fun e => Failing e → FailedRmdir e) b.1
        (fun f _ r => synchDeleteDirectory_failed f r) r₂).mono
      rintro c r₃ ⟨seg₃, h₃, hc, hfits₃⟩
      refine ⟨seg₁ ++ (seg₂ ++ seg₃), by simp [h₃, h₂, h₁], ?_⟩
      rw [hc]
      constructor
      · rintro ⟨e, he, hrm⟩
        exact ⟨e, by simp [he], hrm.shown⟩
      · rintro ⟨e, he, hshown⟩
        simp only [List.mem_append] at he
        cases hk : o.keepGoing with
        | true =>
          have hrm : FailedRmdir e := by simpa [Shown, hk] using hshown
          rcases he with he | he | he
          · exact absurd hrm (hfits₁ e he)
          · exact absurd hrm (hfits₂ e he)
          · exact ⟨e, he, hrm⟩
        | false =>
          -- a failure in an earlier pass would have stopped the synch
          rw [shown_of_stop hk] at hshown
          simp only [hk, Bool.or_false, Bool.not_eq_true'] at hgo hgo₂
          rcases he with he | he | he
          · exact absurd (ha.mpr ⟨e, he, hshown⟩) (by simp [hgo])
          · exact absurd (hb.mpr ⟨e, he, hshown⟩) (by simp [hgo₂])
          · exact ⟨e, he, hfits₃ e he hshown.failing⟩
    · rw [Bool.not_eq_true, Bool.or_eq_false_iff, Bool.not_eq_false'] at hgo₂
      refine ⟨seg₁ ++ seg₂, by rw [← List.append_assoc, ← h₁]; exact h₂, iff_of_true hgo₂.1 ?_⟩
      obtain ⟨e, he, hcounted⟩ := hb.mp hgo₂.1
      exact ⟨e, List.mem_append_right _ he, (shown_of_stop hgo₂.2 e).mpr hcounted⟩
  · rw [Bool.not_eq_true, Bool.or_eq_false_iff, Bool.not_eq_false'] at hgo
    refine ⟨seg₁, h₁, iff_of_true hgo.1 ?_⟩
    obtain ⟨e, he, hcounted⟩ := ha.mp hgo.1
    exact ⟨e, he, (shown_of_stop hgo.2 e).mpr hcounted⟩

lemma exitCode_ok_iff {failed : Bool} : exitCode failed = SITE_OK ↔ failed = false := by
  cases failed <;> decide

/-- The session, where the synch needs one, could be opened. -/
def Opened (env : SynchEnv σ) (site : Site) (sess : σ) : Prop :=
  needConn site.stats = true → (env.driver .init sess).1 = SITE_OK

lemma siteSynch_ok_iff (env : SynchEnv σ) (site : Site) (sess : σ) :
    (siteSynch env site sess).ret = SITE_OK ↔
      Opened env site sess ∧ ∀ e ∈ (siteSynch env site sess).trace, ¬ Shown site.opts e := by
  have hquiet : ∀ (c : SynchCall) (code : ℤ), c = .init ∨ c = .error ∨ c = .finish →
      ¬ Shown site.opts (.driver none c code) := by
    rintro c code (rfl | rfl | rfl) h <;> exact h.failing
  have hrun : Ends (synchSiteFiles env site.opts (needConn site.stats) site.files)
      { stats := site.stats, sess := sess } fun out r => out.2 = SITE_OK ↔
        Opened env site sess ∧ ∀ e ∈ r.trace, ¬ Shown site.opts e := by
    unfold synchSiteFiles synchFinish
    split_ifs with hconn
    · simp only [ends_ite, ends_bind, ends_pure, ends_driverCall]
      split_ifs with hinit
      · exact iff_of_false hinit fun h => hinit (h.1 hconn)
      · rw [not_not] at hinit
        apply (synchPasses_failed site.files _).mono
        rintro out r ⟨seg, h, hs⟩
        rw [exitCode_ok_iff, ← Bool.not_eq_true, hs, h]
        simp [Opened, hinit, hquiet, or_imp, forall_and]
    · simp only [ends_bind, ends_pure]
      apply (synchPasses_failed site.files _).mono
      rintro out r ⟨seg, h, hs⟩
      rw [exitCode_ok_iff, ← Bool.not_eq_true, hs, h]
      simp [Opened, hconn]
  exact hrun

lemma synchStarted_of_ok (env : SynchEnv σ) (site : Site) (sess : σ)
    (h : (siteSynch env site sess).ret = SITE_OK) : synchStarted env site sess = 3 := by
  have hrun : Ends (synchSiteFiles env site.opts (needConn site.stats) site.files)
      { stats := site.stats, sess := sess } fun out _ => out.2 = SITE_OK →
        Ends (synchStarts env site.opts (needConn site.stats) site.files)
          { stats := site.stats, sess := sess } fun n _ => n = 3 := by
    unfold synchSiteFiles synchStarts synchFinish
    split_ifs with hconn
    · simp only [ends_ite, ends_bind, ends_pure, ends_driverCall]
      split_ifs with hinit
      · exact fun hret => absurd hret hinit
      · exact fun hret => passesStarted_all (exitCode_ok_iff.mp hret)
    · exact fun hret => passesStarted_all (exitCode_ok_iff.mp hret)
  exact hrun h

lemma opened_of_started (env : SynchEnv σ) (site : Site) (sess : σ)
    (h : synchStarted env site sess = 3) : Opened env site sess := by
  intro hconn
  by_contra hinit
  have hrun : Ends (synchStarts env site.opts (needConn site.stats) site.files)
      { stats := site.stats, sess := sess } fun n _ => n = 0 := by
    unfold synchStarts
    rw [if_pos hconn, ends_bind, ends_driverCall, ends_ite, if_pos hinit, ends_pure]
  have hzero : synchStarted env site sess = 0 := hrun
  omega

lemma opened_of_failing (env : SynchEnv σ) (site : Site) (sess : σ)
    (h : ∃ e ∈ (siteSynch env site sess).trace, Failing e) : Opened env site sess := by
  intro hconn
  by_contra hinit
  have hrun : Ends (synchSiteFiles env site.opts (needConn site.stats) site.files)
      { stats := site.stats, sess := sess } fun _ r => ∀ e ∈ r.trace, ¬ Failing e := by
    unfold synchSiteFiles synchFinish
    simp only [if_pos hconn, ends_bind, ends_driverCall, ends_ite, ends_pure]
    rw [if_pos hinit]
    simp [or_imp, forall_and, Failing]
  obtain ⟨e, he, hf⟩ := h
  exact hrun e he hf

/-- A synch tells success of exactly those runs in which all operations succeed and no pass
is skipped if and only if a failed operation never goes without one that is shown: with
`keep_going` a failed `rmdir`, otherwise one other than `chmod`. -/
theorem synch_accounted_iff {σ : Type} (env : SynchEnv σ) (site : Site) (sess : σ) :
    ((siteSynch env site sess).ret = SITE_OK ↔
      (∀ e ∈ (siteSynch env site sess).trace, ¬ Failing e) ∧ synchStarted env site sess = 3) ↔
    ((∃ e ∈ (siteSynch env site sess).trace, Failing e) →
      ∃ e ∈ (siteSynch env site sess).trace, Shown site.opts e) := by
  have hok := siteSynch_ok_iff env site sess
  have hstarted := synchStarted_of_ok env site sess
  have hopened := opened_of_started env site sess
  constructor
  · rintro h ⟨e, he, hf⟩
    by_contra hshown
    push Not at hshown
    have hret := hok.mpr ⟨opened_of_failing env site sess ⟨e, he, hf⟩, hshown⟩
    exact (h.mp hret).1 e he hf
  · intro h
    constructor
    · intro hret
      refine ⟨fun e he hf => ?_, hstarted hret⟩
      obtain ⟨e', he', hs⟩ := h ⟨e, he, hf⟩
      exact (hok.mp hret).2 e' he' hs
    · rintro ⟨hall, hthree⟩
      exact hok.mpr ⟨hopened hthree, fun e he hs => hall e he hs.failing⟩

end Synch

/-- A driver that always succeeds beside a file system on which nothing can be changed. -/
def readOnlySynchEnv : SynchEnv PUnit where
  driver _ s := (SITE_OK, s)
  local' _ s := (false, s)

/-- A recorded directory that is missing locally, of a site that keeps going. -/
def missingDirectoryGoing : Site :=
  (fileSetStored .dir { filename := some (ascii "d"), existing := true }
    { opts := { keepGoing := true } }).1

/-- The directory is not created, and the synch succeeds. -/
theorem failed_mkdir_forgotten :
    Reached { keepGoing := true } missingDirectoryGoing ∧
      ¬ ((siteSynch readOnlySynchEnv missingDirectoryGoing PUnit.unit).ret = SITE_OK ↔
        (∀ e ∈ (siteSynch readOnlySynchEnv missingDirectoryGoing PUnit.unit).trace, ¬ Failing e) ∧
          synchStarted readOnlySynchEnv missingDirectoryGoing PUnit.unit = 3) := by
  have hret : (siteSynch readOnlySynchEnv missingDirectoryGoing PUnit.unit).ret = SITE_OK := by
    decide
  have hmem : .localCall 0 (.mkdir (ascii "/d") 0o755) false ∈
      (siteSynch readOnlySynchEnv missingDirectoryGoing PUnit.unit).trace := by
    decide
  refine ⟨.setStored _ _ .empty rfl, fun h => ?_⟩
  exact (h.mp hret).1 _ hmem rfl

end Sitecopy.SynchAccounting
