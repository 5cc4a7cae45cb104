import Sitecopy.UpdateConvergence

/-!
# The two flags and what the operations do

`remote_is_different` tells whether an update issues any call, `local_is_different`
whether a synch changes anything. A synch passes over a changed directory, which the
second flag counts.
-/
namespace Sitecopy.DifferenceFlags
open SiteModel FileSet StateProgram SiteStats SiteUpdate UpdateAccounting
open SiteInvariants LocalSynch ReachedFiles UpdateConvergence

/-! ### Updating -/

/-- An update issues a call besides those of its session exactly if the flag is set. -/
theorem remote_is_different_iff {σ : Type} {env : Env σ} (hw : Works env) {site : Site}
    (h : ReachedSite site) (hlink : ∀ f ∈ site.files, f.type ≠ .link) (sess : σ) :
    site.stats.remoteIsDifferent = true ↔ ∃ e ∈ (siteUpdate env site sess).trace, Working e := by
  obtain ⟨_, ran, r, _, htr, hb, htable⟩ := siteUpdate_between hw h hlink sess
  have hsweep := hb .files
  rw [remote_iff h.counted, ← htr]
  constructor
  · rintro ⟨f, hf, hd, hex⟩
    by_contra hno
    push Not at hno
    have hleft := (hsweep.sweep.kept f hf (Or.inr hno)).resolve_left (by simp)
    rcases exempt_of_pending (h.entries f hf) (hlink f hf) (hsweep.sweep.waiting f hleft) htable
      with hd' | ⟨_, he⟩
    · exact hd hd'
    · exact hex he
  · exact hsweep.sweep.needed

/-! ### Synching -/

variable {σ : Type}

/-- Every driver call and every local call succeeds. -/
structure SynchWorks (env : SynchEnv σ) : Prop where
  code : ∀ c s, (env.driver c s).1 = SITE_OK
  ok : ∀ c s, (env.local' c s).1 = true

/-- A download, local deletion, mkdir, rmdir, rename or chmod. -/
def Performs : SynchEvent → Prop
  | .driver _ (.fileDownload _ _ _) _ => True
  | .driver _ _ _ => False
  | .localCall _ (.utime _ _) _ => False
  | .localCall _ _ _ => True

/-- The entries that a pass of a synch acts on. -/
def Acts : SynchPhase → SiteFile → Prop
  | .createDirectories, f => f.type = .dir ∧ f.diff = .deleted
  | .files, f => f.type = .file ∧ f.diff ≠ .unchanged
  | .deleteDirectories, f => f.type = .dir ∧ f.diff = .new

def synchTurn (env : SynchEnv σ) (o : SiteOptions) :
    SynchPhase → SiteFile → StateM (SynchRun σ) Outcome
  | .createDirectories => synchCreateDirectory env o
  | .files => synchFile env o
  | .deleteDirectories => synchDeleteDirectory env o

/-- One turn of pass `p` in which every call succeeds. -/
structure SynchVisit (p : SynchPhase) (f : SiteFile) (seg : List SynchEvent) (out : Outcome) :
    Prop where
  success : out.2 = false
  performs : (∃ e ∈ seg, Performs e) ↔ Acts p f
  type : ∀ g, out.1 = some g → g.type = f.type
  keeps : p = .createDirectories ∨ p = .files ∧ f.type ≠ .file → out.1 = some f

section Turns
variable {env : SynchEnv σ} {o : SiteOptions} {f : SiteFile} {r : SynchRun σ} {p : SynchPhase}

/-- A turn that does nothing. -/
lemma SynchVisit.idle (h : ¬ Acts p f) : SynchVisit p f [] (some f, false) :=
  ⟨rfl, by simpa using h, by rintro g ⟨⟩; rfl, fun _ => rfl⟩

/-- A turn of one call that leaves the entry as it is. -/
lemma SynchVisit.one (h : Acts p f) {c : LocalCall} {ok : Bool}
    (hc : Performs (.localCall f.addr c ok)) :
    SynchVisit p f [.localCall f.addr c ok] (some f, false) :=
  ⟨rfl, by simp [h, hc], by rintro g ⟨⟩; rfl, fun _ => rfl⟩

lemma synchCreateDirectory_visit (hw : SynchWorks env) :
    Ends (synchCreateDirectory env o f) r fun out r' =>
      ∃ seg, r'.trace = r.trace ++ seg ∧ SynchVisit .createDirectories f seg out := by
  unfold synchCreateDirectory
  simp only [ends_ite, ends_bind, ends_pure, ends_localCall, hw.ok, ↓reduceIte]
  split_ifs with hact
  · exact ⟨_, rfl, SynchVisit.one (p := .createDirectories) hact trivial⟩
  · exact ⟨[], (List.append_nil _).symm, SynchVisit.idle hact⟩

lemma downloadFile_visit (hw : SynchWorks env) (h : Acts .files f) :
    Ends (downloadFile env o f) r fun out r' =>
      ∃ seg, r'.trace = r.trace ++ seg ∧ SynchVisit .files f seg out := by
  have hvisit : ∀ (st : Stats) (a b : List SynchEvent) (l m : Text) (asc : Bool),
      SynchVisit .files f ([.driver (some f.addr) (.fileDownload l m asc) SITE_OK] ++ a ++ b)
        (some (fileSetDiff o { f with localState := downloadedState o f } st).1, false) := by
    intro st a b l m asc
    refine ⟨rfl, ⟨fun _ => h, fun _ => ?_⟩, ?_, ?_⟩
    · exact ⟨.driver (some f.addr) (.fileDownload l m asc) SITE_OK, by simp, trivial⟩
    · rintro g ⟨⟩
      rfl
    · rintro (⟨⟨⟩⟩ | ⟨_, hne⟩)
      exact absurd h.1 hne
  unfold downloadFile restoreTime restorePerms
  simp only [ends_ite, ends_bind, ends_pure, ends_driverCall, ends_localCall, ends_fileDownloaded,
    hw.code, hw.ok, ne_eq, not_true_eq_false, ↓reduceIte, List.append_assoc]
  split_ifs
  · exact ⟨_, rfl, hvisit _ [_] [_] _ _ _⟩
  · exact ⟨_, rfl, hvisit _ [_] [] _ _ _⟩
  · exact ⟨_, rfl, hvisit _ [] [_] _ _ _⟩
  · exact ⟨_, rfl, hvisit _ [] [] _ _ _⟩

lemma synchFile_visit (hw : SynchWorks env) :
    Ends (synchFile env o f) r fun out r' =>
      ∃ seg, r'.trace = r.trace ++ seg ∧ SynchVisit .files f seg out := by
  unfold synchFile
  by_cases ht : f.type ≠ .file
  · rw [if_pos ht]
    exact ⟨[], (List.append_nil _).symm, SynchVisit.idle fun h => ht h.1⟩
  · rw [if_neg ht]
    rw [ne_eq, not_not] at ht
    have hact : f.diff ≠ .unchanged → Acts .files f := fun hd => ⟨ht, hd⟩
    cases hd : f.diff with
    | unchanged =>
      exact ⟨[], (List.append_nil _).symm, SynchVisit.idle fun h => h.2 hd⟩
    | new | moved =>
      simp only [ends_bind, ends_pure, ends_localCall, hw.ok]
      exact ⟨_, rfl, SynchVisit.one (hact (by simp [hd])) trivial⟩
    | deleted => exact downloadFile_visit hw (hact (by simp [hd]))
    | changed =>
      simp only [ends_ite, ends_bind, ends_pure, ends_localCall, hw.ok]
      split_ifs
      · exact ⟨_, rfl, SynchVisit.one (hact (by simp [hd])) trivial⟩
      · exact downloadFile_visit hw (hact (by simp [hd]))

lemma synchDeleteDirectory_visit (hw : SynchWorks env) :
    Ends (synchDeleteDirectory env o f) r fun out r' =>
      ∃ seg, r'.trace = r.trace ++ seg ∧ SynchVisit .deleteDirectories f seg out := by
  unfold synchDeleteDirectory
  simp only [ends_ite, ends_bind, ends_pure, ends_localCall, ends_synchDelete, hw.ok, ↓reduceIte]
  split_ifs with hact
  · refine ⟨_, rfl, rfl, ⟨fun _ => hact, fun _ => ⟨_, List.mem_singleton_self _, trivial⟩⟩,
      by simp, ?_⟩
    rintro (⟨⟨⟩⟩ | ⟨⟨⟩, _⟩)
  · exact ⟨[], (List.append_nil _).symm, SynchVisit.idle hact⟩

lemma synchTurn_visit (hw : SynchWorks env) (p : SynchPhase) (f : SiteFile) (r : SynchRun σ) :
    Ends (synchTurn env o p f) r fun out r' =>
      ∃ seg, r'.trace = r.trace ++ seg ∧ SynchVisit p f seg out := by
  cases p with
  | createDirectories => exact synchCreateDirectory_visit hw
  | files => exact synchFile_visit hw
  | deleteDirectories => exact synchDeleteDirectory_visit hw

end Turns

/-- One pass: whether it performed anything, and what it left. -/
structure SynchSwept (p : SynchPhase) (files : List SiteFile) (r : SynchRun σ)
    (out : List SiteFile × Bool) (r' : SynchRun σ) : Prop where
  success : out.2 = false
  performs : (∃ e ∈ r'.trace, Performs e) ↔
    (∃ e ∈ r.trace, Performs e) ∨ ∃ f ∈ files, Acts p f
  created : p = .createDirectories → ∀ f, f ∈ out.1 ↔ f ∈ files
  directories : p = .files → ∀ f, f.type = .dir → (f ∈ out.1 ↔ f ∈ files)

lemma swept_of_visits {p : SynchPhase} {files : List SiteFile} {r r' : SynchRun σ}
    {out : List SiteFile × Bool} {vs : List (Visit SiteFile SynchEvent)}
    (hfiles : vs.map Visit.elem = files) (hout : out = (Visit.kept vs, Visit.failed vs))
    (htrace : ∀ e, e ∈ r'.trace ↔ e ∈ r.trace ∨ e ∈ Visit.logged vs)
    (hvs : ∀ v ∈ vs, SynchVisit p v.elem v.log v.result) : SynchSwept p files r out r' where
  success := by
    rw [hout]
    exact Visit.failed_eq_false.mpr fun v hv => (hvs v hv).success
  performs := by
    have hlog : (∃ e ∈ Visit.logged vs, Performs e) ↔ ∃ f ∈ files, Acts p f := by
      simp only [← hfiles, List.mem_map, exists_exists_and_eq_and, Visit.mem_logged]
      constructor
      · rintro ⟨e, ⟨v, hv, he⟩, hp⟩
        exact ⟨v, hv, (hvs v hv).performs.mp ⟨e, he, hp⟩⟩
      · rintro ⟨v, hv, hact⟩
        obtain ⟨e, he, hp⟩ := (hvs v hv).performs.mpr hact
        exact ⟨e, ⟨v, hv, he⟩, hp⟩
    rw [← hlog]
    simp only [htrace, or_and_right, exists_or]
  created hp f := by
    have hall : ∀ v ∈ vs, v.result.1 = some v.elem := fun v hv => (hvs v hv).keeps (Or.inl hp)
    rw [hout, ← hfiles]
    simp only [Visit.mem_kept, List.mem_map]
    constructor
    · rintro ⟨v, hv, hres⟩
      exact ⟨v, hv, Option.some.inj ((hall v hv).symm.trans hres)⟩
    · rintro ⟨v, hv, rfl⟩
      exact ⟨v, hv, hall v hv⟩
  directories hp f ht := by
    rw [hout, ← hfiles]
    simp only [Visit.mem_kept, List.mem_map]
    constructor
    · rintro ⟨v, hv, hres⟩
      have htype := (hvs v hv).type f hres
      have hkeep := (hvs v hv).keeps (Or.inr ⟨hp, by simp [← htype, ht]⟩)
      exact ⟨v, hv, Option.some.inj (hkeep.symm.trans hres)⟩
    · rintro ⟨v, hv, rfl⟩
      exact ⟨v, hv, (hvs v hv).keeps (Or.inr ⟨hp, by simp [ht]⟩)⟩

lemma synchPass_swept {env : SynchEnv σ} (hw : SynchWorks env) (o : SiteOptions) (p : SynchPhase)
    (files : List SiteFile) (r : SynchRun σ) :
    Ends (p.pass env o files) r fun out r' => SynchSwept p files r out r' := by
  have hforward : Ends (forEach (synchTurn env o p) files) r fun out r' =>
      SynchSwept p files r out r' := by
    apply (forEach_visits SynchRun.trace files (fun f _ => synchTurn_visit hw p f) r).mono
    rintro out r' ⟨vs, hfiles, hout, htrace, hvs⟩
    exact swept_of_visits hfiles hout (by simp [htrace]) hvs
  cases p with
  | createDirectories | files => exact hforward
  | deleteDirectories =>
    apply (forEachBackward_visits SynchRun.trace files
      (fun f _ => synchTurn_visit hw .deleteDirectories f) r).mono
    rintro out r' ⟨vs, hfiles, hout, htrace, hvs⟩
    exact swept_of_visits hfiles hout (by simp [htrace, Visit.mem_logged]) hvs

/-- Some pass of a synch acts on the entry. -/
def Synched (f : SiteFile) : Prop := ∃ p, Acts p f

lemma synchPasses_swept {env : SynchEnv σ} (hw : SynchWorks env) (o : SiteOptions)
    (files : List SiteFile) (r : SynchRun σ) (hr : ¬ ∃ e ∈ r.trace, Performs e) :
    Ends (synchPasses env o files) r fun _ r' =>
      (∃ e ∈ r'.trace, Performs e) ↔ ∃ f ∈ files, Synched f := by
  unfold synchPasses
  rw [ends_bind]
  apply (synchPass_swept hw o .createDirectories files r).mono
  intro out₁ r₁ h₁
  rw [ends_ite, if_pos (by simp [h₁.success]), ends_bind]
  apply (synchPass_swept hw o .files out₁.1 r₁).mono
  intro out₂ r₂ h₂
  rw [ends_ite, if_pos (by simp [h₂.success])]
  apply (synchPass_swept hw o .deleteDirectories out₂.1 r₂).mono
  intro out₃ r₃ h₃
  have hfiles : (∃ f ∈ out₁.1, Acts .files f) ↔ ∃ f ∈ files, Acts .files f := by
    simp only [h₁.created rfl]
  have hdirs : (∃ f ∈ out₂.1, Acts .deleteDirectories f) ↔
      ∃ f ∈ files, Acts .deleteDirectories f := by
    constructor
    · rintro ⟨f, hf, hact⟩
      exact ⟨f, (h₁.created rfl f).mp ((h₂.directories rfl f hact.1).mp hf), hact⟩
    · rintro ⟨f, hf, hact⟩
      exact ⟨f, (h₂.directories rfl f hact.1).mpr ((h₁.created rfl f).mpr hf), hact⟩
  rw [h₃.performs, h₂.performs, h₁.performs, hfiles, hdirs, or_iff_right hr]
  constructor
  · rintro ((⟨f, hf, hact⟩ | ⟨f, hf, hact⟩) | ⟨f, hf, hact⟩)
    · exact ⟨f, hf, _, hact⟩
    · exact ⟨f, hf, _, hact⟩
    · exact ⟨f, hf, _, hact⟩
  · rintro ⟨f, hf, p, hact⟩
    cases p with
    | createDirectories => exact Or.inl (Or.inl ⟨f, hf, hact⟩)
    | files => exact Or.inl (Or.inr ⟨f, hf, hact⟩)
    | deleteDirectories => exact Or.inr ⟨f, hf, hact⟩

/-- A synch performs something exactly if one of its passes acts on some entry. -/
theorem siteSynch_performs {env : SynchEnv σ} (hw : SynchWorks env) (site : Site) (sess : σ) :
    (∃ e ∈ (siteSynch env site sess).trace, Performs e) ↔ ∃ f ∈ site.files, Synched f := by
  have hrun : Ends (synchSiteFiles env site.opts (needConn site.stats) site.files)
      { stats := site.stats, sess := sess } fun _ r' =>
        (∃ e ∈ r'.trace, Performs e) ↔ ∃ f ∈ site.files, Synched f := by
    unfold synchSiteFiles synchFinish
    simp only [ends_bind, ends_ite, ends_pure, ends_driverCall, hw.code, ne_eq,
      not_true_eq_false, ↓reduceIte]
    split_ifs
    · apply (synchPasses_swept hw site.opts site.files _ (by simp [Performs])).mono
      intro out r' h
      rw [← h]
      simp [or_and_right, exists_or, Performs]
    · exact synchPasses_swept hw site.opts site.files _ (by simp)
  exact hrun

/-- The flag for the local site tells whether some entry is not unchanged. -/
lemma local_iff {site : Site} (h : CountedSite site) :
    site.stats.localIsDifferent = true ↔ ∃ f ∈ site.files, f.diff ≠ .unchanged := by
  obtain ⟨a, b, h⟩ := h
  have hst := statistics_of_exact h.exact
  have hflag := hst.localIsDifferent
  rw [hst.numnew, hst.numchanged, hst.numignored, hst.numdeleted, hst.nummoved] at hflag
  have hsum : ∀ m n d c i : ℕ, ((m : ℤ) + n + d + c + i > 0 ↔
      (0 : ℤ) < m ∨ (0 : ℤ) < n ∨ (0 : ℤ) < d ∨ (0 : ℤ) < c ∨ (0 : ℤ) < i) := by
    intros
    omega
  rw [hsum] at hflag
  simp only [count_pos, decide_eq_true_eq] at hflag
  refine Iff.trans hflag ?_
  constructor
  · rintro (⟨f, hf, hd⟩ | ⟨f, hf, hd⟩ | ⟨f, hf, hd⟩ | ⟨f, hf, hd, _⟩ | ⟨f, hf, hd, _⟩)
    all_goals exact ⟨f, hf, by simp [hd]⟩
  · rintro ⟨f, hf, hne⟩
    cases hd : f.diff with
    | unchanged => exact absurd hd hne
    | moved => exact Or.inl ⟨f, hf, hd⟩
    | new => exact Or.inr (Or.inl ⟨f, hf, hd⟩)
    | deleted => exact Or.inr (Or.inr (Or.inl ⟨f, hf, hd⟩))
    | changed =>
      refine Or.inr (Or.inr (Or.inr ?_))
      cases hi : f.ignore with
      | false => exact Or.inl ⟨f, hf, hd, hi⟩
      | true => exact Or.inr ⟨f, hf, hd, hi⟩

/-- No pass acts on a changed directory, and on nothing else that differs. -/
lemma synched_iff {o : SiteOptions} {f : SiteFile} (h : EntryOk o f) (hlink : f.type ≠ .link) :
    Synched f ↔ f.diff ≠ .unchanged ∧ ¬ (f.type = .dir ∧ f.diff = .changed) := by
  constructor
  · rintro ⟨p, hact⟩
    cases p with
    | createDirectories => exact ⟨by simp [hact.2], by simp [hact.2]⟩
    | files => exact ⟨hact.2, by simp [hact.1]⟩
    | deleteDirectories => exact ⟨by simp [hact.2], by simp [hact.2]⟩
  · rintro ⟨hne, hdir⟩
    cases ht : f.type with
    | link => exact absurd ht hlink
    | file => exact ⟨.files, ht, hne⟩
    | dir =>
      cases hd : f.diff with
      | unchanged => exact absurd hd hne
      | changed => exact absurd ⟨ht, hd⟩ hdir
      | new => exact ⟨.deleteDirectories, ht, hd⟩
      | deleted => exact ⟨.createDirectories, ht, hd⟩
      | moved =>
        obtain ⟨hfile, _⟩ := fileCompare_moved (h.compared.symm.trans hd)
        rw [ht] at hfile
        cases hfile

/-- Both flags say what the operations do on exactly those lists whose changed directories,
if there are any, are not all that differs. -/
theorem flags_tell_iff {σ τ : Type} {env : Env σ} (hw : Works env) {senv : SynchEnv τ}
    (hsw : SynchWorks senv) {o : SiteOptions} {site : Site} (hreach : Reached o site)
    (hlink : ∀ f ∈ site.files, f.type ≠ .link) (sess : σ) (ssess : τ) :
    ((site.stats.remoteIsDifferent = true ↔
        ∃ e ∈ (siteUpdate env site sess).trace, Working e) ∧
      (site.stats.localIsDifferent = true ↔
        ∃ e ∈ (siteSynch senv site ssess).trace, Performs e)) ↔
    ((∃ f ∈ site.files, f.type = .dir ∧ f.diff = .changed) →
      ∃ f ∈ site.files, f.diff ≠ .unchanged ∧ ¬ (f.type = .dir ∧ f.diff = .changed)) := by
  have hsite := hreach.reachedSite
  have hsynch : (∃ e ∈ (siteSynch senv site ssess).trace, Performs e) ↔
      ∃ f ∈ site.files, f.diff ≠ .unchanged ∧ ¬ (f.type = .dir ∧ f.diff = .changed) := by
    rw [siteSynch_performs hsw]
    constructor
    · rintro ⟨f, hf, hs⟩
      exact ⟨f, hf, (synched_iff (hsite.entries f hf) (hlink f hf)).mp hs⟩
    · rintro ⟨f, hf, hs⟩
      exact ⟨f, hf, (synched_iff (hsite.entries f hf) (hlink f hf)).mpr hs⟩
  rw [and_iff_right (remote_is_different_iff hw hsite hlink sess), local_iff hsite.counted, hsynch]
  constructor
  · rintro h ⟨f, hf, ht, hd⟩
    exact h.mp ⟨f, hf, by simp [hd]⟩
  · intro h
    constructor
    · rintro ⟨f, hf, hne⟩
      by_cases hdir : f.type = .dir ∧ f.diff = .changed
      · exact h ⟨f, hf, hdir⟩
      · exact ⟨f, hf, hne, hdir⟩
    · rintro ⟨f, hf, hne, _⟩
      exact ⟨f, hf, hne⟩

/-- A driver and a file system on which everything works. -/
def workingSynchEnv : SynchEnv PUnit where
  driver _ s := (SITE_OK, s)
  local' _ s := (true, s)

theorem flags_tell_iff_sample :
    ((sampleSite.stats.remoteIsDifferent = true ↔
        ∃ e ∈ (siteUpdate (conditionalEnv SITE_OK) sampleSite PUnit.unit).trace, Working e) ∧
      (sampleSite.stats.localIsDifferent = true ↔
        ∃ e ∈ (siteSynch workingSynchEnv sampleSite PUnit.unit).trace, Performs e)) ↔
    ((∃ f ∈ sampleSite.files, f.type = .dir ∧ f.diff = .changed) →
      ∃ f ∈ sampleSite.files, f.diff ≠ .unchanged ∧ ¬ (f.type = .dir ∧ f.diff = .changed)) :=
  flags_tell_iff ⟨fun c _ => by cases c <;> rfl, fun _ _ => rfl⟩ ⟨fun _ _ => rfl, fun _ _ => rfl⟩
    (.setStored _ _ (.setLocal _ _ .empty rfl) rfl) (by decide) PUnit.unit PUnit.unit

/-- A directory whose permissions are not those recorded. -/
def changedDirectory : Site :=
  (fileSetStored .dir { filename := some (ascii "d"), existing := true, mode := 0o700 }
    (fileSetLocal .dir { filename := some (ascii "d"), existing := true, mode := 0o755 }
      { opts := { dirperms := true } }).1).1

/-- A synch does nothing about it, although the flag says that it would. -/
theorem changed_directory_not_synched :
    Reached { dirperms := true } changedDirectory ∧
      (∀ f ∈ changedDirectory.files, f.type ≠ .link) ∧
      ¬ (changedDirectory.stats.localIsDifferent = true ↔
        ∃ e ∈ (siteSynch workingSynchEnv changedDirectory PUnit.unit).trace, Performs e) := by
  have hflag : changedDirectory.stats.localIsDifferent = true := by decide
  have htrace : (siteSynch workingSynchEnv changedDirectory PUnit.unit).trace =
      [.driver none .init SITE_OK, .driver none .error SITE_OK, .driver none .finish SITE_OK] := by
    decide
  refine ⟨.setStored _ _ (.setLocal _ _ .empty rfl) rfl, by decide, fun h => ?_⟩
  have hperforms := h.mp hflag
  rw [htrace] at hperforms
  simp [Performs] at hperforms

end Sitecopy.DifferenceFlags
