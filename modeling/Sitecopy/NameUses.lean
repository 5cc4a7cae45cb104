import Sitecopy.NamedEntries

/-!
# The uses of filenames

`file_full_remote`, `file_full_local` and `file_name` may only be given states that exist.
The update and the synch are run here with a record of every state that they give to these
functions, and the listings are reduced to the states whose names they print.
-/
namespace Sitecopy.NameUses
open SiteModel StateProgram SiteUpdate UpdateAccounting LocalSynch ReachedFiles NamedEntries

/-! ### Programs with a record of uses -/

/-- The state of a program, and the states that it has given to the functions of filenames. -/
structure Tracked (ρ : Type) where
  run : ρ
  used : List FileState := []

section Tracked
variable {ρ α : Type}

/-- A step that gives no state to these functions. -/
def unused (m : StateM ρ α) : StateM (Tracked ρ) α := do
  let t ← get
  let a := m.run t.run
  set { t with run := a.2 }
  pure a.1

@[simp] lemma ends_unused (m : StateM ρ α) (t : Tracked ρ) (Q : α → Tracked ρ → Prop) :
    Ends (unused m) t Q ↔ Ends m t.run fun a r => Q a { t with run := r } := Iff.rfl

/-- A turn of a loop, after the states that it uses are recorded. -/
def tracked (uses : SiteFile → ρ → List FileState) (body : SiteFile → StateM ρ Outcome)
    (file : SiteFile) : StateM (Tracked ρ) Outcome := do
  modify fun t => { t with used := t.used ++ uses file t.run }
  unused (body file)

lemma unused_refines (m : StateM ρ α) : Refines Tracked.run (unused m) m :=
  ⟨fun _ => rfl, fun _ => rfl⟩

lemma tracked_refines (uses : SiteFile → ρ → List FileState) (body : SiteFile → StateM ρ Outcome)
    (file : SiteFile) : Refines Tracked.run (tracked uses body file) (body file) :=
  ⟨fun _ => rfl, fun _ => rfl⟩

end Tracked

/-! ### The update -/

section Update
variable {σ : Type} (env : Env σ) (o : SiteOptions)

/-- The states that one turn gives to `file_full_remote` and `file_full_local`. -/
def handlerUses (p : Handler) (file : SiteFile) (r : Run σ) : List FileState :=
  let agreed := (env.canUpdate file r.sess).1
  match p with
  | .deleteFiles =>
    if file.diff = .deleted ∧ file.type = .file ∧ agreed then [file.storedState] else []
  | .createDirectories =>
    if file.type = .dir ∧ (file.diff = .new ∨ file.diff = .changed) ∧ agreed then
      [file.localState]
    else []
  -- the remote name is made before the user is asked
  | .moveFiles =>
    if file.diff = .moved then file.localState :: if agreed then [file.storedState] else []
    else []
  -- `file_chmod` and `file_retrieve_server` are given the same local state again
  | .files =>
    if file.type = .file ∧ (file.diff = .new ∨ file.diff = .changed) then
      [file.localState, file.localState]
    else []
  -- whatever the diff is
  | .links => if file.type = .link then [file.localState] else []
  | .deleteDirectories =>
    if file.type = .dir ∧ file.diff = .deleted ∧ agreed then [file.storedState] else []

def trackedTurn (p : Handler) : SiteFile → StateM (Tracked (Run σ)) Outcome :=
  tracked (handlerUses env p) (p.turn env o)

def trackedPass (p : Handler) (files : List SiteFile) :
    StateM (Tracked (Run σ)) (List SiteFile × Bool) :=
  match p with
  | .deleteDirectories => forEachBackward (trackedTurn env o p) files
  | .deleteFiles | .createDirectories | .moveFiles | .files | .links =>
    forEach (trackedTurn env o p) files

/-- The loop over the handlers. -/
def trackedHandlers : List (Handler × Bool) → Bool → List SiteFile →
    StateM (Tracked (Run σ)) (List SiteFile × Bool)
  | [], failed, files => pure (files, failed)
  | (p, guard) :: rest, failed, files =>
    if !failed || o.keepGoing then
      if guard then do
        let r ← trackedPass env o p files
        trackedHandlers rest (failed || r.2) r.1
      else trackedHandlers rest failed files
    else pure (files, failed)

def trackedUpdate (files : List SiteFile) : StateM (Tracked (Run σ)) (List SiteFile × ℤ) := do
  let ret ← unused (protoInit env)
  if ret ≠ SITE_OK then do
    unused (protoFinish env)
    pure (files, ret)
  else do
    let r ← trackedHandlers env o (handlerTable o) false files
    unused (protoFinish env)
    pure (r.1, if r.2 then SITE_ERRORS else SITE_OK)

lemma trackedPass_refines (p : Handler) (files : List SiteFile) :
    Refines Tracked.run (trackedPass env o p files) (p.pass env o files) := by
  have hturn : ∀ f, Refines Tracked.run (trackedTurn env o p f) (p.turn env o f) :=
    tracked_refines (handlerUses env p) (p.turn env o)
  cases p with
  | deleteFiles | createDirectories | moveFiles | files | links => exact Refines.forEach hturn files
  | deleteDirectories => exact Refines.forEachBackward hturn files

lemma trackedHandlers_refines (table : List (Handler × Bool)) (failed : Bool)
    (files : List SiteFile) :
    Refines Tracked.run (trackedHandlers env o table failed files)
      (runHandlers o (table.map fun e => (e.1.pass env o, e.2)) failed files) := by
  induction table generalizing failed files with
  | nil => exact Refines.pure _
  | cons entry table ih =>
    apply Refines.ite
    · apply Refines.ite
      · exact (trackedPass_refines env o entry.1 files).bind fun r => ih _ _
      · exact ih _ _
    · exact Refines.pure _

/-- Without the record this is the update. -/
theorem trackedUpdate_refines (files : List SiteFile) :
    Refines Tracked.run (trackedUpdate env o files) (updateSiteFiles env o files) := by
  apply (unused_refines (protoInit env)).bind
  intro ret
  apply Refines.ite
  · exact (unused_refines (protoFinish env)).bind fun _ => Refines.pure _
  · apply (trackedHandlers_refines env o (handlerTable o) false files).bind
    exact fun r => (unused_refines (protoFinish env)).bind fun _ => Refines.pure _

/-- The states that `site_update` uses. -/
def updateUses (site : Site) (sess : σ) : List FileState :=
  ((trackedUpdate env site.opts site.files).run
    { run := { stats := site.stats, sess := sess } }).2.used

end Update

/-! ### The synch -/

section Synch
variable {σ : Type} (env : SynchEnv σ) (o : SiteOptions)

/-- The states that one turn gives to `file_full_local` and `file_full_remote`. -/
def synchUses (p : SynchPhase) (file : SiteFile) : List FileState :=
  match p with
  | .createDirectories =>
    if file.type = .dir ∧ file.diff = .deleted then [file.storedState] else []
  | .files =>
    if file.type = .file then
      match file.diff with
      | .changed =>
        if !fileContentsChanged o file then [file.storedState]
        else [file.storedState, file.storedState]
      | .deleted => [file.storedState, file.storedState]
      | .new => [file.localState]
      | .moved => [file.storedState, file.localState]
      | .unchanged => []
    else []
  | .deleteDirectories =>
    if file.type = .dir ∧ file.diff = .new then [file.localState] else []

def trackedSynchTurn (p : SynchPhase) : SiteFile → StateM (Tracked (SynchRun σ)) Outcome :=
  tracked (fun file _ => synchUses o p file) (synchTurn env o p)

/-- The three passes. -/
def trackedSynchPasses (files : List SiteFile) :
    StateM (Tracked (SynchRun σ)) (List SiteFile × Bool) := do
  let r ← forEach (trackedSynchTurn env o .createDirectories) files
  if !r.2 || o.keepGoing then do
    let r ← forEach (trackedSynchTurn env o .files) r.1
    if !r.2 || o.keepGoing then forEachBackward (trackedSynchTurn env o .deleteDirectories) r.1
    else pure r
  else pure r

def trackedSynch (needConn : Bool) (files : List SiteFile) :
    StateM (Tracked (SynchRun σ)) (List SiteFile × ℤ) :=
  if needConn then do
    let ret ← unused (driverCall env none .init)
    if ret ≠ SITE_OK then do
      let _ ← unused (driverCall env none .error)
      unused (synchFinish env)
      pure (files, ret)
    else do
      let r ← trackedSynchPasses env o files
      unused (synchFinish env)
      pure (r.1, exitCode r.2)
  else do
    let r ← trackedSynchPasses env o files
    pure (r.1, exitCode r.2)

lemma trackedSynchPasses_refines (files : List SiteFile) :
    Refines Tracked.run (trackedSynchPasses env o files) (synchPasses env o files) := by
  have hturn : ∀ p f, Refines Tracked.run (trackedSynchTurn env o p f) (synchTurn env o p f) :=
    fun p => tracked_refines (fun file _ => synchUses o p file) (synchTurn env o p)
  apply (Refines.forEach (hturn .createDirectories) files).bind
  intro r
  apply Refines.ite
  · apply (Refines.forEach (hturn .files) r.1).bind
    intro r
    apply Refines.ite
    · exact Refines.forEachBackward (hturn .deleteDirectories) r.1
    · exact Refines.pure _
  · exact Refines.pure _

/-- Without the record this is the synch. -/
theorem trackedSynch_refines (needConn : Bool) (files : List SiteFile) :
    Refines Tracked.run (trackedSynch env o needConn files) (synchSiteFiles env o needConn files) := by
  apply Refines.ite
  · apply (unused_refines (driverCall env none .init)).bind
    intro ret
    apply Refines.ite
    · apply (unused_refines (driverCall env none .error)).bind
      exact fun _ => (unused_refines (synchFinish env)).bind fun _ => Refines.pure _
    · apply (trackedSynchPasses_refines env o files).bind
      exact fun r => (unused_refines (synchFinish env)).bind fun _ => Refines.pure _
  · exact (trackedSynchPasses_refines env o files).bind fun r => Refines.pure _

/-- The states that `site_synch` uses. -/
def siteSynchUses (site : Site) (sess : σ) : List FileState :=
  ((trackedSynch env site.opts (needConn site.stats) site.files).run
    { run := { stats := site.stats, sess := sess } }).2.used

end Synch

/-! ### The listings -/

/-- The state whose name is the `file_name` of the file. -/
def fileNameState (file : SiteFile) : FileState :=
  if file.diff = .deleted then file.storedState else file.localState

/-- `file_name`; empty where the state has no name. -/
def fileName (file : SiteFile) : Text := (fileNameState file).filename.getD []

/-- The states used for the files with one diff. -/
def usesOf (site : Site) (diff : FileDiff) (uses : SiteFile → List FileState) : List FileState :=
  (site.files.filter fun file => file.diff = diff).flatMap uses

/-- The states of `site_flatlist_items`; of a moved file the stored name is printed too. -/
def flatlistItemUses (file : SiteFile) : List FileState :=
  fileNameState file :: if file.diff = .moved then [file.storedState] else []

/-- The states that `site_flatlist` uses. -/
def flatlistUses (site : Site) : List FileState :=
  (if site.stats.numnew > 0 then usesOf site .new flatlistItemUses else []) ++
  (if site.stats.numchanged > 0 then usesOf site .changed flatlistItemUses else []) ++
  (if site.stats.numdeleted > 0 then usesOf site .deleted flatlistItemUses else []) ++
  (if site.stats.nummoved > 0 then usesOf site .moved flatlistItemUses else [])

/-- The states that `list_site_changes` uses. -/
def changesUses (site : Site) : List FileState :=
  (if site.stats.numnew > 0 then usesOf site .new fun file => [fileNameState file] else []) ++
  (if site.stats.numchanged > 0 ∨ site.stats.numignored > 0 then
    usesOf site .changed fun file => [fileNameState file]
  else []) ++
  (if site.stats.numdeleted > 0 then usesOf site .deleted fun file => [fileNameState file]
  else []) ++
  (if site.stats.nummoved > 0 then
    usesOf site .moved fun file => [file.storedState, file.localState]
  else [])

/-! ### States that may be used -/

/-- The state exists and has a filename. -/
def Usable (s : FileState) : Prop := s.existing = true ∧ s.filename.isSome = true

section Usable
variable {σ : Type} {env : Env σ} {o : SiteOptions} {f : SiteFile} {r : Run σ}

lemma usable_local (h : NameOk f) (hd : f.diff ≠ .deleted) : Usable f.localState :=
  ⟨h.localExisting hd, h.localNamed (h.localExisting hd)⟩

lemma usable_stored (h : NameOk f) (hd : f.diff = .deleted ∨ f.diff = .moved ∨ f.diff = .changed) :
    Usable f.storedState := by
  have hs : f.storedState.existing = true := by
    rcases hd with hd | hd
    · exact h.storedExisting hd
    · exact h.paired hd
  exact ⟨hs, h.storedNamed hs⟩

/-- A deleted entry has no local state to use. -/
lemma not_usable_local (h : NameOk f) (hd : f.diff = .deleted) : ¬ Usable f.localState := by
  intro hu
  rw [Usable, h.deleted_iff.mp hd] at hu
  exact Bool.noConfusion hu.1

/-- The entry can be visited by all passes, the one over the links included if it runs. -/
structure Safe (o : SiteOptions) (f : SiteFile) : Prop where
  ok : NameOk f
  link : o.symlinks = .maintain → f.type = .link → f.diff ≠ .deleted

lemma handlerUses_usable (p : Handler) (h : NameOk f)
    (hlink : p = .links → f.type = .link → f.diff ≠ .deleted) :
    ∀ s ∈ handlerUses env p f r, Usable s := by
  intro s hs
  cases p with
  | deleteFiles =>
    simp only [handlerUses] at hs
    split_ifs at hs with hd
    · rw [List.mem_singleton.mp hs]
      exact usable_stored h (Or.inl hd.1)
    · cases hs
  | createDirectories =>
    simp only [handlerUses] at hs
    split_ifs at hs with hd
    · rw [List.mem_singleton.mp hs]
      exact usable_local h (by rcases hd.2.1 with hd | hd <;> simp [hd])
    · cases hs
  | moveFiles =>
    simp only [handlerUses] at hs
    split_ifs at hs with hd hagreed
    · simp only [List.mem_cons, List.not_mem_nil, or_false] at hs
      rcases hs with rfl | rfl
      · exact usable_local h (by simp [hd])
      · exact usable_stored h (Or.inr (Or.inl hd))
    · rw [List.mem_singleton.mp hs]
      exact usable_local h (by simp [hd])
    · cases hs
  | files =>
    simp only [handlerUses] at hs
    split_ifs at hs with hd
    · simp only [List.mem_cons, List.not_mem_nil, or_false, or_self] at hs
      rw [hs]
      exact usable_local h (by rcases hd.2 with hd | hd <;> simp [hd])
    · cases hs
  | links =>
    simp only [handlerUses] at hs
    split_ifs at hs with ht
    · rw [List.mem_singleton.mp hs]
      exact usable_local h (hlink rfl ht)
    · cases hs
  | deleteDirectories =>
    simp only [handlerUses] at hs
    split_ifs at hs with hd
    · rw [List.mem_singleton.mp hs]
      exact usable_stored h (Or.inl hd.2.1)
    · cases hs

lemma synchUses_usable (p : SynchPhase) (h : NameOk f) : ∀ s ∈ synchUses o p f, Usable s := by
  intro s hs
  cases p with
  | createDirectories =>
    simp only [synchUses] at hs
    split_ifs at hs with hd
    · rw [List.mem_singleton.mp hs]
      exact usable_stored h (Or.inl hd.2)
    · cases hs
  | files =>
    by_cases ht : f.type = .file
    · cases hd : f.diff with
      | unchanged => simp [synchUses, ht, hd] at hs
      | new =>
        simp only [synchUses, ht, hd, if_true, List.mem_singleton] at hs
        rw [hs]
        exact usable_local h (by simp [hd])
      | deleted =>
        simp only [synchUses, ht, hd, if_true, List.mem_cons, List.not_mem_nil, or_false,
          or_self] at hs
        rw [hs]
        exact usable_stored h (Or.inl hd)
      | moved =>
        simp only [synchUses, ht, hd, if_true, List.mem_cons, List.not_mem_nil, or_false] at hs
        rcases hs with rfl | rfl
        · exact usable_stored h (Or.inr (Or.inl hd))
        · exact usable_local h (by simp [hd])
      | changed =>
        have hstored : s = f.storedState := by
          simp only [synchUses, ht, hd, if_true] at hs
          split_ifs at hs <;> simpa using hs
        rw [hstored]
        exact usable_stored h (Or.inr (Or.inr hd))
    · simp [synchUses, ht] at hs
  | deleteDirectories =>
    simp only [synchUses] at hs
    split_ifs at hs with hd
    · rw [List.mem_singleton.mp hs]
      exact usable_local h (by simp [hd.2])
    · cases hs

end Usable

/-! ### Runs -/

section Loops
variable {ρ : Type} {uses : SiteFile → ρ → List FileState} {body : SiteFile → StateM ρ Outcome}
  {P : SiteFile → Prop} {files : List SiteFile} {t : Tracked ρ}

/-- A loop over entries whose turns only use states that may be used. -/
lemma tracked_forEach (hbody : ∀ f r, P f → Ends (body f) r fun out _ => ∀ g, out.1 = some g → P g)
    (huses : ∀ f r, P f → ∀ s ∈ uses f r, Usable s) (h : ∀ f ∈ files, P f)
    (ht : ∀ s ∈ t.used, Usable s) :
    Ends (forEach (tracked uses body) files) t fun out t' =>
      (∀ f ∈ out.1, P f) ∧ ∀ s ∈ t'.used, Usable s := by
  apply (forEach_ends (I := fun done rest _ (t : Tracked ρ) =>
    (∀ f ∈ done ++ rest, P f) ∧ ∀ s ∈ t.used, Usable s) _ ⟨h, ht⟩).mono
  · intro out t' hr
    simpa using hr
  · rintro done f rest failed t ⟨hI, ht⟩
    have hf := hI f (by simp)
    have hbody := hbody f t.run hf
    have huses := huses f t.run hf
    refine ⟨?_, ?_⟩
    · intro g hg
      simp only [List.mem_append, Option.mem_toList] at hg
      rcases hg with (hg | hg) | hg
      · exact hI g (by simp [hg])
      · exact hbody g hg
      · exact hI g (by simp [hg])
    · intro s hs
      rcases List.mem_append.mp hs with hs | hs
      · exact ht s hs
      · exact huses s hs

lemma tracked_forEachBackward
    (hbody : ∀ f r, P f → Ends (body f) r fun out _ => ∀ g, out.1 = some g → P g)
    (huses : ∀ f r, P f → ∀ s ∈ uses f r, Usable s) (h : ∀ f ∈ files, P f)
    (ht : ∀ s ∈ t.used, Usable s) :
    Ends (forEachBackward (tracked uses body) files) t fun out t' =>
      (∀ f ∈ out.1, P f) ∧ ∀ s ∈ t'.used, Usable s := by
  have hrev : ∀ f ∈ files.reverse, P f := fun f hf => h f (List.mem_reverse.mp hf)
  rw [forEachBackward, ends_bind]
  apply (tracked_forEach hbody huses hrev ht).mono
  rintro out t' ⟨hout, hused⟩
  exact ⟨fun f hf => hout f (List.mem_reverse.mp hf), hused⟩

/-- What was used stays recorded, and so are the uses of each entry. -/
lemma tracked_records (uses : SiteFile → ρ → List FileState) (body : SiteFile → StateM ρ Outcome)
    (files : List SiteFile) (t : Tracked ρ) :
    Ends (forEach (tracked uses body) files) t fun _ t' =>
      t.used ⊆ t'.used ∧ ∀ f ∈ files, ∃ r, uses f r ⊆ t'.used := by
  apply (forEach_visits Tracked.used (T := fun f seg _ => ∃ r, seg = uses f r) files
    (fun f _ t => ⟨uses f t.run, rfl, t.run, rfl⟩) t).mono
  rintro out t' ⟨vs, rfl, -, hused, hT⟩
  rw [hused]
  refine ⟨List.subset_append_left _ _, fun f hf => ?_⟩
  obtain ⟨v, hv, rfl⟩ := List.mem_map.mp hf
  obtain ⟨r, hr⟩ := hT v hv
  refine ⟨r, fun s hs => List.mem_append_right _ (Visit.mem_logged.mpr ⟨v, hv, ?_⟩)⟩
  rwa [hr]

end Loops

section Update
variable {σ : Type} {env : Env σ} {o : SiteOptions} {files : List SiteFile} {t : Tracked (Run σ)}

lemma turn_safe {f : SiteFile} {r : Run σ} (p : Handler) (h : Safe o f) :
    Ends (p.turn env o f) r fun out _ => ∀ g, out.1 = some g → Safe o g := by
  apply (turn_keeps p h.ok).mono
  intro out _ hout g hg
  have hfollows := hout g hg
  exact ⟨hfollows.ok, fun hm ht hd =>
    h.link hm (hfollows.type_eq.symm.trans ht) (hfollows.deleted hd)⟩

lemma trackedPass_safe (p : Handler) (hp : p = .links → o.symlinks = .maintain)
    (h : ∀ f ∈ files, Safe o f) (ht : ∀ s ∈ t.used, Usable s) :
    Ends (trackedPass env o p files) t fun out t' =>
      (∀ f ∈ out.1, Safe o f) ∧ ∀ s ∈ t'.used, Usable s := by
  have hbody : ∀ f r, Safe o f → Ends (p.turn env o f) r fun out _ => ∀ g, out.1 = some g → Safe o g :=
    fun f r hf => turn_safe p hf
  have huses : ∀ f r, Safe o f → ∀ s ∈ handlerUses env p f r, Usable s :=
    fun f r hf => handlerUses_usable p hf.ok fun hl => hf.link (hp hl)
  cases p with
  | deleteFiles | createDirectories | moveFiles | files | links =>
    exact tracked_forEach hbody huses h ht
  | deleteDirectories => exact tracked_forEachBackward hbody huses h ht

lemma trackedHandlers_safe (table : List (Handler × Bool))
    (htable : ∀ e ∈ table, e.1 = .links → e.2 = true → o.symlinks = .maintain) {failed : Bool}
    (h : ∀ f ∈ files, Safe o f) (ht : ∀ s ∈ t.used, Usable s) :
    Ends (trackedHandlers env o table failed files) t fun _ t' => ∀ s ∈ t'.used, Usable s := by
  induction table generalizing failed files t with
  | nil => exact ht
  | cons entry table ih =>
    obtain ⟨p, guard⟩ := entry
    have hrest : ∀ e ∈ table, e.1 = .links → e.2 = true → o.symlinks = .maintain :=
      fun e he => htable e (List.mem_cons_of_mem _ he)
    rw [trackedHandlers]
    split_ifs with hgo hguard
    · rw [ends_bind]
      have hp : p = .links → o.symlinks = .maintain :=
        fun hl => htable (p, guard) List.mem_cons_self hl hguard
      exact (trackedPass_safe p hp h ht).mono fun out t' hout => ih hrest hout.1 hout.2
    · exact ih hrest h ht
    · exact ht

lemma updateUses_usable {site : Site} (h : ∀ f ∈ site.files, Safe site.opts f) (env : Env σ)
    (sess : σ) : ∀ s ∈ updateUses env site sess, Usable s := by
  have htable : ∀ e ∈ handlerTable site.opts, e.1 = .links → e.2 = true →
      site.opts.symlinks = .maintain := by
    simp [handlerTable]
  have hrun : Ends (trackedUpdate env site.opts site.files)
      { run := { stats := site.stats, sess := sess } } fun _ t' => ∀ s ∈ t'.used, Usable s := by
    unfold trackedUpdate
    rw [ends_bind, ends_unused]
    apply Ends.of_forall
    intro ret r
    rw [ends_ite]
    split_ifs
    · rw [ends_bind, ends_unused]
      exact Ends.of_forall fun _ _ s hs => by cases hs
    · rw [ends_bind]
      apply (trackedHandlers_safe (handlerTable site.opts) htable h (by simp)).mono
      intro out t' hused
      rw [ends_bind, ends_unused]
      exact Ends.of_forall fun _ _ => hused
  exact hrun

/-! ### A deleted link -/

lemma trackedPass_records (p : Handler) (files : List SiteFile) (t : Tracked (Run σ)) :
    Ends (trackedPass env o p files) t fun _ t' =>
      t.used ⊆ t'.used ∧ ∀ f ∈ files, ∃ r, handlerUses env p f r ⊆ t'.used := by
  cases p with
  | deleteFiles | createDirectories | moveFiles | files | links => exact tracked_records _ _ files t
  | deleteDirectories =>
    rw [trackedPass, forEachBackward, ends_bind]
    apply (tracked_records _ _ files.reverse t).mono
    rintro out t' ⟨hused, hvisited⟩
    exact ⟨hused, fun f hf => hvisited f (List.mem_reverse.mpr hf)⟩

lemma trackedHandlers_mono (table : List (Handler × Bool)) (failed : Bool) (files : List SiteFile)
    (t : Tracked (Run σ)) :
    Ends (trackedHandlers env o table failed files) t fun _ t' => t.used ⊆ t'.used := by
  induction table generalizing failed files t with
  | nil => exact List.Subset.refl _
  | cons entry table ih =>
    rw [trackedHandlers]
    split_ifs
    · rw [ends_bind]
      apply (trackedPass_records entry.1 files t).mono
      intro out t' hout
      exact (ih _ _ t').mono fun _ _ h s hs => h (hout.1 hs)
    · exact ih _ _ t
    · exact List.Subset.refl _

/-- A server that does everything and a user who agrees to nothing. -/
def refusingEnv : Env PUnit where
  exec _ s := ({ code := SITE_OK }, s)
  canUpdate _ s := (false, s)

/-- The passes before the one over the links. -/
def Earlier (p : Handler) : Prop := p ≠ .links ∧ p ≠ .deleteDirectories

lemma refused_newFile (f : SiteFile) (r : Run PUnit) :
    Ends (updateNewFile refusingEnv o f) r fun out _ => out.2 = false := by
  simp only [updateNewFile, ends_bind, ends_feCanUpdate]
  rw [if_neg (by simp [refusingEnv]), ends_pure]

lemma refused_chmod (f : SiteFile) (r : Run PUnit) :
    Ends (fileChmod refusingEnv o f) r fun out _ => out.2 = false := by
  simp only [fileChmod, ends_ite, ends_bind, ends_pure, ends_call, ends_driverErr, ends_setDiff]
  split_ifs with hperms hcode
  exact absurd rfl hcode

lemma refused_turn {p : Handler} (hp : Earlier p) (f : SiteFile) (r : Run PUnit) :
    Ends (p.turn refusingEnv o f) r fun out _ => out.2 = false := by
  obtain ⟨hlinks, hdirs⟩ := hp
  cases p with
  | deleteFiles =>
    simp only [Handler.turn, updateDeleteFile, ends_ite, ends_bind, ends_pure, ends_feCanUpdate]
    split_ifs
    simp_all [refusingEnv]
  | createDirectories =>
    simp only [Handler.turn, updateCreateDirectory, ends_ite, ends_bind, ends_pure, ends_feCanUpdate]
    split_ifs <;> simp_all [refusingEnv]
  | moveFiles =>
    simp only [Handler.turn, updateMoveFile, ends_ite, ends_bind, ends_pure, ends_feCanUpdate]
    split_ifs
    simp_all [refusingEnv]
  | files =>
    change Ends (updateFile refusingEnv o f) r _
    unfold updateFile
    by_cases ht : f.type ≠ .file
    · rw [if_pos ht]
      rfl
    · rw [if_neg ht]
      cases f.diff with
      | deleted | moved | unchanged => rfl
      | new => exact refused_newFile f r
      | changed =>
        simp only [ends_ite, ends_bind, ends_pure]
        split_ifs
        · exact refused_chmod f r
        · exact refused_newFile f r
  | links => exact absurd rfl hlinks
  | deleteDirectories => exact absurd rfl hdirs

lemma refused_pass {p : Handler} (hp : Earlier p) {f : SiteFile}
    (hf : activeHandler f = some .links) {files : List SiteFile} (hmem : f ∈ files)
    (t : Tracked (Run PUnit)) :
    Ends (trackedPass refusingEnv o p files) t fun out _ => out.2 = false ∧ f ∈ out.1 := by
  have hforward : Ends (forEach (p.turn refusingEnv o) files) t.run fun out _ =>
      out.2 = false ∧ f ∈ out.1 := by
    apply (forEach_ends (I := fun done rest failed _ => failed = false ∧ f ∈ done ++ rest) _
      ⟨rfl, hmem⟩).mono
    · intro out r hr
      simpa using hr
    · rintro done g rest failed r ⟨rfl, hI⟩
      have hok := refused_turn (o := o) hp g r
      by_cases hg : g = f
      · rw [hg, turn_idle (by rw [hf]; simpa using hp.1.symm)]
        change false = false ∧ f ∈ done ++ [f] ++ rest
        simp
      · apply hok.mono
        rintro out r' hout
        refine ⟨hout, ?_⟩
        simp only [List.mem_append, List.mem_cons] at hI ⊢
        rcases hI with hI | hI | hI
        · exact Or.inl (Or.inl hI)
        · exact absurd hI.symm hg
        · exact Or.inr hI
  have hresult := (trackedPass_refines refusingEnv o p files).result t
  rw [Ends, hresult]
  obtain ⟨hlinks, hdirs⟩ := hp
  cases p with
  | deleteFiles | createDirectories | moveFiles | files => exact hforward
  | links => exact absurd rfl hlinks
  | deleteDirectories => exact absurd rfl hdirs

/-- The pass over the links uses the local state of a deleted link. -/
lemma link_used {f : SiteFile} (hf : activeHandler f = some .links) (ht : f.type = .link)
    (pre post : List (Handler × Bool)) (hpre : ∀ e ∈ pre, Earlier e.1) {files : List SiteFile}
    (hmem : f ∈ files) (t : Tracked (Run PUnit)) :
    Ends (trackedHandlers refusingEnv o (pre ++ (.links, true) :: post) false files) t
      fun _ t' => f.localState ∈ t'.used := by
  induction pre generalizing files t with
  | nil =>
    rw [List.nil_append, trackedHandlers, if_pos (by simp), if_pos rfl, ends_bind]
    apply (trackedPass_records .links files t).mono
    intro out t' hout
    apply (trackedHandlers_mono post _ _ t').mono
    intro _ _ hused
    obtain ⟨r, hr⟩ := hout.2 f hmem
    apply hused
    apply hr
    simp [handlerUses, ht]
  | cons entry pre ih =>
    obtain ⟨p, guard⟩ := entry
    have hrest : ∀ e ∈ pre, Earlier e.1 := fun e he => hpre e (List.mem_cons_of_mem _ he)
    rw [List.cons_append, trackedHandlers, if_pos (by simp)]
    split_ifs
    · rw [ends_bind]
      apply (refused_pass (hpre (p, guard) List.mem_cons_self) hf hmem t).mono
      rintro out t' ⟨hout, hmem'⟩
      rw [hout]
      exact ih hrest hmem' t'
    · exact ih hrest hmem t

lemma link_used_update {site : Site} (hm : site.opts.symlinks = .maintain) {f : SiteFile}
    (hactive : activeHandler f = some .links) (ht : f.type = .link) (hf : f ∈ site.files) :
    f.localState ∈ updateUses refusingEnv site PUnit.unit := by
  have htable : handlerTable site.opts =
      [(.deleteFiles, !site.opts.nodelete), (.createDirectories, true),
        (.moveFiles, site.opts.checkmoved), (.files, true)] ++
        (.links, true) :: [(.deleteDirectories, !site.opts.nodelete)] := by
    simp [handlerTable, hm]
  have hrun : Ends (trackedUpdate refusingEnv site.opts site.files)
      { run := { stats := site.stats, sess := PUnit.unit } } fun _ t' => f.localState ∈ t'.used := by
    unfold trackedUpdate protoInit
    simp only [ends_bind, ends_unused, ends_call]
    rw [ends_ite, if_neg (by simp [refusingEnv]), ends_pure, ends_ite,
      if_neg (by simp [refusingEnv]), ends_bind, htable]
    apply (link_used hactive ht _ _ (by simp [Earlier]) hf _).mono
    intro out t' hused
    rw [ends_bind, ends_unused]
    exact Ends.of_forall fun _ _ => hused
  exact hrun

end Update

/-! ### All operations -/

/-- Every state that these operations use exists and has a filename. -/
structure NamesDefined (site : Site) : Prop where
  update : ∀ (σ : Type) (env : Env σ) (sess : σ), ∀ s ∈ updateUses env site sess, Usable s
  synch : ∀ (σ : Type) (env : SynchEnv σ) (sess : σ), ∀ s ∈ siteSynchUses env site sess, Usable s
  flatlist : ∀ s ∈ flatlistUses site, Usable s
  changes : ∀ s ∈ changesUses site, Usable s

lemma synchTurn_ok {σ : Type} {env : SynchEnv σ} {o : SiteOptions} {f : SiteFile} {r : SynchRun σ}
    (p : SynchPhase) (h : NameOk f) :
    Ends (synchTurn env o p f) r fun out _ => ∀ g, out.1 = some g → NameOk g :=
  (synchTurn_named p h).mono fun _ _ hout g hg => (hout g hg).1

lemma trackedSynchPasses_usable {σ : Type} {env : SynchEnv σ} {o : SiteOptions}
    {files : List SiteFile} {t : Tracked (SynchRun σ)} (h : ∀ f ∈ files, NameOk f)
    (ht : ∀ s ∈ t.used, Usable s) :
    Ends (trackedSynchPasses env o files) t fun _ t' => ∀ s ∈ t'.used, Usable s := by
  have hbody : ∀ p f (r : SynchRun σ), NameOk f →
      Ends (synchTurn env o p f) r fun out _ => ∀ g, out.1 = some g → NameOk g :=
    fun p f r hf => synchTurn_ok p hf
  have huses : ∀ p f (r : SynchRun σ), NameOk f → ∀ s ∈ synchUses o p f, Usable s :=
    fun p f r hf => synchUses_usable p hf
  unfold trackedSynchPasses
  rw [ends_bind]
  apply (tracked_forEach (hbody .createDirectories) (huses .createDirectories) h ht).mono
  rintro out t₁ ⟨hfiles₁, hused₁⟩
  rw [ends_ite]
  split_ifs
  · rw [ends_bind]
    apply (tracked_forEach (hbody .files) (huses .files) hfiles₁ hused₁).mono
    rintro out t₂ ⟨hfiles₂, hused₂⟩
    rw [ends_ite]
    split_ifs
    · apply (tracked_forEachBackward (hbody .deleteDirectories) (huses .deleteDirectories) hfiles₂
        hused₂).mono
      exact fun _ _ hout => hout.2
    · exact hused₂
  · exact hused₁

lemma siteSynchUses_usable {σ : Type} {site : Site} (h : ∀ f ∈ site.files, NameOk f)
    (env : SynchEnv σ) (sess : σ) : ∀ s ∈ siteSynchUses env site sess, Usable s := by
  have hrun : Ends (trackedSynch env site.opts (needConn site.stats) site.files)
      { run := { stats := site.stats, sess := sess } } fun _ t' => ∀ s ∈ t'.used, Usable s := by
    unfold trackedSynch
    rw [ends_ite]
    split_ifs
    · rw [ends_bind, ends_unused]
      apply Ends.of_forall
      intro ret r
      rw [ends_ite]
      split_ifs
      · rw [ends_bind, ends_unused]
        apply Ends.of_forall
        intro _ r
        rw [ends_bind, ends_unused]
        exact Ends.of_forall fun _ _ s hs => by cases hs
      · rw [ends_bind]
        apply (trackedSynchPasses_usable h (by simp)).mono
        intro out t' hused
        rw [ends_bind, ends_unused]
        exact Ends.of_forall fun _ _ => hused
    · rw [ends_bind]
      exact (trackedSynchPasses_usable h (by simp)).mono fun _ _ hused => hused
  exact hrun

lemma usesOf_usable {site : Site} (h : ∀ f ∈ site.files, NameOk f) {diff : FileDiff}
    {uses : SiteFile → List FileState}
    (huses : ∀ f, NameOk f → f.diff = diff → ∀ s ∈ uses f, Usable s) :
    ∀ s ∈ usesOf site diff uses, Usable s := by
  intro s hs
  obtain ⟨f, hf, hs⟩ := List.mem_flatMap.mp hs
  obtain ⟨hmem, hd⟩ := List.mem_filter.mp hf
  exact huses f (h f hmem) (by simpa using hd) s hs

/-- `file_name` is made of a state that may be used, whatever the diff. -/
lemma fileNameState_usable {f : SiteFile} (h : NameOk f) : Usable (fileNameState f) := by
  unfold fileNameState
  split_ifs with hd
  · exact usable_stored h (Or.inl hd)
  · exact usable_local h hd

lemma flatlistItemUses_usable {f : SiteFile} (h : NameOk f) :
    ∀ s ∈ flatlistItemUses f, Usable s := by
  unfold flatlistItemUses
  split_ifs with hd
  · simp [fileNameState_usable h, usable_stored h (Or.inr (Or.inl hd))]
  · simp [fileNameState_usable h]

lemma flatlistUses_usable {site : Site} (h : ∀ f ∈ site.files, NameOk f) :
    ∀ s ∈ flatlistUses site, Usable s := by
  have hitems : ∀ diff, ∀ s ∈ usesOf site diff flatlistItemUses, Usable s :=
    fun diff => usesOf_usable h fun f hf _ => flatlistItemUses_usable hf
  intro s hs
  simp only [flatlistUses, List.mem_append] at hs
  rcases hs with ((hs | hs) | hs) | hs
  all_goals
    split_ifs at hs
    · exact hitems _ s hs
    · simp at hs

lemma changesUses_usable {site : Site} (h : ∀ f ∈ site.files, NameOk f) :
    ∀ s ∈ changesUses site, Usable s := by
  have hnames : ∀ diff, ∀ s ∈ usesOf site diff (fun file => [fileNameState file]), Usable s :=
    fun diff => usesOf_usable h fun f hf _ => by simp [fileNameState_usable hf]
  have hmoved : ∀ s ∈ usesOf site .moved (fun file => [file.storedState, file.localState]),
      Usable s :=
    usesOf_usable h fun f hf hd => by
      simp [usable_stored hf (Or.inr (Or.inl hd)), usable_local hf (by simp [hd])]
  intro s hs
  simp only [changesUses, List.mem_append] at hs
  rcases hs with ((hs | hs) | hs) | hs
  all_goals
    split_ifs at hs
    · first
        | exact hnames _ s hs
        | exact hmoved s hs
    · simp at hs

/-- The names are defined exactly when the links are not maintained or none of them is deleted. -/
theorem names_defined_iff {o : SiteOptions} {site : Site} (h : Listed o site) :
    NamesDefined site ↔
      (site.opts.symlinks = .maintain → ∀ f ∈ site.files, f.type = .link → f.diff ≠ .deleted) := by
  have hnamed := h.named
  constructor
  · intro hdefined hm f hf ht hd
    have hactive : activeHandler f = some .links := by simp [activeHandler, hd, ht]
    have hused := link_used_update hm hactive ht hf
    exact not_usable_local (hnamed.entries f hf) hd (hdefined.update PUnit refusingEnv _ _ hused)
  · intro hlink
    have hsafe : ∀ f ∈ site.files, Safe site.opts f :=
      fun f hf => ⟨hnamed.entries f hf, fun hm => hlink hm f hf⟩
    exact {
      update := fun σ env sess => updateUses_usable hsafe env sess
      synch := fun σ env sess => siteSynchUses_usable hnamed.entries env sess
      flatlist := flatlistUses_usable hnamed.entries
      changes := changesUses_usable hnamed.entries }

/-- A site that has lost a link which was copied to the server. -/
def deletedLinkSite : Site :=
  (FileSet.fileSetStored .link { filename := some (ascii "l"), existing := true }
    { opts := { symlinks := .maintain } }).1

lemma deletedLinkSite_listed : Listed { symlinks := .maintain } deletedLinkSite :=
  .setStored _ _ .empty rfl fun _ => rfl

theorem names_defined_iff_deleted_link :
    NamesDefined deletedLinkSite ↔ (deletedLinkSite.opts.symlinks = .maintain →
      ∀ f ∈ deletedLinkSite.files, f.type = .link → f.diff ≠ .deleted) :=
  names_defined_iff deletedLinkSite_listed

theorem deleted_link_name_used :
    Listed { symlinks := .maintain } deletedLinkSite ∧
      ({} : FileState) ∈ updateUses refusingEnv deletedLinkSite PUnit.unit ∧
      ¬ Usable {} ∧ ¬ NamesDefined deletedLinkSite := by
  have hused : ({} : FileState) ∈ updateUses refusingEnv deletedLinkSite PUnit.unit := by
    decide +kernel
  have hno : ¬ Usable {} := by simp [Usable]
  exact ⟨deletedLinkSite_listed, hused, hno, fun h => hno (h.update _ _ _ _ hused)⟩

end Sitecopy.NameUses
