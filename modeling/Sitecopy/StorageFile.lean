import Sitecopy.SiteUpdate
import Sitecopy.StateFile

/-!
# The storage file during an update

`act_on_site` opens the storage file before `site_update` and writes it afterwards. The
actions of a run are kept in order, so that a run cut short is a prefix of them.
-/
namespace Sitecopy.StorageFile
open SiteModel SiteUpdate StateFile StateProgram

/-! ### Actions and what they leave on disk -/

inductive Action
  /-- `fopen` for writing, which truncates the file -/
  | openStorage
  | driver (e : Event)
  /-- a piece of the output that leaves the buffer -/
  | flush (chunk : Text)
  | closeStorage
  deriving DecidableEq, Repr

/-- The info file after an action; `none` when there is no such file. -/
def Action.effect (disk : Option Text) : Action → Option Text
  | .openStorage => some []
  | .flush chunk => disk.map (· ++ chunk)
  | .driver _ | .closeStorage => disk

/-- The info file that is found when the process is killed after `k` actions. -/
def killedAfter (disk : Option Text) (actions : List Action) (k : ℕ) : Option Text :=
  (actions.take k).foldl Action.effect disk

/-- The file system, as the process sees it. -/
structure FileSystem where
  /-- whether `fopen` succeeds -/
  opens : Bool
  /-- how the buffered output reaches the disk -/
  chunks : Text → List Text
  flatten_chunks : ∀ t, (chunks t).flatten = t

structure Process where
  /-- whether `site->storage_file` is set -/
  storageFile : Bool := false
  actions : List Action := []

/-! ### The update of the console -/

section Console
variable {σ : Type} (fs : FileSystem) (env : Env σ)

/-- `site_open_storage_file`. -/
def siteOpenStorageFile : StateM Process Bool := do
  let p ← get
  if p.storageFile then pure true
  else if fs.opens then do
    set { storageFile := true, actions := p.actions ++ [.openStorage] : Process }
    pure true
  else pure false

/-- `site_close_storage_file`. -/
def siteCloseStorageFile : StateM Process PUnit :=
  modify fun p => { storageFile := false, actions := p.actions ++ [.closeStorage] }

/-- `site_write_stored_state`, with its file; `false` when that cannot be opened. -/
def writeStorageFile (site : Site) : StateM Process (Site × Bool) := do
  let opened ← siteOpenStorageFile fs
  if opened then do
    let r := siteWriteStoredState site
    modify fun p => { p with actions := p.actions ++ (fs.chunks r.1).map .flush }
    siteCloseStorageFile
    pure (r.2, true)
  else pure (site, false)

/-- `issue_error`. -/
def issueError (ret : ℤ) : ℤ :=
  if ret = SITE_OK then 0
  else if ret = SITE_UNSUPPORTED then 4
  else if ret = SITE_ERRORS then 1
  else if ret ∈ [SITE_LOOKUP, SITE_PROXYLOOKUP, SITE_CONNECT, SITE_AUTH, SITE_FAILED,
    SITE_PROXYAUTH] then 2
  else 5

/-- `null_driver`, at the time `now`. -/
def nullDriver (now : ℤ) : Env σ where
  exec c s := (match c with
    | .fileGetModtime _ => { code := SITE_OK, modtime := now }
    | .linkCreate _ _ | .linkChange _ _ | .linkDelete _ => { code := SITE_UNSUPPORTED }
    | _ => { code := SITE_OK }, s)
  canUpdate := env.canUpdate

/-- `site_update`, with its driver calls among the actions. -/
def updateSite (env : Env σ) (site : Site) (sess : σ) : StateM Process (Site × ℤ) := do
  let r := siteUpdate env site sess
  modify fun p => { p with actions := p.actions ++ r.trace.map .driver }
  pure (r.site, r.ret)

/-- `act_on_site` for `action_update`. -/
def actOnSite (dryRun : Bool) (now : ℤ) (site : Site) (sess : σ) : StateM Process (Site × ℤ) :=
  if !site.stats.remoteIsDifferent then pure (site, 0)
  else if dryRun then do
    let r ← updateSite (nullDriver env now) site sess
    pure (r.1, issueError r.2)
  else do
    let opened ← siteOpenStorageFile fs
    if opened then do
      let r ← updateSite env site sess
      let w ← writeStorageFile fs r.1
      pure (w.1, issueError r.2)
    else pure (site, -1)

end Console

/-! ### What a killed update leaves -/

section Killed
variable {σ : Type} {fs : FileSystem} {env : Env σ} {site : Site} {sess : σ} {now : ℤ}

/-- The actions of an update from the empty process. -/
def updateActions (fs : FileSystem) (env : Env σ) (dryRun : Bool) (now : ℤ) (site : Site) (sess : σ) :
    List Action :=
  ((actOnSite fs env dryRun now site sess).run {}).2.actions

/-- The state file that the update is to write. -/
def newStateFile (env : Env σ) (site : Site) (sess : σ) : Text :=
  (siteWriteStoredState (siteUpdate env site sess).site).1

lemma foldl_driver (disk : Option Text) (es : List Event) :
    (es.map Action.driver).foldl Action.effect disk = disk := by
  induction es with
  | nil => rfl
  | cons e es ih => exact ih

lemma foldl_flush (t : Text) (chunks : List Text) :
    (chunks.map Action.flush).foldl Action.effect (some t) = some (t ++ chunks.flatten) := by
  induction chunks generalizing t with
  | nil => simp
  | cons c chunks ih =>
    rw [List.map_cons, List.foldl_cons, Action.effect, Option.map_some, ih, List.flatten_cons,
      List.append_assoc]

lemma updateActions_opened (hdiff : site.stats.remoteIsDifferent = true) (hopen : fs.opens = true) :
    updateActions fs env false now site sess =
      [.openStorage] ++ (siteUpdate env site sess).trace.map .driver ++
        (fs.chunks (newStateFile env site sess)).map .flush ++ [.closeStorage] := by
  have hfirst : siteOpenStorageFile fs = (do
      let p ← get
      if p.storageFile then pure true
      else do
        set { storageFile := true, actions := p.actions ++ [.openStorage] : Process }
        pure true) := by
    simp [siteOpenStorageFile, hopen]
  unfold updateActions actOnSite writeStorageFile
  rw [hdiff, hfirst]
  rfl

/-- Without the storage file open there are driver calls only. -/
lemma updateActions_unopened {dryRun : Bool}
    (h : site.stats.remoteIsDifferent = false ∨ dryRun = true ∨ fs.opens = false) :
    ∃ es : List Event, updateActions fs env dryRun now site sess = es.map .driver := by
  cases hdiff : site.stats.remoteIsDifferent with
  | false =>
    refine ⟨[], ?_⟩
    unfold updateActions actOnSite
    rw [hdiff]
    rfl
  | true =>
    cases dryRun with
    | true =>
      refine ⟨(siteUpdate (nullDriver env now) site sess).trace, ?_⟩
      unfold updateActions actOnSite
      rw [hdiff]
      rfl
    | false =>
      have hopen : fs.opens = false := by simpa [hdiff] using h
      refine ⟨[], ?_⟩
      unfold updateActions actOnSite siteOpenStorageFile
      rw [hdiff, hopen]
      rfl

/-- Once the storage file is open, a killed update leaves a beginning of the new state file,
and that is empty until the driver has finished. -/
theorem killed_contents (disk : Option Text) (hdiff : site.stats.remoteIsDifferent = true)
    (hopen : fs.opens = true) (k : ℕ) :
    ∃ n, killedAfter disk (updateActions fs env false now site sess) (k + 1) =
        some ((fs.chunks (newStateFile env site sess)).take n).flatten ∧
      (k ≤ (siteUpdate env site sess).trace.length → n = 0) := by
  refine ⟨k - (siteUpdate env site sess).trace.length, ?_, fun hk => by omega⟩
  rw [killedAfter, updateActions_opened hdiff hopen, List.append_assoc, List.append_assoc,
    List.singleton_append, List.take_succ_cons, List.take_append, List.take_append, ← List.map_take,
    ← List.map_take, List.length_map, List.foldl_cons, List.foldl_append, List.foldl_append,
    foldl_driver]
  change List.foldl Action.effect (List.foldl Action.effect (some []) _) _ = _
  rw [foldl_flush, List.nil_append]
  have hclose : ∀ (t : Option Text) (j : ℕ),
      ([Action.closeStorage].take j).foldl Action.effect t = t := by
    intro t j
    cases j <;> simp [Action.effect]
  rw [hclose]

/-- The update that is not killed leaves the new state file. -/
theorem finished_contents (disk : Option Text) (hdiff : site.stats.remoteIsDifferent = true)
    (hopen : fs.opens = true) :
    (updateActions fs env false now site sess).foldl Action.effect disk =
      some (newStateFile env site sess) := by
  rw [updateActions_opened hdiff hopen, List.append_assoc, List.append_assoc, List.foldl_append,
    List.foldl_append, List.foldl_append, foldl_driver]
  change List.foldl Action.effect (List.foldl Action.effect (some []) _) _ = _
  rw [foldl_flush, List.nil_append, fs.flatten_chunks]
  rfl

lemma stateFile_ne_nil (site : Site) : (siteWriteStoredState site).1 ≠ [] := by
  unfold siteWriteStoredState
  simp [ascii]

/-- Right after the storage file is opened, the info file is no state file at all. -/
lemma killed_when_opened (disk : Option Text) (hdiff : site.stats.remoteIsDifferent = true)
    (hopen : fs.opens = true) (written : Site) :
    killedAfter disk (updateActions fs env false now site sess) 1 ≠
      some (siteWriteStoredState written).1 := by
  obtain ⟨n, hkilled, hzero⟩ := @killed_contents σ fs env site sess now disk hdiff hopen 0
  rw [hkilled, hzero (Nat.zero_le _)]
  intro heq
  exact stateFile_ne_nil written (Option.some.inj heq).symm

/-- The info file survives at every point exactly when the update never opens it. -/
theorem info_file_survives_iff (fs : FileSystem) (env : Env σ) (dryRun : Bool) (now : ℤ)
    (prev site : Site) (sess : σ) :
    (∀ k, killedAfter (some (siteWriteStoredState prev).1)
          (updateActions fs env dryRun now site sess) k = some (siteWriteStoredState prev).1 ∨
        killedAfter (some (siteWriteStoredState prev).1)
          (updateActions fs env dryRun now site sess) k = some (newStateFile env site sess)) ↔
      site.stats.remoteIsDifferent = false ∨ dryRun = true ∨ fs.opens = false := by
  constructor
  · intro h
    by_contra hopened
    simp only [not_or, Bool.not_eq_false, Bool.not_eq_true] at hopened
    obtain ⟨hdiff, rfl, hopen⟩ := hopened
    rcases h 1 with hold | hnew
    · exact killed_when_opened _ hdiff hopen prev hold
    · exact killed_when_opened _ hdiff hopen _ hnew
  · intro h k
    obtain ⟨es, hes⟩ := @updateActions_unopened σ fs env site sess now dryRun h
    refine Or.inl ?_
    rw [killedAfter, hes, ← List.map_take, foldl_driver]

end Killed

/-- Output that reaches the disk in one piece. -/
def plainFileSystem : FileSystem where
  opens := true
  chunks t := [t]
  flatten_chunks t := by simp

/-- A site whose one file has to be uploaded. -/
def newFileSite : Site :=
  (FileSet.fileSetLocal .file { filename := some (ascii "a"), existing := true } { opts := {} }).1

/-- A server that does everything. -/
def ableDriver : Env PUnit where
  exec _ s := ({ code := SITE_OK }, s)
  canUpdate _ s := (true, s)

theorem killed_update_loses_file :
    ¬ ∀ k, killedAfter (some (siteWriteStoredState { opts := {} }).1)
          (updateActions plainFileSystem ableDriver false 0 newFileSite PUnit.unit) k =
        some (siteWriteStoredState { opts := {} }).1 ∨
      killedAfter (some (siteWriteStoredState { opts := {} }).1)
          (updateActions plainFileSystem ableDriver false 0 newFileSite PUnit.unit) k =
        some (newStateFile ableDriver newFileSite PUnit.unit) := by
  intro h
  rcases h 1 with hold | hnew
  · exact killed_when_opened _ (by decide) rfl _ hold
  · exact killed_when_opened _ (by decide) rfl _ hnew

end Sitecopy.StorageFile
