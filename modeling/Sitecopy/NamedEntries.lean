import Sitecopy.ReachedFiles
import Sitecopy.UpdateAccounting

/-!
# Which states an entry has

The diff of an entry tells which of its states exist, in every list that the operations
reach. The pass over the links, which sets a diff without comparing the states, is among
these operations.
-/
namespace Sitecopy.NamedEntries
open SiteModel FileSet FileSetSpec StateProgram SiteOperations SiteStats SiteUpdate UpdateAccounting
open LocalSynch ReachedFiles

/-! ### Entries -/

/-- A state that exists has a filename. -/
def Named (s : FileState) : Prop := s.existing = true → s.filename.isSome = true

/-- The states that exist are named, and the diff tells which these are. -/
structure NameOk (f : SiteFile) : Prop where
  localNamed : Named f.localState
  storedNamed : Named f.storedState
  deleted_iff : f.diff = .deleted ↔ f.localState.existing = false
  present : f.localState.existing = false → f.storedState.existing = true
  paired : f.diff = .moved ∨ f.diff = .changed → f.storedState.existing = true

section NameOk
variable {o : SiteOptions} {f g : SiteFile} {st : Stats}

lemma NameOk.localExisting (h : NameOk f) (hd : f.diff ≠ .deleted) :
    f.localState.existing = true := by
  by_contra hl
  exact hd (h.deleted_iff.mpr (Bool.eq_false_of_not_eq_true hl))

lemma NameOk.storedExisting (h : NameOk f) (hd : f.diff = .deleted) :
    f.storedState.existing = true := h.present (h.deleted_iff.mp hd)

/-- Comparing the states gives a right diff. -/
lemma nameOk_setDiff (st : Stats) (hl : Named f.localState) (hs : Named f.storedState)
    (hp : f.localState.existing = false → f.storedState.existing = true) :
    NameOk (fileSetDiff o f st).1 where
  localNamed := hl
  storedNamed := hs
  deleted_iff := fileCompare_deleted_iff
  present := hp
  paired hd := by
    rcases hd with hd | hd
    · exact (fileCompare_both hd (by decide) (by decide)).2
    · exact (fileCompare_both hd (by decide) (by decide)).2

/-- Storing a local state that exists. -/
lemma NameOk.uploaded (h : NameOk f) (hl : f.localState.existing = true) :
    NameOk (fileSetDiff o { f with storedState := uploadedState o f } st).1 := by
  apply nameOk_setDiff (f := { f with storedState := uploadedState o f }) st h.localNamed
  · intro _
    exact h.localNamed hl
  · exact fun _ => hl

lemma NameOk.mode (h : NameOk f) (mode : UInt32) :
    NameOk (fileSetDiff o { f with storedState := { f.storedState with mode := mode } } st).1 :=
  nameOk_setDiff st h.localNamed h.storedNamed h.present

lemma NameOk.server (h : NameOk f) (s : FileState) : NameOk { f with serverState := s } :=
  ⟨h.localNamed, h.storedNamed, h.deleted_iff, h.present, h.paired⟩

lemma NameOk.downloaded (h : NameOk f) (hs : f.storedState.existing = true) :
    NameOk (fileSetDiff o { f with localState := downloadedState o f } st).1 := by
  apply nameOk_setDiff (f := { f with localState := downloadedState o f })
  · intro _
    exact h.storedNamed hs
  · exact h.storedNamed
  · exact fun _ => hs

/-- A link that the server has just been given. -/
lemma NameOk.linked (h : NameOk f) (hd : f.diff ≠ .deleted) : NameOk { f with diff := .unchanged } where
  localNamed := h.localNamed
  storedNamed := h.storedNamed
  deleted_iff := by simp [h.localExisting hd]
  present := h.present
  paired hp := by simp at hp

end NameOk

/-! ### The turns of an update -/

/-- What a turn may leave of an entry: one of the same type that is no more deleted than before. -/
structure Follows (f g : SiteFile) : Prop where
  ok : NameOk g
  addr_eq : g.addr = f.addr
  type_eq : g.type = f.type
  deleted : g.diff = .deleted → f.diff = .deleted

section Turns
variable {σ : Type} {env : Env σ} {o : SiteOptions} {f : SiteFile} {r : Run σ}

def KeepsNames (f : SiteFile) (r : Run σ) (m : StateM (Run σ) Outcome) : Prop :=
  Ends m r fun out _ => ∀ g, out.1 = some g → Follows f g

lemma Follows.refl (h : NameOk f) : Follows f f := ⟨h, rfl, rfl, id⟩

lemma keeps_same (h : NameOk f) : ∀ g, some f = some g → Follows f g := by
  rintro g ⟨⟩
  exact .refl h

/-- A comparison of two states of which the local one exists. -/
lemma follows_setDiff {g : SiteFile} {st : Stats} (ha : g.addr = f.addr) (ht : g.type = f.type)
    (hl : g.localState.existing = true) (h : NameOk (fileSetDiff o g st).1) :
    ∀ x, some (fileSetDiff o g st).1 = some x → Follows f x := by
  rintro x ⟨⟩
  refine ⟨h, ha, ht, fun hd => ?_⟩
  rw [h.deleted_iff] at hd
  change g.localState.existing = false at hd
  rw [hl] at hd
  cases hd

lemma follows_uploaded {st : Stats} (h : NameOk f) (hl : f.localState.existing = true) :
    ∀ g, some (fileSetDiff o { f with storedState := uploadedState o f } st).1 = some g →
      Follows f g :=
  follows_setDiff rfl rfl hl (h.uploaded hl)

lemma updateDeleteFile_keeps (h : NameOk f) : KeepsNames f r (updateDeleteFile env o f) := by
  unfold KeepsNames updateDeleteFile
  simp only [ends_ite, ends_bind, ends_pure, ends_feCanUpdate, ends_call, ends_driverErr,
    ends_deleteEntry]
  split_ifs
  all_goals first
    | exact keeps_same h
    | simp

lemma updateDeleteDirectory_keeps (h : NameOk f) :
    KeepsNames f r (updateDeleteDirectory env o f) := by
  unfold KeepsNames updateDeleteDirectory
  simp only [ends_ite, ends_bind, ends_pure, ends_feCanUpdate, ends_call, ends_driverErr,
    ends_deleteEntry]
  split_ifs
  all_goals first
    | exact keeps_same h
    | simp

lemma updateMoveFile_keeps (h : NameOk f) : KeepsNames f r (updateMoveFile env o f) := by
  unfold KeepsNames updateMoveFile
  simp only [ends_ite, ends_bind, ends_pure, ends_feCanUpdate, ends_call, ends_driverErr,
    ends_fileUploaded]
  split_ifs with hd
  all_goals first
    | exact keeps_same h
    | exact follows_uploaded h (h.localExisting (by simp [hd]))

lemma updateCreateDirectory_keeps (h : NameOk f) :
    KeepsNames f r (updateCreateDirectory env o f) := by
  unfold KeepsNames updateCreateDirectory finishDirectory
  simp only [ends_ite, ends_bind, ends_pure, ends_feCanUpdate, ends_call, ends_driverErr,
    ends_fileUploaded]
  split_ifs with hd
  all_goals first
    | exact keeps_same h
    | exact follows_uploaded h (h.localExisting (by rcases hd.2 with hd | hd <;> simp [hd]))

lemma updateLink_keeps (h : NameOk f) : KeepsNames f r (updateLink env o f) := by
  unfold KeepsNames updateLink
  by_cases ht : f.type ≠ .link
  · rw [if_pos ht]
    exact keeps_same h
  · rw [if_neg ht]
    have hlinked : f.diff ≠ .deleted →
        ∀ g, some { f with diff := .unchanged } = some g → Follows f g := by
      rintro hd g ⟨⟩
      exact ⟨h.linked hd, rfl, rfl, fun hx => by cases hx⟩
    cases hd : f.diff with
    | moved | unchanged => exact keeps_same h
    | new | changed =>
      simp only [ends_ite, ends_bind, ends_pure, ends_call, ends_driverErr]
      split_ifs
      · exact keeps_same h
      · exact hlinked (by simp [hd])
    | deleted =>
      simp only [ends_ite, ends_bind, ends_pure, ends_call, ends_driverErr, ends_deleteEntry]
      split_ifs
      · exact keeps_same h
      · simp

/-- `file_chmod` of an entry with a local state. -/
lemma fileChmod_keeps (h : NameOk f) (hl : f.localState.existing = true) :
    Ends (fileChmod env o f) r fun out _ =>
      Follows f out.1 ∧ out.1.localState.existing = true := by
  unfold fileChmod
  simp only [ends_ite, ends_bind, ends_pure, ends_call, ends_driverErr, ends_setDiff]
  split_ifs
  · exact ⟨.refl h, hl⟩
  · have hmode := @NameOk.mode o f r.stats h f.localState.mode
    exact ⟨@follows_setDiff o f { f with storedState := { f.storedState with
      mode := f.localState.mode } } r.stats rfl rfl hl hmode _ rfl, hl⟩
  · exact ⟨.refl h, hl⟩

lemma Follows.trans {g x : SiteFile} (hg : Follows f g) (hx : Follows g x) : Follows f x :=
  ⟨hx.ok, hx.addr_eq.trans hg.addr_eq, hx.type_eq.trans hg.type_eq, fun hd => hg.deleted (hx.deleted hd)⟩

lemma finishUpload_keeps (h : NameOk f) (hl : f.localState.existing = true) :
    KeepsNames f r (finishUpload env o f) := by
  unfold KeepsNames finishUpload
  simp only [ends_bind, ends_pure, ends_fileUploaded]
  apply (fileChmod_keeps h hl).mono
  rintro out r' ⟨hout, hlout⟩ g hg
  exact hout.trans (follows_uploaded hout.ok hlout g hg)

lemma retrieve_finishUpload_keeps (h : NameOk f) (hl : f.localState.existing = true) :
    Ends (fileRetrieveServer env o f) r fun g r' => KeepsNames f r' (finishUpload env o g) := by
  have hserver : ∀ (s : FileState) (r' : Run σ),
      KeepsNames f r' (finishUpload env o { f with serverState := s }) := by
    intro s r'
    have hfollows : Follows f { f with serverState := s } := ⟨h.server s, rfl, rfl, id⟩
    exact (finishUpload_keeps (h.server s) hl).mono fun out _ hout g hg =>
      hfollows.trans (hout g hg)
  unfold fileRetrieveServer
  simp only [ends_ite, ends_bind, ends_pure, ends_call, ends_driverErr]
  split_ifs
  · exact hserver _ _
  · exact hserver _ _

lemma finishPlainUpload_keeps (h : NameOk f) (hl : f.localState.existing = true) :
    KeepsNames f r (finishPlainUpload env o f) := by
  unfold KeepsNames finishPlainUpload
  simp only [ends_ite, ends_bind, ends_pure]
  split_ifs
  · exact retrieve_finishUpload_keeps h hl
  · exact finishUpload_keeps h hl

lemma uploadFile_keeps (h : NameOk f) (hl : f.localState.existing = true) :
    KeepsNames f r (uploadFile env o f) := by
  unfold KeepsNames uploadFile
  simp only [ends_ite, ends_bind, ends_pure, ends_call, ends_driverErr]
  split_ifs
  all_goals first
    | exact keeps_same h
    | exact finishPlainUpload_keeps h hl
    | exact retrieve_finishUpload_keeps h hl

lemma updateNewFile_keeps (h : NameOk f) (hl : f.localState.existing = true) :
    KeepsNames f r (updateNewFile env o f) := by
  unfold KeepsNames updateNewFile
  simp only [ends_ite, ends_bind, ends_pure, ends_feCanUpdate, ends_call, ends_driverErr]
  split_ifs
  all_goals first
    | exact keeps_same h
    | exact uploadFile_keeps h hl

lemma updateFile_keeps (h : NameOk f) : KeepsNames f r (updateFile env o f) := by
  unfold KeepsNames updateFile
  by_cases ht : f.type ≠ .file
  · rw [if_pos ht]
    exact keeps_same h
  · rw [if_neg ht]
    cases hd : f.diff with
    | unchanged | deleted | moved => exact keeps_same h
    | new => exact updateNewFile_keeps h (h.localExisting (by simp [hd]))
    | changed =>
      have hl := h.localExisting (by simp [hd])
      simp only [ends_ite, ends_bind, ends_pure]
      split_ifs
      · exact keeps_same h
      · apply (fileChmod_keeps h hl).mono
        rintro out r' ⟨hout, _⟩ g ⟨⟩
        exact hout
      · exact updateNewFile_keeps h hl

theorem turn_keeps (p : Handler) (h : NameOk f) : KeepsNames f r (p.turn env o f) := by
  cases p with
  | deleteFiles => exact updateDeleteFile_keeps h
  | createDirectories => exact updateCreateDirectory_keeps h
  | moveFiles => exact updateMoveFile_keeps h
  | files => exact updateFile_keeps h
  | links => exact updateLink_keeps h
  | deleteDirectories => exact updateDeleteDirectory_keeps h

end Turns

/-! ### The turns of the other loops -/

/-- An entry at the same place with states that fit its diff. -/
def Stays (f g : SiteFile) : Prop := NameOk g ∧ g.addr = f.addr

section Loops
variable {ρ : Type} {body : SiteFile → StateM ρ Outcome} {files : List SiteFile} {r : ρ}
  {addrs : List ℕ}

/-- A list with some of these nodes, whose entries have the states that their diffs tell. -/
structure NamedList (addrs : List ℕ) (files : List SiteFile) : Prop where
  nodes : (files.map SiteFile.addr).Sublist addrs
  entries : ∀ f ∈ files, NameOk f

lemma NamedList.replace {pre post : List SiteFile} {f : SiteFile} {out : Option SiteFile}
    (h : NamedList addrs (pre ++ f :: post)) (hout : ∀ g, out = some g → Stays f g) :
    NamedList addrs (pre ++ out.toList ++ post) where
  nodes := by
    apply List.Sublist.trans _ h.nodes
    rw [List.append_assoc, List.map_append, List.map_append, List.map_append, List.map_cons]
    apply List.Sublist.append_left
    cases out with
    | none => simp
    | some g => simp [(hout g rfl).2]
  entries g hg := by
    simp only [List.mem_append, Option.mem_toList] at hg
    rcases hg with (hg | hg) | hg
    · exact h.entries g (by simp [hg])
    · exact (hout g hg).1
    · exact h.entries g (by simp [hg])

lemma forEach_named (hbody : ∀ f r, NameOk f →
      Ends (body f) r fun out _ => ∀ g, out.1 = some g → Stays f g) (h : NamedList addrs files) :
    Ends (forEach body files) r fun out _ => NamedList addrs out.1 := by
  apply (forEach_ends (I := fun done rest _ _ => NamedList addrs (done ++ rest)) _ h).mono
  · intro out r' hr
    simpa using hr
  · intro done f rest failed r hI
    apply (hbody f r (hI.entries f (by simp))).mono
    intro out r' hout
    exact hI.replace hout

lemma forEachBackward_named (hbody : ∀ f r, NameOk f →
      Ends (body f) r fun out _ => ∀ g, out.1 = some g → Stays f g) (h : NamedList addrs files) :
    Ends (forEachBackward body files) r fun out _ => NamedList addrs out.1 := by
  apply (forEachBackward_ends (I := fun rest done _ _ => NamedList addrs (rest ++ done)) _
    (by simpa)).mono
  · intro out r' hr
    simpa using hr
  · intro rest f done failed r hI
    rw [List.append_assoc, List.singleton_append] at hI
    apply (hbody f r (hI.entries f (by simp))).mono
    intro out r' hout
    rw [← List.append_assoc]
    exact hI.replace hout

end Loops

section Synch
variable {σ : Type} {env : SynchEnv σ} {o : SiteOptions} {f : SiteFile} {r : SynchRun σ} {st : Stats}

lemma stays_same (h : NameOk f) : ∀ g, some f = some g → Stays f g := by
  rintro g ⟨⟩
  exact ⟨h, rfl⟩

lemma stays_downloaded (h : NameOk f) (hs : f.storedState.existing = true) :
    ∀ g, some (fileSetDiff o { f with localState := downloadedState o f } st).1 = some g →
      Stays f g := by
  rintro g ⟨⟩
  exact ⟨h.downloaded hs, rfl⟩

/-- The body of the loop of a pass of a synch. -/
def synchTurn (env : SynchEnv σ) (o : SiteOptions) :
    SynchPhase → SiteFile → StateM (SynchRun σ) Outcome
  | .createDirectories => synchCreateDirectory env o
  | .files => synchFile env o
  | .deleteDirectories => synchDeleteDirectory env o

lemma downloadFile_named (h : NameOk f) (hs : f.storedState.existing = true) :
    Ends (downloadFile env o f) r fun out _ => ∀ g, out.1 = some g → Stays f g := by
  unfold downloadFile restoreTime restorePerms
  simp only [ends_ite, ends_bind, ends_pure, ends_driverCall, ends_localCall, ends_fileDownloaded]
  split_ifs
  all_goals first
    | exact stays_same h
    | exact stays_downloaded h hs

lemma synchFile_named (h : NameOk f) :
    Ends (synchFile env o f) r fun out _ => ∀ g, out.1 = some g → Stays f g := by
  unfold synchFile
  by_cases ht : f.type ≠ .file
  · rw [if_pos ht]
    exact stays_same h
  · rw [if_neg ht]
    cases hd : f.diff with
    | unchanged | new | moved => exact stays_same h
    | deleted => exact downloadFile_named h (h.storedExisting hd)
    | changed =>
      simp only [ends_ite, ends_bind, ends_pure, ends_localCall]
      split_ifs
      · exact stays_same h
      · exact downloadFile_named h (h.paired (Or.inr hd))

theorem synchTurn_named (p : SynchPhase) (h : NameOk f) :
    Ends (synchTurn env o p f) r fun out _ => ∀ g, out.1 = some g → Stays f g := by
  cases p with
  | createDirectories =>
    change Ends (synchCreateDirectory env o f) r _
    unfold synchCreateDirectory
    simp only [ends_ite, ends_bind, ends_pure, ends_localCall, ends_fileDownloaded]
    split_ifs with hd
    · exact stays_same h
    · exact stays_downloaded h (h.storedExisting hd.2)
    · exact stays_same h
  | files => exact synchFile_named h
  | deleteDirectories =>
    change Ends (synchDeleteDirectory env o f) r _
    unfold synchDeleteDirectory
    simp only [ends_ite, ends_bind, ends_pure, ends_localCall, ends_synchDelete]
    split_ifs
    · simp
    · exact stays_same h
    · exact stays_same h

end Synch

/-! ### Reachable lists -/

section Lists
variable {type : FileType} {state : FileState} {site : Site} {alpha : Slot}

/-- An entry that holds one existing state only. -/
lemma nameOk_alone {f : SiteFile} (hs : (alpha.get f).existing = true)
    (hn : Named (alpha.get f)) (ho : alpha.other.get f = {}) (hd : f.diff = alpha.defaultDiff) :
    NameOk f := by
  have hother : Named (alpha.other.get f) := by
    rw [ho]
    intro h
    cases h
  cases alpha with
  | localSlot =>
    have hl : f.localState.existing = true := hs
    refine ⟨hn, hother, ?_, ?_, ?_⟩
    · simp [hd, Slot.defaultDiff, hl]
    · simp [hl]
    · simp [hd, Slot.defaultDiff]
  | storedSlot =>
    have hl : f.localState = {} := ho
    refine ⟨hother, hn, ?_, fun _ => hs, fun _ => hs⟩
    simp [hd, Slot.defaultDiff, hl]

/-- An entry that holds the new state beside an existing one. -/
lemma nameOk_reused {old : SiteFile} {diff : FileDiff} (hs : state.existing = true)
    (hn : Named state) (hp : choosePlacement type state site alpha.other = .reuse old diff)
    (h : NameOk old) : NameOk (reusedEntry state alpha old diff) := by
  have hr := choosePlacement_reuse hp
  have hc := compared_reused hs hr
  have hboth : (reusedEntry state alpha old diff).localState.existing = true ∧
      (reusedEntry state alpha old diff).storedState.existing = true := by
    cases alpha with
    | localSlot => exact ⟨hs, hr.existing⟩
    | storedSlot => exact ⟨hr.existing, hs⟩
  refine ⟨?_, ?_, ?_, ?_, fun _ => hboth.2⟩
  · cases alpha with
    | localSlot => exact hn
    | storedSlot => exact h.localNamed
  · cases alpha with
    | localSlot => exact h.storedNamed
    | storedSlot => exact hn
  · rw [hc]
    exact fileCompare_deleted_iff
  · simp [hboth.1]

lemma setSlot_named (wl : WellLinked site) (h : ∀ f ∈ site.files, NameOk f)
    (hs : state.existing = true) (hn : Named state) :
    ∀ f ∈ (setSlot alpha type state site).1.files, NameOk f := by
  intro f hm
  obtain hm | ⟨-, rfl⟩ | ⟨old, diff, hp, rfl | ⟨hex, rfl⟩⟩ := mem_fileSet wl hm
  · exact h f hm
  · apply @nameOk_alone alpha
    · simp [newEntry, hs]
    · simpa [newEntry] using hn
    · cases alpha <;> rfl
    · simp [newEntry]
  · exact nameOk_reused hs hn hp (h old (choosePlacement_reuse hp).mem)
  · have hold := h old (choosePlacement_reuse hp).mem
    apply @nameOk_alone alpha
    · simp [shovedEntry, hex]
    · cases alpha
      · exact hold.localNamed
      · exact hold.storedNamed
    · cases alpha <;> rfl
    · simp [shovedEntry]

end Lists

structure NamedSite (site : Site) : Prop where
  linked : WellLinked site
  entries : ∀ f ∈ site.files, NameOk f

lemma NamedSite.list {site : Site} (h : NamedSite site) :
    NamedList (site.files.map SiteFile.addr) site.files := ⟨List.Sublist.refl _, h.entries⟩

lemma NamedSite.update {site : Site} {files : List SiteFile} {st : Stats} (h : NamedSite site)
    (hl : NamedList (site.files.map SiteFile.addr) files) :
    NamedSite { site with files := files, stats := st } where
  linked := by
    refine ⟨hl.nodes.nodup h.linked.nodup, fun f hf => ?_⟩
    obtain ⟨g, hg, ha⟩ := List.mem_map.mp (hl.nodes.subset (List.mem_map_of_mem hf))
    have hlt := h.linked.bounded g hg
    rwa [ha] at hlt
  entries := hl.entries

section Operations
variable {site : Site}

lemma NamedSite.setSlot (h : NamedSite site) (alpha : Slot) (type : FileType) {state : FileState}
    (hs : state.existing = true) (hn : Named state) : NamedSite (setSlot alpha type state site).1 :=
  ⟨fileSet_wellLinked h.linked, setSlot_named h.linked h.entries hs hn⟩

lemma NamedSite.fetchAdd (h : NamedSite site) (pf : ProtoFile) (now : ℤ) :
    NamedSite (fetchAddFile pf now site).1 := by
  have hset : NamedSite (fileSetStored (fetchedType pf.type) (fetchedState site.opts pf) site).1 :=
    h.setSlot .storedSlot _ rfl fun _ => rfl
  have hmem := @setSlot_mem (fetchedType pf.type) (fetchedState site.opts pf) _ .storedSlot h.linked
  have hget : (fileSetStored (fetchedType pf.type) (fetchedState site.opts pf) site).2.storedState =
      fetchedState site.opts pf := @setSlot_get _ _ _ .storedSlot
  rw [setSlot_stored] at hmem
  unfold fetchAddFile
  generalize fileSetStored (fetchedType pf.type) (fetchedState site.opts pf) site = r
    at hset hmem hget ⊢
  have hfile := hset.entries r.2 hmem
  have hmunged : NameOk (mungeModtime site.opts r.2 pf.modtime now r.1.stats).1 := by
    have htime : ∀ (t : ℤ), NameOk (fileSetDiff site.opts
        { r.2 with storedState := { r.2.storedState with time := t } } r.1.stats).1 := fun t =>
      nameOk_setDiff (f := { r.2 with storedState := { r.2.storedState with time := t } })
        _ hfile.localNamed hfile.storedNamed hfile.present
    unfold mungeModtime
    dsimp only
    split_ifs
    all_goals first
      | exact htime _
      | exact hfile
  dsimp only
  constructor
  · apply write_wellLinked
    exact ⟨hset.linked.nodup, hset.linked.bounded⟩
  intro f hf
  simp only [write, List.mem_map] at hf
  obtain ⟨x, hx, rfl⟩ := hf
  split_ifs
  · exact hmunged.server _
  · exact hset.entries x hx
  · exact hmunged
  · exact hset.entries x hx

lemma NamedSite.visitFiles (h : NamedSite site) {body : SiteFile → StateM Stats Outcome}
    (hbody : ∀ f st, NameOk f → Ends (body f) st fun out _ => ∀ g, out.1 = some g → Stays f g) :
    NamedSite (visitFiles body site) :=
  h.update (forEach_named hbody h.list)

lemma catchupFile_named {o : SiteOptions} {f : SiteFile} {st : Stats} (h : NameOk f) :
    Ends (catchupFile o f) st fun out _ => ∀ g, out.1 = some g → Stays f g := by
  unfold catchupFile
  cases hd : f.diff with
  | unchanged => exact stays_same h
  | deleted => simp [dropFile]
  | changed | new | moved =>
    rintro g ⟨⟩
    have hl := h.localExisting (by simp [hd])
    exact ⟨nameOk_setDiff (f := { f with storedState := f.localState }) st h.localNamed h.localNamed
      fun _ => hl, rfl⟩

lemma destroyStoredFile_named {o : SiteOptions} {f : SiteFile} {st : Stats} (h : NameOk f) :
    Ends (destroyStoredFile o f) st fun out _ => ∀ g, out.1 = some g → Stays f g := by
  unfold destroyStoredFile
  by_cases hl : f.localState.existing = true
  · simp only [hl, Bool.not_true, Bool.false_eq_true, ↓reduceIte]
    rintro g ⟨⟩
    refine ⟨nameOk_setDiff (f := { f with storedState := {} }) st h.localNamed ?_ ?_, rfl⟩
    · intro hx
      cases hx
    · intro hx
      rw [hl] at hx
      cases hx
  · simp [hl, dropFile]

/-- The site after one pass of an update. -/
def runHandler {σ : Type} (env : Env σ) (sess : σ) (p : Handler) (site : Site) : Site :=
  let r := (p.pass env site.opts site.files).run { stats := site.stats, sess := sess }
  { site with files := r.1.1, stats := r.2.stats }

lemma handlerPass_named {σ : Type} {env : Env σ} {o : SiteOptions} {r : Run σ} {addrs : List ℕ}
    {files : List SiteFile} (p : Handler) (h : NamedList addrs files) :
    Ends (p.pass env o files) r fun out _ => NamedList addrs out.1 := by
  have hbody : ∀ f r, NameOk f →
      Ends (p.turn env o f) r fun out _ => ∀ g, out.1 = some g → Stays f g := by
    intro f r hf
    exact (turn_keeps p hf).mono fun out _ hout g hg => ⟨(hout g hg).ok, (hout g hg).addr_eq⟩
  cases p with
  | deleteFiles | createDirectories | moveFiles | files | links => exact forEach_named hbody h
  | deleteDirectories => exact forEachBackward_named hbody h

lemma synchPass_named {σ : Type} {env : SynchEnv σ} {o : SiteOptions} {r : SynchRun σ}
    {addrs : List ℕ} {files : List SiteFile} (p : SynchPhase) (h : NamedList addrs files) :
    Ends (p.pass env o files) r fun out _ => NamedList addrs out.1 := by
  have hbody : ∀ f r, NameOk f →
      Ends (synchTurn env o p f) r fun out _ => ∀ g, out.1 = some g → Stays f g :=
    fun f r hf => synchTurn_named p hf
  cases p with
  | createDirectories | files => exact forEach_named hbody h
  | deleteDirectories => exact forEachBackward_named hbody h

/-- The sites reached from the empty list by any sequence of operations, the passes over the
links among them. The callers of `file_set` give states with names. -/
inductive Listed (o : SiteOptions) : Site → Prop
  | empty : Listed o { opts := o }
  | setLocal {site : Site} (type : FileType) (state : FileState) : Listed o site →
      state.existing = true → Named state → Listed o (fileSetLocal type state site).1
  | setStored {site : Site} (type : FileType) (state : FileState) : Listed o site →
      state.existing = true → Named state → Listed o (fileSetStored type state site).1
  | fetchAdd {site : Site} (pf : ProtoFile) (now : ℤ) :
      Listed o site → Listed o (fetchAddFile pf now site).1
  | catchup {site : Site} : Listed o site → Listed o (siteCatchup site)
  | destroyStored {site : Site} : Listed o site → Listed o (siteDestroyStored site)
  | destroy {site : Site} : Listed o site → Listed o (siteDestroy site)
  | handler {site : Site} {σ : Type} (env : Env σ) (sess : σ) (p : Handler) :
      Listed o site → Listed o (runHandler env sess p site)
  | synchPhase {site : Site} {σ : Type} (env : SynchEnv σ) (sess : σ) (p : SynchPhase) :
      Listed o site → Listed o (runSynchPhase env sess p site)

theorem Listed.named {o : SiteOptions} (h : Listed o site) : NamedSite site := by
  induction h with
  | empty => exact ⟨⟨List.nodup_nil, by simp⟩, by simp⟩
  | setLocal type state _ hs hn ih => exact ih.setSlot .localSlot type hs hn
  | setStored type state _ hs hn ih => exact ih.setSlot .storedSlot type hs hn
  | fetchAdd pf now _ ih => exact ih.fetchAdd pf now
  | catchup _ ih => exact ih.visitFiles fun f st hf => catchupFile_named hf
  | destroyStored _ ih => exact ih.visitFiles fun f st hf => destroyStoredFile_named hf
  | destroy _ ih => exact ih.visitFiles fun f st hf => by simp [dropFile]
  | handler env sess p _ ih => exact ih.update (handlerPass_named p ih.list)
  | synchPhase env sess p _ ih => exact ih.update (synchPass_named p ih.list)

end Operations
end Sitecopy.NamedEntries
