import Sitecopy.LocalScan
import Sitecopy.DriverCalls
import Sitecopy.StateFileErrors

/-!
# Deletions after an incomplete scan

A path that the scan of the local tree could not examine has no local state, so its stored
state looks as if the file had been deleted. The update then deletes the remote file too.
-/
namespace Sitecopy.HiddenPaths
open SiteModel FileSet FileSetSpec StateProgram SiteStats FileMatching SiteUpdate UpdateAccounting
open StateFile StateFileErrors LocalScan DriverCalls

/-! ### Which deletions an update makes -/

def isDelete : DriverCall → Bool
  | .fileDelete _ | .dirRemove _ | .linkDelete _ => true
  | _ => false

/-- The event is a call that deletes something for the entry. -/
def Deletes (f : SiteFile) : Event → Prop
  | .call a c _ => a = some f.addr ∧ isDelete c = true
  | .uploaded _ | .removed _ => False

/-- Whether an update deletes what has this type. -/
def deletesType (o : SiteOptions) : FileType → Bool
  | .file | .dir => !o.nodelete
  | .link => o.symlinks = .maintain

/-- An entry whose remote file an update deletes, if asked to. -/
def ToDelete (o : SiteOptions) (f : SiteFile) : Prop := f.diff = .deleted ∧ deletesType o f.type = true

section Calls
variable {σ : Type} {env : Env σ} {o : SiteOptions} {f : SiteFile} {p : Handler}

/-- The handler for a deleted entry. -/
def deleteHandler : FileType → Handler
  | .file => .deleteFiles
  | .dir => .deleteDirectories
  | .link => .links

lemma active_deleted (h : f.diff = .deleted) : activeHandler f = some (deleteHandler f.type) := by
  cases ht : f.type <;> simp [activeHandler, h, ht, deleteHandler]

lemma deleteHandler_guard {type : FileType} :
    (deleteHandler type, true) ∈ handlerTable o ↔ deletesType o type = true := by
  cases type <;> simp [deleteHandler, handlerTable, deletesType]

/-- A call that deletes something is made for a deleted entry, or replaces a file. -/
lemma turnCall_delete {c : DriverCall} (hc : TurnCall o f p c) (hact : activeHandler f = some p)
    (hd : isDelete c = true) : f.diff = .deleted ∨ o.nooverwrite = true ∧ f.diff = .changed := by
  have hdeleted : p = .deleteFiles ∨ p = .deleteDirectories → f.diff = .deleted := by
    rintro (rfl | rfl)
    · cases hx : f.diff <;> cases ht : f.type <;> simp [activeHandler, hx, ht] at hact ⊢
    · cases hx : f.diff <;> cases ht : f.type <;> simp [activeHandler, hx, ht] at hact ⊢
  cases hc with
  | deleteFile => exact Or.inl (hdeleted (Or.inl rfl))
  | removeDirectory => exact Or.inl (hdeleted (Or.inr rfl))
  | deleteLink h => exact Or.inl h
  | replaceFile hch hno => exact Or.inr ⟨hno, hch⟩
  | _ => cases hd

/-- Every deletion of an update is due to one of its entries. -/
theorem siteUpdate_deletes {site : Site} (hdiff : ∀ f ∈ site.files, DiffOk site.opts f) (sess : σ) :
    ∀ a c code, Event.call a c code ∈ (siteUpdate env site sess).trace → isDelete c = true →
      ∃ f ∈ site.files, a = some f.addr ∧
        (ToDelete site.opts f ∨ site.opts.nooverwrite = true ∧ f.diff = .changed) := by
  intro a c code hm hd
  cases siteUpdate_calls hdiff sess a c code hm with
  | session h => rcases h with rfl | rfl | rfl <;> cases hd
  | @turn f p _ hf hact hguard hcall =>
    refine ⟨f, hf, rfl, (turnCall_delete hcall hact hd).imp_left fun hdel => ⟨hdel, ?_⟩⟩
    rw [active_deleted hdel] at hact
    obtain rfl := Option.some.inj hact
    exact deleteHandler_guard.mp hguard

/-! ### An update that makes all of them -/

/-- A server that does everything, and a user who agrees to deletions only. -/
def clearingEnv : Env PUnit where
  exec _ s := ({ code := SITE_OK }, s)
  canUpdate f s := (f.diff = .deleted, s)

lemma clearing_ok (c : DriverCall) (s : PUnit) : (clearingEnv.exec c s).1.code = SITE_OK := rfl

variable {r : Run PUnit}

lemma clearing_newFile (hd : f.diff ≠ .deleted) :
    Ends (updateNewFile clearingEnv o f) r fun out _ => out.2 = false := by
  simp only [updateNewFile, ends_bind, ends_feCanUpdate]
  rw [if_neg (by simp [clearingEnv, hd]), ends_pure]

lemma clearing_chmod : Ends (fileChmod clearingEnv o f) r fun out _ => out.2 = false := by
  simp only [fileChmod, ends_ite, ends_bind, ends_pure, ends_call, ends_driverErr, ends_setDiff]
  split_ifs with hperms hcode
  exact absurd rfl hcode

/-- No turn fails. -/
lemma clearing_turn (p : Handler) (f : SiteFile) (r : Run PUnit) :
    Ends (p.turn clearingEnv o f) r fun out _ => out.2 = false := by
  cases p with
  | deleteFiles =>
    simp only [Handler.turn, updateDeleteFile, ends_ite, ends_bind, ends_pure, ends_feCanUpdate,
      ends_call, ends_driverErr, ends_deleteEntry]
    split_ifs with _ _ hcode
    exact absurd rfl hcode
  | deleteDirectories =>
    simp only [Handler.turn, updateDeleteDirectory, ends_ite, ends_bind, ends_pure,
      ends_feCanUpdate, ends_call, ends_driverErr, ends_deleteEntry]
    split_ifs with _ _ hcode
    exact absurd rfl hcode
  | moveFiles =>
    simp only [Handler.turn, updateMoveFile, ends_ite, ends_bind, ends_pure, ends_feCanUpdate,
      ends_call, ends_driverErr, ends_fileUploaded]
    split_ifs with _ _ hcode
    exact absurd rfl hcode
  | createDirectories =>
    simp only [Handler.turn, updateCreateDirectory, ends_ite, ends_bind, ends_pure,
      ends_feCanUpdate]
    split_ifs <;> simp_all [clearingEnv]
  | files =>
    change Ends (updateFile clearingEnv o f) r _
    unfold updateFile
    by_cases ht : f.type ≠ .file
    · rw [if_pos ht]
      rfl
    · rw [if_neg ht]
      cases hd : f.diff with
      | deleted | moved | unchanged => rfl
      | new => exact clearing_newFile (by simp [hd])
      | changed =>
        simp only [ends_ite, ends_bind, ends_pure]
        split_ifs
        · exact clearing_chmod
        · exact clearing_newFile (by simp [hd])
  | links =>
    change Ends (updateLink clearingEnv o f) r _
    unfold updateLink
    by_cases ht : f.type ≠ .link
    · rw [if_pos ht]
      rfl
    · rw [if_neg ht]
      cases f.diff with
      | moved | unchanged => rfl
      | new | changed | deleted =>
        simp only [ends_ite, ends_bind, ends_pure, ends_call, ends_driverErr, ends_deleteEntry]
        split_ifs with hcode
        exact absurd rfl hcode

/-- The turn of a deleted entry deletes its remote file. -/
lemma clearing_deletes (hd : f.diff = .deleted) :
    Adds r ((deleteHandler f.type).turn clearingEnv o f) fun _ seg => ∃ e ∈ seg, Deletes f e := by
  unfold Adds
  cases ht : f.type with
  | file =>
    simp only [deleteHandler, Handler.turn, updateDeleteFile, ends_ite, ends_bind, ends_pure,
      ends_feCanUpdate, ends_call, ends_driverErr, ends_deleteEntry]
    rw [if_pos ⟨hd, ht⟩, if_pos (by simp [clearingEnv, hd]), if_neg (by simp [clearing_ok])]
    exact ⟨_, List.append_assoc _ _ _, _, List.mem_cons_self, rfl, rfl⟩
  | dir =>
    simp only [deleteHandler, Handler.turn, updateDeleteDirectory, ends_ite, ends_bind, ends_pure,
      ends_feCanUpdate, ends_call, ends_driverErr, ends_deleteEntry]
    rw [if_pos ⟨ht, hd⟩, if_pos (by simp [clearingEnv, hd]), if_neg (by simp [clearing_ok])]
    exact ⟨_, List.append_assoc _ _ _, _, List.mem_cons_self, rfl, rfl⟩
  | link =>
    simp only [deleteHandler, Handler.turn, updateLink, ends_ite, hd, ends_bind, ends_pure,
      ends_call, ends_driverErr, ends_deleteEntry]
    rw [if_neg (by simp [ht]), if_neg (by simp [clearing_ok])]
    exact ⟨_, List.append_assoc _ _ _, _, List.mem_cons_self, rfl, rfl⟩

/-- What becomes of the entry `f` in the turn of `g`: the handler `q` makes `P` happen, and the
others leave the entry alone. -/
structure Clears (P : Event → Prop) (q : Handler) (f : SiteFile) (p : Handler) (g : SiteFile)
    (out : Outcome) (seg : List Event) : Prop where
  success : out.2 = false
  acted : g = f → p = q → ∃ e ∈ seg, P e
  kept : g = f → p ≠ q → out.1 = some f

section Acting
variable {P : Event → Prop} {q : Handler} (hact : activeHandler f = some q)
  (hacts : ∀ r : Run PUnit, Adds r (q.turn clearingEnv o f) fun _ seg => ∃ e ∈ seg, P e)

include hact hacts

lemma clearing_clears (p : Handler) (g : SiteFile) (r : Run PUnit) :
    Adds r (p.turn clearingEnv o g) (Clears P q f p g) := by
  have hok := clearing_turn (o := o) p g r
  obtain ⟨seg, hseg, _⟩ := @handler_turn _ clearingEnv o g r p
  refine ⟨seg, hseg, hok, ?_, ?_⟩
  · rintro rfl rfl
    obtain ⟨seg', hseg', he⟩ := hacts r
    obtain rfl := List.append_cancel_left (hseg.symm.trans hseg')
    exact he
  · rintro rfl hp
    have hidle : activeHandler g ≠ some p := by
      rw [hact]
      simpa using hp.symm
    change (((p.turn clearingEnv o g).run r).1).1 = some g
    rw [turn_idle hidle]
    rfl

lemma clearing_pass (p : Handler) (files : List SiteFile) (r : Run PUnit) :
    Ends (p.pass clearingEnv o files) r fun out r' => out.2 = false ∧
      (∃ seg, r'.trace = r.trace ++ seg) ∧
        (f ∈ files → (∃ e ∈ r'.trace, P e) ∨ p ≠ q ∧ f ∈ out.1) := by
  -- both kinds of loop visit the entry
  have hvisits : ∀ (vs : List (Visit SiteFile Event)) (log : List Event) (out : List SiteFile × Bool)
      (r' : Run PUnit), vs.map Visit.elem = files → out = (Visit.kept vs, Visit.failed vs) →
      r'.trace = r.trace ++ log → (∀ e, e ∈ log ↔ e ∈ Visit.logged vs) →
      (∀ v ∈ vs, Clears P q f p v.elem v.result v.log) → out.2 = false ∧
      (∃ seg, r'.trace = r.trace ++ seg) ∧
        (f ∈ files → (∃ e ∈ r'.trace, P e) ∨ p ≠ q ∧ f ∈ out.1) := by
    rintro vs log out r' rfl rfl ht hlog hv
    refine ⟨Visit.failed_eq_false.mpr fun v hm => (hv v hm).success, ⟨log, ht⟩, fun hf => ?_⟩
    obtain ⟨v, hm, rfl⟩ := List.mem_map.mp hf
    by_cases hp : p = q
    · obtain ⟨e, he, hpe⟩ := (hv v hm).acted rfl hp
      refine Or.inl ⟨e, ?_, hpe⟩
      rw [ht, List.mem_append, hlog]
      exact Or.inr (Visit.mem_logged.mpr ⟨v, hm, he⟩)
    · exact Or.inr ⟨hp, Visit.mem_kept.mpr ⟨v, hm, (hv v hm).kept rfl hp⟩⟩
  have hturn : ∀ g ∈ files, ∀ r : Run PUnit, Ends (p.turn clearingEnv o g) r fun out r' =>
      ∃ seg, r'.trace = r.trace ++ seg ∧ Clears P q f p g out seg :=
    fun g _ r => clearing_clears hact hacts p g r
  cases p with
  | deleteFiles | createDirectories | moveFiles | files | links =>
    apply (forEach_visits Run.trace (T := fun g seg out => Clears P q f _ g out seg)
      files hturn r).mono
    rintro out r' ⟨vs, hl, hout, ht, hv⟩
    exact hvisits vs _ out r' hl hout ht (fun _ => Iff.rfl) hv
  | deleteDirectories =>
    apply (forEachBackward_visits Run.trace (T := fun g seg out => Clears P q f _ g out seg)
      files hturn r).mono
    rintro out r' ⟨vs, hl, hout, ht, hv⟩
    exact hvisits vs _ out r' hl hout ht (fun e => by simp [Visit.mem_logged]) hv

lemma clearing_handlers (table : List (Handler × Bool)) (files : List SiteFile) (r : Run PUnit)
    (h : (∃ e ∈ r.trace, P e) ∨ (q, true) ∈ table ∧ f ∈ files) :
    Ends (runHandlers o (table.map fun e => (e.1.pass clearingEnv o, e.2)) false files) r
      fun _ r' => ∃ e ∈ r'.trace, P e := by
  induction table generalizing files r with
  | nil => exact h.resolve_right (by simp)
  | cons entry table ih =>
    obtain ⟨p, guard⟩ := entry
    rw [List.map_cons, runHandlers, if_pos (by simp)]
    split_ifs with hg
    · rw [ends_bind]
      apply (clearing_pass hact hacts p files r).mono
      rintro out r' ⟨hout, ⟨seg, hseg⟩, hr⟩
      rw [hout]
      apply ih
      rcases h with ⟨e, he, hpe⟩ | ⟨htable, hf⟩
      · refine Or.inl ⟨e, ?_, hpe⟩
        rw [hseg]
        exact List.mem_append_left _ he
      · apply (hr hf).imp_right
        rintro ⟨hp, hmem⟩
        refine ⟨?_, hmem⟩
        rcases List.mem_cons.mp htable with he | he
        · exact absurd (Prod.mk.inj he).1.symm hp
        · exact he
    · apply ih
      apply h.imp_right
      rintro ⟨htable, hf⟩
      refine ⟨?_, hf⟩
      rcases List.mem_cons.mp htable with he | he
      · exact absurd (Prod.mk.inj he).2.symm hg
      · exact he

end Acting

/-- Such an update comes to every entry that has a handler. -/
theorem clearing_acts {site : Site} {P : Event → Prop} {q : Handler} (hf : f ∈ site.files)
    (hact : activeHandler f = some q) (hguard : (q, true) ∈ handlerTable site.opts)
    (hacts : ∀ r : Run PUnit,
      Adds r (q.turn clearingEnv site.opts f) fun _ seg => ∃ e ∈ seg, P e) :
    ∃ e ∈ (siteUpdate clearingEnv site ⟨⟩).trace, P e := by
  have hrun : Ends (updateSiteFiles clearingEnv site.opts site.files)
      { stats := site.stats, sess := PUnit.unit } fun _ r' => ∃ e ∈ r'.trace, P e := by
    unfold updateSiteFiles protoInit protoFinish
    simp only [ends_bind, ends_ite, ends_pure, ends_call, ends_driverErr]
    rw [if_neg (by simp [clearing_ok]), if_neg (by simp [clearing_ok]), handlers_eq]
    apply (clearing_handlers hact hacts (handlerTable site.opts) site.files _
      (Or.inr ⟨hguard, hf⟩)).mono
    rintro out r' ⟨e, he, hpe⟩
    exact ⟨e, by simp [he], hpe⟩
  exact hrun

/-- Such an update deletes all that an update may delete. -/
theorem clearing_update {site : Site} (hf : f ∈ site.files) (h : ToDelete site.opts f) :
    ∃ e ∈ (siteUpdate clearingEnv site ⟨⟩).trace, Deletes f e :=
  clearing_acts hf (active_deleted h.1) (deleteHandler_guard.mpr h.2) fun _ => clearing_deletes h.1

end Calls

/-! ### The list before the update -/

/-- The states of an entry agree with its diff, and have one name unless the entry is a moved
file. -/
structure Paired (o : SiteOptions) (f : SiteFile) : Prop where
  compared : Compared o f
  present : f.localState.existing = true ∨ f.storedState.existing = true
  named : f.localState.existing = true → f.storedState.existing = true →
    f.localState.filename = f.storedState.filename ∨ o.checkmoved = true ∧ f.type = .file

lemma Paired.deleted_iff {o : SiteOptions} {f : SiteFile} (h : Paired o f) :
    f.diff = .deleted ↔ f.localState.existing = false := by
  rw [show f.diff = _ from h.compared]
  exact fileCompare_deleted_iff

section Pairs
variable {type : FileType} {state : FileState} {site : Site} {alpha : Slot}

lemma paired_alone {o : SiteOptions} {f : SiteFile} (hs : (alpha.get f).existing = true)
    (ho : (alpha.other.get f).existing = false) (hd : f.diff = alpha.defaultDiff) :
    Paired o f where
  compared := compared_alone hs ho hd
  present := by
    cases alpha with
    | localSlot => exact Or.inl hs
    | storedSlot => exact Or.inr hs
  named hl hst := by
    cases alpha with
    | localSlot =>
      rw [show f.storedState.existing = false from ho] at hst
      cases hst
    | storedSlot =>
      rw [show f.localState.existing = false from ho] at hl
      cases hl

lemma paired_reused {old : SiteFile} {diff : FileDiff} (hs : state.existing = true)
    (hp : choosePlacement type state site alpha.other = .reuse old diff) :
    Paired site.opts (reusedEntry state alpha old diff) where
  compared := compared_reused hs (choosePlacement_reuse hp)
  present := by
    cases alpha with
    | localSlot => exact Or.inl hs
    | storedSlot => exact Or.inr hs
  named _ _ := by
    obtain ⟨_, ⟨hdirect, _⟩ | ⟨hcand, _⟩⟩ := choosePlacement_source hp
    · simp only [isDirect, Bool.and_eq_true, decide_eq_true_eq] at hdirect
      cases alpha with
      | localSlot => exact Or.inl hdirect.2.symm
      | storedSlot => exact Or.inl hdirect.2
    · simp only [isCandidate, Bool.and_eq_true, decide_eq_true_eq] at hcand
      refine Or.inr ⟨hcand.1.1.1.1, ?_⟩
      rw [reusedEntry, Slot.put_type]
      exact hcand.1.1.2

lemma setSlot_paired (wl : WellLinked site) (h : ∀ f ∈ site.files, Paired site.opts f)
    (hs : state.existing = true) :
    ∀ f ∈ (setSlot alpha type state site).1.files, Paired site.opts f := by
  intro f hm
  obtain hm | ⟨-, rfl⟩ | ⟨old, diff, hp, rfl | ⟨hex, rfl⟩⟩ := mem_fileSet wl hm
  · exact h f hm
  · apply @paired_alone alpha
    · simp [newEntry, hs]
    · cases alpha <;> rfl
    · simp [newEntry]
  · exact paired_reused hs hp
  · apply @paired_alone alpha
    · simp [shovedEntry, hex]
    · cases alpha <;> rfl
    · simp [shovedEntry]

/-- A files list whose entries are right. -/
structure PairedSite (o : SiteOptions) (site : Site) : Prop where
  linked : WellLinked site
  opts : site.opts = o
  paired : ∀ f ∈ site.files, Paired o f

variable {o : SiteOptions}

lemma PairedSite.setSlot (h : PairedSite o site) (alpha : Slot) (type : FileType)
    (hs : state.existing = true) : PairedSite o (FileSet.setSlot alpha type state site).1 where
  linked := fileSet_wellLinked h.linked
  opts := fileSet_opts.trans h.opts
  paired := by
    have hp := h.paired
    rw [← h.opts] at hp ⊢
    exact setSlot_paired h.linked hp hs

lemma PairedSite.calls (h : PairedSite o site) (calls : List SetCall) :
    PairedSite o (runCalls calls site) := by
  induction calls generalizing site with
  | nil => exact h
  | cons c calls ih => exact ih (h.setSlot c.side c.type c.existing)

lemma PairedSite.entry (h : PairedSite o site) (e : Entry) : PairedSite o (e.apply site) := by
  cases e with
  | stateMethod method => exact ⟨⟨h.linked.nodup, h.linked.bounded⟩, h.opts, h.paired⟩
  | item type stored server =>
    have hset : PairedSite o (fileSetStored type { stored with existing := true } site).1 :=
      h.setSlot .storedSlot type rfl
    have hmem := @setSlot_mem type { stored with existing := true } site .storedSlot h.linked
    rw [setSlot_stored] at hmem
    unfold Entry.apply
    dsimp only
    generalize fileSetStored type { stored with existing := true } site = r at hset hmem ⊢
    split_ifs
    · refine ⟨write_wellLinked hset.linked _, hset.opts, fun f hf => ?_⟩
      have hfile := hset.paired r.2 hmem
      obtain ⟨g, hg, rfl⟩ := List.mem_map.mp hf
      split_ifs
      · exact ⟨hfile.compared, hfile.present, hfile.named⟩
      · exact hset.paired g hg
    · exact hset

lemma PairedSite.told (h : PairedSite o site) (entries : List Entry) :
    PairedSite o (entries.foldl Entry.apply site) := by
  induction entries generalizing site with
  | nil => exact h
  | cons e entries ih => exact ih (h.entry e)

end Pairs

/-- `site_read_local_state` and `site_read_stored_state` for a site without files. -/
def readFiles (disk : Disk) (fails : Failures) (fuel : ℕ) (P : Xml.Parser) (m : DataModel)
    (file : InfoFile) (o : SiteOptions) : Option Site :=
  (siteReadLocalState disk fails fuel { opts := o }).map fun site =>
    (siteReadStoredState P m file site).site

/-- What a list that was just read consists of. -/
structure ReadSite {o : SiteOptions} (tree : LocalTree o) (fails : Failures)
    (recorded : Multiset (FileType × FileState)) (site : Site) : Prop extends PairedSite o site where
  scanned : ∀ type name, (∃ f ∈ site.files, f.localState.existing = true ∧ f.type = type ∧
    f.localState.filename = some name) ↔ Shown tree.toDisk fails o (type, name)
  stored : held .storedSlot site.files = recorded

/-- The stored states in the part of the file before its first error. -/
def recordedStates (P : Xml.Parser) (m : DataModel) (file : InfoFile) :
    Multiset (FileType × FileState) := ((told P m file).map Entry.recorded).sum

theorem readFiles_reads {o : SiteOptions} (tree : LocalTree o) (fails : Failures) (P : Xml.Parser)
    (m : DataModel) (file : InfoFile) : ∃ site,
      (∀ fuel, tree.turns fails ≤ fuel →
        readFiles tree.toDisk fails fuel P m file o = some site) ∧
      ReadSite tree fails (recordedStates P m file) site := by
  obtain ⟨calls, hside, hrun, hshown⟩ := scan_shows tree fails
  have hempty : PairedSite o { opts := o } := ⟨⟨by simp, by simp⟩, rfl, by simp⟩
  have hscan := hempty.calls calls
  have hheld := foldl_apply_held hscan.linked (told P m file)
  refine ⟨(told P m file).foldl Entry.apply (runCalls calls { opts := o }), fun fuel hfuel => ?_,
    hscan.told _, fun type name => ?_, ?_⟩
  · rw [readFiles, hrun fuel hfuel, Option.map_some, siteReadStoredState_site]
  · rw [← hshown]
    constructor
    · rintro ⟨f, hf, hex, rfl, hname⟩
      have hm : (f.type, f.localState) ∈ held .localSlot (runCalls calls { opts := o }).files := by
        rw [← hheld.2]
        exact mem_held.mpr ⟨f, hf, hex, rfl, rfl⟩
      rw [runCalls_held _ (ExactSite.empty o), held_nil, add_zero, mem_placed] at hm
      obtain ⟨c, hc, _, hstate⟩ := hm
      refine ⟨c, hc, congrArg Prod.fst hstate, ?_⟩
      rw [show c.state = f.localState from congrArg Prod.snd hstate]
      exact hname
    · rintro ⟨c, hc, rfl, hname⟩
      have hm : (c.type, c.state) ∈ held .localSlot (runCalls calls { opts := o }).files := by
        rw [runCalls_held _ (ExactSite.empty o), held_nil, add_zero, mem_placed]
        exact ⟨c, hc, hside c hc, rfl⟩
      rw [← hheld.2] at hm
      obtain ⟨f, hf, hex, htype, hstate⟩ := mem_held.mp hm
      refine ⟨f, hf, hex, htype, ?_⟩
      rw [show f.localState = c.state from hstate]
      exact hname
  · have hnone : held .storedSlot (runCalls calls { opts := o }).files = 0 := by
      rw [runCalls_held _ (ExactSite.empty o), held_nil, add_zero, Multiset.eq_zero_iff_forall_notMem]
      intro x hx
      obtain ⟨c, hc, hs, _⟩ := mem_placed.mp hx
      rw [hside c hc] at hs
      cases hs
    rw [hheld.1, hnone, add_zero]
    rfl

/-! ### Which scans do no harm -/

/-- Every deletion is for a path that is not in the local tree any more, is excluded or is an
ignored link, unless it makes way for a changed file that is then uploaded. -/
def DeletesOnlyGone {o : SiteOptions} (tree : LocalTree o) (site : Site) (trace : List Event) : Prop :=
  ∀ f ∈ site.files, ∀ e ∈ trace, Deletes f e →
    (∀ name, f.storedState.filename = some name →
      ¬ Shown tree.toDisk noFailures o (f.type, name)) ∨
    o.nooverwrite = true ∧ f.diff = .changed

/-- Every recorded path that is still there, of a type that updates delete, was examined by the
scan, or is a file that was matched with a moved one; and what is recorded of it was not
displaced from its entry by another stored state. -/
def StoredPathsSeen {o : SiteOptions} (tree : LocalTree o) (fails : Failures)
    (recorded : Multiset (FileType × FileState)) (site : Site) : Prop :=
  ∀ type state name, (type, state) ∈ recorded → state.filename = some name →
    deletesType o type = true → Shown tree.toDisk noFailures o (type, name) →
      (Shown tree.toDisk fails o (type, name) ∨ o.checkmoved = true ∧ type = .file) ∧
        ∀ f ∈ site.files, f.type = type → f.storedState = state → f.localState.existing = true

section Seen
variable {o : SiteOptions} {tree : LocalTree o} {fails : Failures}
  {recorded : Multiset (FileType × FileState)} {site : Site}

/-- The condition says that no entry of a path that is still there looks deleted. -/
lemma storedPathsSeen_iff (h : ReadSite tree fails recorded site) :
    StoredPathsSeen tree fails recorded site ↔ ∀ f ∈ site.files, ToDelete o f →
      ∀ name, f.storedState.filename = some name →
        ¬ Shown tree.toDisk noFailures o (f.type, name) := by
  constructor
  · intro hseen f hf hdel name hname hshown
    have hlocal := (h.paired f hf).deleted_iff.mp hdel.1
    have hex : f.storedState.existing = true := by
      apply (h.paired f hf).present.resolve_left
      simp [hlocal]
    have hrec : (f.type, f.storedState) ∈ recorded := by
      rw [← h.stored]
      exact mem_held.mpr ⟨f, hf, hex, rfl, rfl⟩
    have hmatched := (hseen _ _ name hrec hname hdel.2 hshown).2 f hf rfl rfl
    rw [hlocal] at hmatched
    cases hmatched
  · intro hgone type state name hrec hname htype hshown
    have hmatched : ∀ f ∈ site.files, f.type = type → f.storedState = state →
        f.localState.existing = true := by
      rintro f hf rfl rfl
      by_contra hl
      rw [Bool.not_eq_true] at hl
      exact hgone f hf ⟨(h.paired f hf).deleted_iff.mpr hl, htype⟩ name hname hshown
    refine ⟨?_, hmatched⟩
    rw [← h.stored] at hrec
    obtain ⟨f, hf, hex, rfl, hstate⟩ := mem_held.mp hrec
    have hstored : f.storedState = state := hstate
    have hl := hmatched f hf rfl hstored
    rcases (h.paired f hf).named hl hex with hn | hmoved
    · left
      apply (h.scanned f.type name).mp
      refine ⟨f, hf, hl, rfl, ?_⟩
      rw [hn, hstored, hname]
    · exact Or.inr hmoved

end Seen

/-! ### A directory that cannot be opened -/

/-- A local tree with the file `d/a`. -/
def lockedDisk : Disk where
  entries d :=
    if d = ascii "/" then [ascii ".", ascii "..", ascii "d"]
    else if d = ascii "/d/" then [ascii ".", ascii "..", ascii "a"]
    else []
  lstat full := { kind := if full = ascii "/d" then .directory else .regular }
  stat _ := none
  readlink _ := []
  checksum _ := .zero

def lockedTree : LocalTree {} where
  toDisk := lockedDisk
  height := 1
  finite := by
    intro e he
    obtain rfl : e = ascii "/d/" := by
      have hdirs : directories lockedDisk {} ({} : SiteOptions).localRoot = [ascii "/d/"] := by decide
      simpa [hdirs] using he
    change directories lockedDisk {} (ascii "/d/") = []
    decide
  named d n hn := by
    simp only [lockedDisk] at hn
    split_ifs at hn
    · rcases List.mem_cons.mp hn with rfl | hn
      · exact ⟨by decide, by decide⟩
      · rcases List.mem_cons.mp hn with rfl | hn
        · exact ⟨by decide, by decide⟩
        · obtain rfl := List.mem_singleton.mp hn
          exact ⟨by decide, by decide⟩
    · rcases List.mem_cons.mp hn with rfl | hn
      · exact ⟨by decide, by decide⟩
      · rcases List.mem_cons.mp hn with rfl | hn
        · exact ⟨by decide, by decide⟩
        · obtain rfl := List.mem_singleton.mp hn
          exact ⟨by decide, by decide⟩
    · cases hn
  distinct d := by
    simp only [lockedDisk]
    split_ifs <;> decide

/-- `opendir` fails for the directory `d`. -/
def lockedDirectory : Failures := fun c path => c = .opendir && path = ascii "/d/"

/-- The state file records the directory `d` and the file `d/a`. -/
def lockedFile : InfoFile := .readable
  (ascii "<?xml version=\"1.0\" encoding=\"ISO-8859-1\"?>\n<sitestate version='1.0'>\n<items>\n" ++
    ascii "<item><type><type-directory/></type><filename>d</filename></item>\n" ++
    ascii "<item><type><type-file/></type><filename>d/a</filename><size>0</size><time>0</time></item>\n" ++
    ascii "</items>\n</sitestate>\n")

end Sitecopy.HiddenPaths
