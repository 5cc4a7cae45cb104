import Sitecopy.LocalSynch
import Sitecopy.SiteInvariants

/-!
# Files lists of all operations

A synch keeps every diff exact and every number of entries, but not the totals. The
invariants of this module hold of all lists that the operations on a site reach, a synch
among them.
-/
namespace Sitecopy.ReachedFiles
open SiteModel FileSet FileSetSpec StateProgram SiteOperations SiteStats SiteUpdate UpdateStats
open LocalSynch

/-! ### Statistics up to the totals -/

/-- The statistics with other totals. -/
def shift (a b : ℤ) (st : Stats) : Stats :=
  { st with totalnew := st.totalnew + a, totalchanged := st.totalchanged + b }

section Shift
variable {a b : ℤ} {o : SiteOptions} {f : SiteFile} {st st' : Stats} {out : Option SiteFile}

/-- What `shift` adds to each counter. -/
def shifted (a b : ℤ) : Counter → ℤ
  | .totalnew => a
  | .totalchanged => b
  | _ => 0

lemma shift_get (c : Counter) : c.get (shift a b st) = c.get st + shifted a b c := by
  cases c <;> simp [Counter.get, shift, shifted]

lemma shift_increase : siteStatsIncrease f (shift a b st) = shift a b (siteStatsIncrease f st) := by
  unfold siteStatsIncrease shift
  cases f.diff <;> cases f.ignore <;> simp [add_right_comm]

lemma shift_decrease : siteStatsDecrease f (shift a b st) = shift a b (siteStatsDecrease f st) := by
  unfold siteStatsDecrease shift
  cases f.diff <;> cases f.ignore <;> simp [sub_add_eq_add_sub]

lemma shift_update : siteStatsUpdate o (shift a b st) = shift a b (siteStatsUpdate o st) := rfl

lemma shift_fileSetDiff :
    fileSetDiff o f (shift a b st) = ((fileSetDiff o f st).1, shift a b (fileSetDiff o f st).2) := by
  simp only [FileSet.fileSetDiff, shift_decrease, shift_increase, shift_update]

lemma shift_shift (a' b' : ℤ) : shift a' b' (shift a b st) = shift (a + a') (b + b') st := by
  simp [shift, add_assoc]

lemma shift_flags : siteStatsUpdate o (shift a b st) = shift a b st ↔ siteStatsUpdate o st = st := by
  cases st
  simp [siteStatsUpdate, shift]

lemma Exchanged.shift (h : Exchanged o f st out st') :
    Exchanged o f (shift a b st) out (shift a b st') where
  entry := h.entry
  moved c := by
    rw [shift_get, shift_get, h.moved c]
    ring
  flags := shift_flags.mpr h.flags

/-- A turn that is balanced up to the totals. -/
def Tallied (o : SiteOptions) (f : SiteFile) (st : Stats) (out : Option SiteFile) (st' : Stats) :
    Prop := ∃ a b, Exchanged o f st out (shift a b st')

lemma Tallied.of_balanced (h : Balanced o f st out st') : Tallied o f st out st' :=
  ⟨0, 0, by simpa [shift] using h.exchanged⟩

/-- Recomputing the diff with another local state moves all but the totals rightly. -/
lemma exchanged_fileSetDiff {g : SiteFile} (ha : g.addr = f.addr) (hd : g.diff = f.diff)
    (hi : g.ignore = f.ignore) :
    Exchanged o f st (some (fileSetDiff o g st).1)
      (shift (weight .totalnew g - weight .totalnew f)
        (weight .totalchanged g - weight .totalchanged f) (fileSetDiff o g st).2) := by
  refine ⟨?_, fun c => ?_, shift_flags.mpr rfl⟩
  · intro x hx
    rw [← Option.mem_some_iff.mp hx]
    exact ⟨ha, rfl⟩
  · rw [shift_get]
    simp only [FileSet.fileSetDiff, update_get, increase_get, decrease_get, Option.map_some,
      Option.getD_some]
    cases c <;> simp only [shifted, weight, hd, hi] <;> ring

lemma tallied_fileSetDiff {g : SiteFile} (ha : g.addr = f.addr) (hd : g.diff = f.diff)
    (hi : g.ignore = f.ignore) :
    Tallied o f st (some (fileSetDiff o g st).1) (fileSetDiff o g st).2 :=
  ⟨_, _, exchanged_fileSetDiff ha hd hi⟩

end Shift

/-! ### Lists with exact counters -/

/-- `ExactList` up to the totals. -/
def CountedList (o : SiteOptions) (addrs : List ℕ) (files : List SiteFile) (st : Stats) : Prop :=
  ∃ a b, ExactList o addrs files (shift a b st)

lemma CountedList.compared {o : SiteOptions} {addrs : List ℕ} {files : List SiteFile} {st : Stats}
    (h : CountedList o addrs files st) : ∀ f ∈ files, Compared o f := by
  obtain ⟨a, b, h⟩ := h
  exact h.exact.compared

lemma CountedList.flags {o : SiteOptions} {addrs : List ℕ} {files : List SiteFile} {st : Stats}
    (h : CountedList o addrs files st) : siteStatsUpdate o st = st := by
  obtain ⟨a, b, h⟩ := h
  exact shift_flags.mp h.exact.flags

lemma CountedList.replace {o : SiteOptions} {addrs : List ℕ} {file : SiteFile} {st st' : Stats}
    {pre post : List SiteFile} {out : Option SiteFile}
    (h : CountedList o addrs (pre ++ file :: post) st) (hb : Tallied o file st out st') :
    CountedList o addrs (pre ++ out.toList ++ post) st' := by
  obtain ⟨a, b, h⟩ := h
  obtain ⟨a', b', hb⟩ := hb
  refine ⟨a' + a, b' + b, ?_⟩
  rw [← shift_shift]
  exact h.replace (Exchanged.shift hb)

/-- `ExactSite` up to the totals. -/
def CountedSite (site : Site) : Prop :=
  ∃ a b, ExactSite { site with stats := shift a b site.stats }

lemma ExactSite.counted {site : Site} (h : ExactSite site) : CountedSite site :=
  ⟨0, 0, by simpa [shift] using h⟩

lemma CountedSite.linked {site : Site} (h : CountedSite site) : WellLinked site := by
  obtain ⟨a, b, h⟩ := h
  exact ⟨h.linked.nodup, h.linked.bounded⟩

lemma CountedSite.list {site : Site} (h : CountedSite site) :
    CountedList site.opts (site.files.map SiteFile.addr) site.files site.stats := by
  obtain ⟨a, b, h⟩ := h
  exact ⟨a, b, h.list⟩

lemma CountedSite.update {site : Site} {files : List SiteFile} {st : Stats} (h : CountedSite site)
    (hl : CountedList site.opts (site.files.map SiteFile.addr) files st) :
    CountedSite { site with files := files, stats := st } := by
  obtain ⟨a', b', h⟩ := h
  obtain ⟨a, b, hl⟩ := hl
  exact ⟨a, b, @ExactSite.update { site with stats := shift a' b' site.stats } _ _ h hl⟩

lemma setSlot_shift (a b : ℤ) (alpha : Slot) (type : FileType) (state : FileState) (site : Site) :
    setSlot alpha type state { site with stats := shift a b site.stats } =
      ({ (setSlot alpha type state site).1 with
        stats := shift a b (setSlot alpha type state site).1.stats },
        (setSlot alpha type state site).2) := by
  have hsame : choosePlacement type state { site with stats := shift a b site.stats } alpha.other =
      choosePlacement type state site alpha.other := rfl
  unfold setSlot fileSet
  rw [hsame]
  cases choosePlacement type state site alpha.other with
  | create =>
    simp [updateStats, addStats, fileInsert, newEntry, fresh, shift_increase, shift_update]
  | reuse old diff =>
    dsimp only
    split_ifs <;> simp [updateStats, addStats, dropStats, fileInsert, write, shovedEntry, fresh,
      shift_increase, shift_decrease, shift_update]

lemma CountedSite.setSlot {site : Site} (h : CountedSite site) (alpha : Slot) (type : FileType)
    {state : FileState} (hs : state.existing = true) :
    CountedSite (setSlot alpha type state site).1 := by
  obtain ⟨a, b, h⟩ := h
  refine ⟨a, b, ?_⟩
  have he := @setSlot_exact type state _ alpha h hs
  rwa [setSlot_shift] at he

lemma shift_mungeModtime {a b : ℤ} (o : SiteOptions) (f : SiteFile) (mtime now : ℤ) (st : Stats) :
    mungeModtime o f mtime now (shift a b st) =
      ((mungeModtime o f mtime now st).1, shift a b (mungeModtime o f mtime now st).2) := by
  unfold mungeModtime
  dsimp only
  split_ifs
  all_goals first
    | exact shift_fileSetDiff
    | rfl

lemma CountedSite.fetchAdd {site : Site} (h : CountedSite site) (pf : ProtoFile) (now : ℤ) :
    CountedSite (fetchAddFile pf now site).1 := by
  obtain ⟨a, b, h⟩ := h
  refine ⟨a, b, ?_⟩
  have he := fetchAddFile_exact h pf now
  have hset := setSlot_shift a b .storedSlot (fetchedType pf.type) (fetchedState site.opts pf) site
  rw [setSlot_stored, setSlot_stored] at hset
  unfold fetchAddFile at he ⊢
  dsimp only at he
  rw [hset] at he
  simp only [shift_mungeModtime] at he
  exact he

/-! ### What the passes make of an entry -/

/-- The body of the loop of a phase. -/
def turn {σ : Type} (env : Env σ) (o : SiteOptions) :
    Phase → SiteFile → StateM (Run σ) Outcome
  | .deleteFiles => updateDeleteFile env o
  | .createDirectories => updateCreateDirectory env o
  | .moveFiles => updateMoveFile env o
  | .files => updateFile env o
  | .deleteDirectories => updateDeleteDirectory env o

section Entries
variable {σ : Type} {env : Env σ} {o : SiteOptions} {f : SiteFile} {r : Run σ}

/-- The stored states that an update may leave: the old one, the old one with the local
mode, or the local state. -/
inductive StoredAfter (o : SiteOptions) (f : SiteFile) : FileState → Prop
  | kept : StoredAfter o f f.storedState
  | mode : f.localState.existing = true → f.storedState.existing = true →
      StoredAfter o f { f.storedState with mode := f.localState.mode }
  | uploaded : f.localState.existing = true → StoredAfter o f (uploadedState o f)

/-- Whatever the turn leaves of the entry has one of those stored states. -/
def Stores (o : SiteOptions) (f : SiteFile) (r : Run σ) (m : StateM (Run σ) Outcome) : Prop :=
  Ends m r fun out _ => ∀ g, out.1 = some g → StoredAfter o f g.storedState

lemma stores_kept : ∀ g, some f = some g → StoredAfter o f g.storedState := by
  rintro g ⟨⟩
  exact .kept

lemma stores_uploaded (h : f.localState.existing = true) :
    ∀ g, some (fileSetDiff o { f with storedState := uploadedState o f } r.stats).1 = some g →
      StoredAfter o f g.storedState := by
  rintro g ⟨⟩
  exact .uploaded h

lemma updateDeleteFile_stores : Stores o f r (updateDeleteFile env o f) := by
  unfold Stores updateDeleteFile
  simp only [ends_ite, ends_bind, ends_pure, ends_feCanUpdate, ends_call, ends_driverErr,
    ends_deleteEntry]
  split_ifs
  all_goals first
    | exact stores_kept
    | simp

lemma updateDeleteDirectory_stores : Stores o f r (updateDeleteDirectory env o f) := by
  unfold Stores updateDeleteDirectory
  simp only [ends_ite, ends_bind, ends_pure, ends_feCanUpdate, ends_call, ends_driverErr,
    ends_deleteEntry]
  split_ifs
  all_goals first
    | exact stores_kept
    | simp

lemma updateMoveFile_stores (hc : Compared o f) : Stores o f r (updateMoveFile env o f) := by
  unfold Stores updateMoveFile
  simp only [ends_ite, ends_bind, ends_pure, ends_feCanUpdate, ends_call, ends_driverErr,
    ends_fileUploaded]
  split_ifs with hd
  · exact stores_kept
  · exact stores_uploaded (fileCompare_both (hc.symm.trans hd) (by decide) (by decide)).1
  · exact stores_kept
  · exact stores_kept

lemma updateCreateDirectory_stores (hc : Compared o f) :
    Stores o f r (updateCreateDirectory env o f) := by
  unfold Stores updateCreateDirectory finishDirectory
  simp only [ends_ite, ends_bind, ends_pure, ends_feCanUpdate, ends_call, ends_driverErr,
    ends_fileUploaded]
  split_ifs with hd
  all_goals first
    | exact stores_kept
    | exact stores_uploaded (hc.localExisting hd.2)

/-- `file_chmod` between an upload and its record leaves nothing that the record does not
overwrite. -/
lemma fileChmod_stores : Ends (fileChmod env o f) r fun out _ =>
    out.1.localState = f.localState ∧ uploadedState o out.1 = uploadedState o f ∧
      (out.1.storedState = f.storedState ∨
        out.1.storedState = { f.storedState with mode := f.localState.mode }) := by
  unfold fileChmod
  simp only [ends_ite, ends_bind, ends_pure, ends_call, ends_driverErr, ends_setDiff]
  have hmode : uploadedState o
      { f with storedState := { f.storedState with mode := f.localState.mode } } =
        uploadedState o f := by
    cases hm : o.stateMethod <;> simp [uploadedState, hm]
  split_ifs
  · simp
  · exact ⟨rfl, hmode, Or.inr rfl⟩
  · simp

lemma finishUpload_stores (h : f.localState.existing = true) :
    Stores o f r (finishUpload env o f) := by
  unfold Stores finishUpload
  simp only [ends_bind, ends_pure, ends_fileUploaded]
  apply fileChmod_stores.mono
  rintro out r' ⟨_, hu, _⟩ g ⟨⟩
  change StoredAfter o f (uploadedState o out.1)
  rw [hu]
  exact .uploaded h

/-- Asking for the server's time changes nothing here. -/
lemma retrieve_finishUpload_stores (h : f.localState.existing = true) :
    Ends (fileRetrieveServer env o f) r fun g r' =>
      Ends (finishUpload env o g) r' fun out _ =>
        ∀ g', out.1 = some g' → StoredAfter o f g'.storedState := by
  have hafter : ∀ {s t : FileState}, StoredAfter o { f with serverState := t } s →
      StoredAfter o f s := by
    rintro s t (_ | ⟨hl, hs⟩ | hl)
    · exact .kept
    · exact .mode hl hs
    · exact .uploaded hl
  unfold fileRetrieveServer
  simp only [ends_ite, ends_bind, ends_pure, ends_call, ends_driverErr]
  split_ifs
  all_goals
    apply (finishUpload_stores (by exact h)).mono
    exact fun out r' hout g hg => hafter (hout g hg)

lemma finishPlainUpload_stores (h : f.localState.existing = true) :
    Stores o f r (finishPlainUpload env o f) := by
  unfold Stores finishPlainUpload
  simp only [ends_ite, ends_bind, ends_pure]
  split_ifs
  · exact retrieve_finishUpload_stores h
  · exact finishUpload_stores h

lemma uploadFile_stores (h : f.localState.existing = true) :
    Stores o f r (uploadFile env o f) := by
  unfold Stores uploadFile
  simp only [ends_ite, ends_bind, ends_pure, ends_call, ends_driverErr]
  split_ifs
  all_goals first
    | exact stores_kept
    | exact finishPlainUpload_stores h
    | exact retrieve_finishUpload_stores h

lemma updateNewFile_stores (h : f.localState.existing = true) :
    Stores o f r (updateNewFile env o f) := by
  unfold Stores updateNewFile
  simp only [ends_ite, ends_bind, ends_pure, ends_feCanUpdate, ends_call, ends_driverErr]
  split_ifs
  all_goals first
    | exact stores_kept
    | exact uploadFile_stores h

lemma updateFile_stores (hc : Compared o f) : Stores o f r (updateFile env o f) := by
  unfold Stores updateFile
  by_cases ht : f.type ≠ .file
  · rw [if_pos ht]
    exact stores_kept
  · rw [if_neg ht]
    cases hd : f.diff with
    | unchanged | deleted | moved => exact stores_kept
    | new => exact updateNewFile_stores (hc.localExisting (Or.inl hd))
    | changed =>
      have hboth := fileCompare_both (hc.symm.trans hd) (by decide) (by decide)
      simp only [ends_ite, ends_bind, ends_pure]
      split_ifs
      · exact stores_kept
      · apply fileChmod_stores.mono
        rintro out r' ⟨_, _, hs⟩ g ⟨⟩
        rcases hs with hs | hs
        · rw [hs]
          exact .kept
        · rw [hs]
          exact .mode hboth.1 hboth.2
      · exact updateNewFile_stores hboth.1

/-- What a turn of a pass may leave of an entry. -/
theorem turn_stores (p : Phase) (hc : Compared o f) : Stores o f r (turn env o p f) := by
  cases p with
  | deleteFiles => exact updateDeleteFile_stores
  | createDirectories => exact updateCreateDirectory_stores hc
  | moveFiles => exact updateMoveFile_stores hc
  | files => exact updateFile_stores hc
  | deleteDirectories => exact updateDeleteDirectory_stores

end Entries

/-! ### Entries -/

/-- What every entry of a reached list satisfies. -/
structure EntryOk (o : SiteOptions) (f : SiteFile) : Prop where
  compared : Compared o f
  ignored : f.ignore = true → f.type = .file
  /-- two names were matched by a move, which leaves nothing but the name to differ -/
  renamed : f.localState.existing = true → f.storedState.existing = true →
    f.localState.filename ≠ f.storedState.filename →
      f.type = .file ∧ f.localState.ascii = f.storedState.ascii ∧
        (permsCompared o f.localState f.storedState && f.localState.mode ≠ f.storedState.mode) =
          false
  clearedLocal : f.localState.existing = false → f.localState = {}
  clearedStored : f.storedState.existing = false → f.storedState = {}
  present : f.localState.existing = true ∨ f.storedState.existing = true

section EntryOk
variable {o : SiteOptions} {f g : SiteFile}

/-- An entry whose states have the same name. -/
lemma EntryOk.synced (h : EntryOk o f) (ht : g.type = f.type) (hi : g.ignore = f.ignore)
    (hl : g.localState.existing = true) (hs : g.storedState.existing = true)
    (hn : g.localState.filename = g.storedState.filename) (hc : Compared o g) : EntryOk o g where
  compared := hc
  ignored hig := ht.trans (h.ignored (hi.symm.trans hig))
  renamed _ _ hne := absurd hn hne
  clearedLocal hx := by rw [hl] at hx; cases hx
  clearedStored hx := by rw [hs] at hx; cases hx
  present := Or.inl hl

/-- A change of the server state only. -/
lemma EntryOk.server (h : EntryOk o f) (s : FileState) : EntryOk o { f with serverState := s } :=
  ⟨h.compared, h.ignored, h.renamed, h.clearedLocal, h.clearedStored, h.present⟩

/-- The stored states that an update leaves. -/
lemma EntryOk.stored (h : EntryOk o f) (ht : g.type = f.type) (hi : g.ignore = f.ignore)
    (hl : g.localState = f.localState) (hs : StoredAfter o f g.storedState) (hc : Compared o g) :
    EntryOk o g := by
  generalize hgs : g.storedState = s at hs
  cases hs with
  | kept =>
    refine ⟨hc, fun hig => ht.trans (h.ignored (hi.symm.trans hig)), ?_, ?_, ?_, ?_⟩
    · rw [hl, hgs, ht]
      exact h.renamed
    · rw [hl]
      exact h.clearedLocal
    · rw [hgs]
      exact h.clearedStored
    · rw [hl, hgs]
      exact h.present
  | mode hlocal hstored =>
    refine ⟨hc, fun hig => ht.trans (h.ignored (hi.symm.trans hig)), ?_, ?_, ?_, ?_⟩
    · rw [hl, hgs, ht]
      intro _ _ hne
      obtain ⟨hfile, hascii, _⟩ := h.renamed hlocal hstored hne
      exact ⟨hfile, hascii, by simp⟩
    · rw [hl]
      exact h.clearedLocal
    · rw [hgs]
      intro hx
      rw [hstored] at hx
      cases hx
    · rw [hl]
      exact Or.inl hlocal
  | uploaded hlocal =>
    apply h.synced ht hi
    · rw [hl, hlocal]
    · rw [hgs, uploadedState_existing, hlocal]
    · rw [hl, hgs, uploadedState_filename]
    · exact hc

/-- A local state is recorded as downloaded. -/
lemma EntryOk.downloaded (h : EntryOk o f) (hs : f.storedState.existing = true) (st : Stats) :
    EntryOk o (fileSetDiff o { f with localState := downloadedState o f } st).1 :=
  h.synced rfl rfl hs hs rfl rfl

end EntryOk

/-! ### Loops -/

/-- What every loop over a reached list keeps. -/
structure ReachedList (o : SiteOptions) (addrs : List ℕ) (files : List SiteFile) (st : Stats) :
    Prop where
  counted : CountedList o addrs files st
  entries : ∀ f ∈ files, EntryOk o f

/-- A turn after which the list is a reached one again. -/
def GoodTurn (o : SiteOptions) (f : SiteFile) (st : Stats) (out : Option SiteFile) (st' : Stats) :
    Prop := Tallied o f st out st' ∧ ∀ g, out = some g → EntryOk o g

lemma ReachedList.replace {o : SiteOptions} {addrs : List ℕ} {f : SiteFile} {st st' : Stats}
    {pre post : List SiteFile} {out : Option SiteFile}
    (h : ReachedList o addrs (pre ++ f :: post) st) (hg : GoodTurn o f st out st') :
    ReachedList o addrs (pre ++ out.toList ++ post) st' where
  counted := h.counted.replace hg.1
  entries g hm := by
    simp only [List.mem_append, Option.mem_toList] at hm
    rcases hm with (hm | hm) | hm
    · exact h.entries g (by simp [hm])
    · exact hg.2 g hm
    · exact h.entries g (by simp [hm])

section Loops
variable {s : Type} {o : SiteOptions} {body : SiteFile → StateM s Outcome} {addrs : List ℕ}
  {files : List SiteFile} {t : s}

/-- Good turns of the body of a loop; `stats` reads the statistics out of the state. -/
def GoodBody (o : SiteOptions) (stats : s → Stats) (body : SiteFile → StateM s Outcome) : Prop :=
  ∀ f t, EntryOk o f → siteStatsUpdate o (stats t) = stats t →
    Ends (body f) t fun r t' => GoodTurn o f (stats t) r.1 (stats t')

lemma GoodBody.forEach {stats : s → Stats} (hbody : GoodBody o stats body)
    (h : ReachedList o addrs files (stats t)) :
    Ends (forEach body files) t fun r t' => ReachedList o addrs r.1 (stats t') := by
  apply (forEach_ends (I := fun done rest _ t => ReachedList o addrs (done ++ rest) (stats t))
    _ h).mono
  · intro r t' hr
    simpa using hr
  · intro done f rest failed t hI
    apply (hbody f t (hI.entries f (by simp)) hI.counted.flags).mono
    intro r t' hg
    simpa using hI.replace hg

lemma GoodBody.forEachBackward {stats : s → Stats} (hbody : GoodBody o stats body)
    (h : ReachedList o addrs files (stats t)) :
    Ends (forEachBackward body files) t fun r t' => ReachedList o addrs r.1 (stats t') := by
  apply (forEachBackward_ends
    (I := fun rest done _ t => ReachedList o addrs (rest ++ done) (stats t)) _ (by simpa)).mono
  · intro r t' hr
    simpa using hr
  · intro rest f done failed t hI
    rw [List.append_assoc] at hI
    apply (hbody f t (hI.entries f (by simp)) hI.counted.flags).mono
    intro r t' hg
    simpa using hI.replace hg

end Loops

/-! ### The bodies -/

lemma turn_balanced {σ : Type} {env : Env σ} {o : SiteOptions} {f : SiteFile} {r : Run σ}
    (p : Phase) (hc : Compared o f) (hf : siteStatsUpdate o r.stats = r.stats) :
    BalancedTurn o f r (turn env o p f) := by
  cases p with
  | deleteFiles => exact updateDeleteFile_balanced hc hf
  | createDirectories => exact updateCreateDirectory_balanced hc hf
  | moveFiles => exact updateMoveFile_balanced hc hf
  | files => exact updateFile_balanced hc hf
  | deleteDirectories => exact updateDeleteDirectory_balanced hc hf

lemma turn_good {σ : Type} (env : Env σ) (o : SiteOptions) (p : Phase) :
    GoodBody o Run.stats (turn env o p) := by
  intro f r h hf
  have hb : BalancedTurn o f r (turn env o p f) := turn_balanced p h.compared hf
  have hs : Stores o f r (turn env o p f) := turn_stores p h.compared
  apply (Ends.and hb hs).mono
  rintro out r' ⟨hb, hs⟩
  refine ⟨Tallied.of_balanced hb, fun g hg => ?_⟩
  obtain ⟨_, ht, hi, hl, hc⟩ := hb.entry g hg
  exact h.stored ht hi hl (hs g hg) hc

section Synch
variable {σ : Type} (env : SynchEnv σ) (o : SiteOptions)

lemma good_kept {f : SiteFile} {st : Stats} (h : EntryOk o f) (hf : siteStatsUpdate o st = st) :
    GoodTurn o f st (some f) st := by
  refine ⟨Tallied.of_balanced (Balanced.keep h.compared hf), ?_⟩
  rintro g ⟨⟩
  exact h

lemma good_downloaded {f : SiteFile} {st : Stats} (h : EntryOk o f)
    (hs : f.storedState.existing = true) :
    GoodTurn o f st (some (fileSetDiff o { f with localState := downloadedState o f } st).1)
      (fileSetDiff o { f with localState := downloadedState o f } st).2 := by
  refine ⟨tallied_fileSetDiff rfl rfl rfl, ?_⟩
  rintro g ⟨⟩
  exact h.downloaded hs st

/-- Wherever the local file is missing or differs, there is a stored one. -/
lemma EntryOk.storedExisting {f : SiteFile} (h : EntryOk o f)
    (hd : f.diff = .deleted ∨ f.diff = .changed) : f.storedState.existing = true := by
  rcases hd with hd | hd
  · have hl := fileCompare_deleted_iff.mp (h.compared.symm.trans hd)
    exact h.present.resolve_left (by simp [hl])
  · exact (fileCompare_both (h.compared.symm.trans hd) (by decide) (by decide)).2

lemma synchCreateDirectory_good : GoodBody o SynchRun.stats (synchCreateDirectory env o) := by
  intro f r h hf
  unfold synchCreateDirectory
  simp only [ends_ite, ends_bind, ends_pure, ends_localCall, ends_fileDownloaded]
  split_ifs with hd
  · exact good_kept o h hf
  · exact good_downloaded o h (h.storedExisting o (Or.inl hd.2))
  · exact good_kept o h hf

lemma downloadFile_good {f : SiteFile} {r : SynchRun σ} (h : EntryOk o f)
    (hf : siteStatsUpdate o r.stats = r.stats) (hd : f.diff = .deleted ∨ f.diff = .changed) :
    Ends (downloadFile env o f) r fun out r' => GoodTurn o f r.stats out.1 r'.stats := by
  unfold downloadFile restoreTime restorePerms
  simp only [ends_ite, ends_bind, ends_pure, ends_driverCall, ends_localCall, ends_fileDownloaded]
  split_ifs
  all_goals first
    | exact good_kept o h hf
    | exact good_downloaded o h (h.storedExisting o hd)

lemma synchFile_good : GoodBody o SynchRun.stats (synchFile env o) := by
  intro f r h hf
  unfold synchFile
  by_cases ht : f.type ≠ .file
  · rw [if_pos ht]
    exact good_kept o h hf
  · rw [if_neg ht]
    cases hd : f.diff with
    | unchanged | new | moved => exact good_kept o h hf
    | deleted => exact downloadFile_good env o h hf (Or.inl hd)
    | changed =>
      simp only [ends_ite, ends_bind, ends_pure, ends_localCall]
      split_ifs
      · exact good_kept o h hf
      · exact downloadFile_good env o h hf (Or.inr hd)

lemma synchDeleteDirectory_good : GoodBody o SynchRun.stats (synchDeleteDirectory env o) := by
  intro f r h hf
  unfold synchDeleteDirectory
  simp only [ends_ite, ends_bind, ends_pure, ends_localCall, ends_synchDelete]
  split_ifs
  · exact ⟨Tallied.of_balanced Balanced.fileDelete, by simp⟩
  · exact good_kept o h hf
  · exact good_kept o h hf

end Synch

lemma catchupFile_good (o : SiteOptions) : GoodBody o id (catchupFile o) := by
  intro f st h hf
  have hb := catchupFile_balanced h.compared hf
  refine ⟨Tallied.of_balanced hb, ?_⟩
  unfold catchupFile
  cases hd : f.diff with
  | unchanged =>
    rintro g ⟨⟩
    exact h
  | deleted => simp [dropFile]
  | changed | new | moved =>
    have hl : f.localState.existing = true := by
      by_contra hl
      rw [h.compared, fileCompare_deleted_iff.mpr (Bool.eq_false_of_not_eq_true hl)] at hd
      cases hd
    rintro g ⟨⟩
    exact h.synced rfl rfl hl hl rfl rfl

lemma destroyStoredFile_good (o : SiteOptions) : GoodBody o id (destroyStoredFile o) := by
  intro f st h hf
  refine ⟨Tallied.of_balanced destroyStoredFile_balanced, ?_⟩
  unfold destroyStoredFile
  by_cases hl : f.localState.existing = true
  · simp only [hl, Bool.not_true, Bool.false_eq_true, ↓reduceIte]
    rintro g ⟨⟩
    exact ⟨rfl, h.ignored, fun _ hs => (by cases hs), h.clearedLocal, fun _ => rfl, Or.inl hl⟩
  · simp [hl, dropFile]

/-! ### Sites -/

structure ReachedSite (site : Site) : Prop where
  counted : CountedSite site
  entries : ∀ f ∈ site.files, EntryOk site.opts f

lemma ReachedSite.list {site : Site} (h : ReachedSite site) :
    ReachedList site.opts (site.files.map SiteFile.addr) site.files site.stats :=
  ⟨h.counted.list, h.entries⟩

lemma ReachedSite.update {site : Site} {files : List SiteFile} {st : Stats} (h : ReachedSite site)
    (hl : ReachedList site.opts (site.files.map SiteFile.addr) files st) :
    ReachedSite { site with files := files, stats := st } :=
  ⟨h.counted.update hl.counted, hl.entries⟩

section FileSet
variable {type : FileType} {state : FileState} {site : Site} {alpha : Slot} {f : SiteFile}

/-- An entry that holds one existing state only. -/
lemma entryOk_alone {o : SiteOptions} (alpha : Slot) (hs : (alpha.get f).existing = true)
    (ho : alpha.other.get f = {}) (hd : f.diff = alpha.defaultDiff)
    (hi : f.ignore = true → f.type = .file) : EntryOk o f := by
  have hno : (alpha.other.get f).existing = false := by rw [ho]
  refine ⟨compared_alone hs hno hd, hi, ?_, ?_, ?_, ?_⟩
  all_goals
    cases alpha <;> simp only [Slot.get, Slot.other] at hs ho <;> simp [hs, ho]

/-- Matching two states with different names leaves nothing but the name to differ. -/
lemma entryOk_reused {old : SiteFile} {diff : FileDiff} (hs : state.existing = true)
    (hp : choosePlacement type state site alpha.other = .reuse old diff)
    (h : EntryOk site.opts old) : EntryOk site.opts (reusedEntry state alpha old diff) := by
  have hr := choosePlacement_reuse hp
  have hc := compared_reused hs hr
  refine ⟨hc, ?_, fun hl hst hne => ?_, ?_, ?_, ?_⟩
  · simpa [reusedEntry] using h.ignored
  · obtain ⟨_, ⟨hd, _⟩ | ⟨_, hmoved⟩⟩ := choosePlacement_source hp
    · simp only [isDirect, Bool.and_eq_true, decide_eq_true_eq] at hd
      exfalso
      apply hne
      cases alpha
      · exact hd.2.symm
      · exact hd.2
    · have hcmp : fileCompare (reusedEntry state alpha old diff).type
          (reusedEntry state alpha old diff).localState
          (reusedEntry state alpha old diff).storedState site.opts = .moved := by
        rw [← hc]
        simpa [reusedEntry] using hmoved
      obtain ⟨ht, _⟩ := fileCompare_moved hcmp
      rw [ht, fileCompare_file hl hst] at hcmp
      split_ifs at hcmp with _ hascii hperms
      exact ⟨ht, not_not.mp hascii, Bool.eq_false_of_not_eq_true hperms⟩
  · cases alpha
    · intro hx
      rw [reusedEntry, Slot.put, hs] at hx
      cases hx
    · exact h.clearedLocal
  · cases alpha
    · exact h.clearedStored
    · intro hx
      rw [reusedEntry, Slot.put, hs] at hx
      cases hx
  · cases alpha
    · exact Or.inl hs
    · exact Or.inr hs

lemma setSlot_entries (wl : WellLinked site) (h : ∀ f ∈ site.files, EntryOk site.opts f)
    (hs : state.existing = true) :
    ∀ f ∈ (setSlot alpha type state site).1.files, EntryOk site.opts f := by
  intro f hm
  obtain hm | ⟨-, rfl⟩ | ⟨old, diff, hp, rfl | ⟨hex, rfl⟩⟩ := mem_fileSet wl hm
  · exact h f hm
  · apply entryOk_alone alpha
    · simp [newEntry, hs]
    · cases alpha <;> rfl
    · simp [newEntry]
    · simp only [newEntry, Slot.put_ignore, Slot.put_type]
      split_ifs with ht
      · exact fun _ => ht
      · rintro ⟨⟩
  · exact entryOk_reused hs hp (h old (choosePlacement_reuse hp).mem)
  · apply entryOk_alone alpha
    · simp [shovedEntry, hex]
    · cases alpha <;> rfl
    · simp [shovedEntry]
    · simpa [shovedEntry] using (h old (choosePlacement_reuse hp).mem).ignored

lemma ReachedSite.setSlot (h : ReachedSite site) (alpha : Slot) (hs : state.existing = true) :
    ReachedSite (setSlot alpha type state site).1 where
  counted := h.counted.setSlot alpha type hs
  entries := by
    have ho : (FileSet.setSlot alpha type state site).1.opts = site.opts := fileSet_opts
    rw [ho]
    exact setSlot_entries h.counted.linked h.entries hs

/-- The entry that `file_set` returns holds the state. -/
lemma setSlot_get : alpha.get (FileSet.setSlot alpha type state site).2 = state := by
  unfold FileSet.setSlot fileSet
  cases choosePlacement type state site alpha.other <;> simp [newEntry]

end FileSet

/-- Another modification time of the stored state. -/
lemma EntryOk.storedTime {o : SiteOptions} {f : SiteFile} (h : EntryOk o f)
    (hs : f.storedState.existing = true) (t : ℤ) (st : Stats) :
    EntryOk o (fileSetDiff o { f with storedState := { f.storedState with time := t } } st).1 where
  compared := rfl
  ignored := h.ignored
  renamed := h.renamed
  clearedLocal := h.clearedLocal
  clearedStored hx := by
    change f.storedState.existing = false at hx
    rw [hs] at hx
    cases hx
  present := h.present

lemma ReachedSite.fetchAdd {site : Site} (h : ReachedSite site) (pf : ProtoFile) (now : ℤ) :
    ReachedSite (fetchAddFile pf now site).1 where
  counted := h.counted.fetchAdd pf now
  entries := by
    have hset : ReachedSite (fileSetStored (fetchedType pf.type) (fetchedState site.opts pf) site).1 :=
      h.setSlot .storedSlot rfl
    have hmem := @setSlot_mem (fetchedType pf.type) (fetchedState site.opts pf) _ .storedSlot
      h.counted.linked
    have hget : (fileSetStored (fetchedType pf.type) (fetchedState site.opts pf) site).2.storedState =
        fetchedState site.opts pf := @setSlot_get _ _ _ .storedSlot
    have ho : (fileSetStored (fetchedType pf.type) (fetchedState site.opts pf) site).1.opts =
        site.opts := fileSet_opts
    have hopts : (fetchAddFile pf now site).1.opts = site.opts := fileSet_opts
    rw [setSlot_stored] at hmem
    rw [hopts]
    unfold fetchAddFile
    generalize fileSetStored (fetchedType pf.type) (fetchedState site.opts pf) site = r
      at hset hmem hget ho ⊢
    intro f hf
    have hfile := hset.entries r.2 hmem
    rw [ho] at hfile
    have hmunged : EntryOk site.opts (mungeModtime site.opts r.2 pf.modtime now r.1.stats).1 := by
      unfold mungeModtime
      dsimp only
      split_ifs
      · exact hfile.storedTime (by rw [hget]; rfl) _ _
      · exact hfile.storedTime (by rw [hget]; rfl) _ _
      · exact hfile.storedTime (by rw [hget]; rfl) _ _
      · exact hfile
    simp only [write, List.mem_map] at hf
    obtain ⟨x, hx, rfl⟩ := hf
    have hold := hset.entries x hx
    rw [ho] at hold
    split_ifs
    · exact hmunged.server _
    · exact hold
    · exact hmunged
    · exact hold

/-- The local passes of a synch. -/
inductive SynchPhase
  | createDirectories
  | files
  | deleteDirectories
  deriving DecidableEq, Repr

def SynchPhase.pass {σ : Type} (env : SynchEnv σ) (o : SiteOptions) : SynchPhase → SynchPass σ
  | .createDirectories => synchCreateDirectories env o
  | .files => synchFiles env o
  | .deleteDirectories => synchDeleteDirectories env o

/-- The site after one pass of a synch. -/
def runSynchPhase {σ : Type} (env : SynchEnv σ) (sess : σ) (p : SynchPhase) (site : Site) : Site :=
  let r := (p.pass env site.opts site.files).run { stats := site.stats, sess := sess }
  { site with files := r.1.1, stats := r.2.stats }

/-- The sites reached from the empty list by any sequence of operations, a synch among them. -/
inductive Reached (o : SiteOptions) : Site → Prop
  | empty : Reached o { opts := o }
  | setLocal {site : Site} (type : FileType) (state : FileState) :
      Reached o site → state.existing = true → Reached o (fileSetLocal type state site).1
  | setStored {site : Site} (type : FileType) (state : FileState) :
      Reached o site → state.existing = true → Reached o (fileSetStored type state site).1
  | fetchAdd {site : Site} (pf : ProtoFile) (now : ℤ) :
      Reached o site → Reached o (fetchAddFile pf now site).1
  | catchup {site : Site} : Reached o site → Reached o (siteCatchup site)
  | destroyStored {site : Site} : Reached o site → Reached o (siteDestroyStored site)
  | destroy {site : Site} : Reached o site → Reached o (siteDestroy site)
  | phase {site : Site} {σ : Type} (env : Env σ) (sess : σ) (p : Phase) :
      Reached o site → Reached o (runPhase env sess p site)
  | synchPhase {site : Site} {σ : Type} (env : SynchEnv σ) (sess : σ) (p : SynchPhase) :
      Reached o site → Reached o (runSynchPhase env sess p site)

lemma ReachedSite.visitFiles {site : Site} (h : ReachedSite site)
    {body : SiteFile → StateM Stats Outcome} (hbody : GoodBody site.opts id body) :
    ReachedSite (visitFiles body site) :=
  h.update (hbody.forEach h.list)

lemma ReachedSite.phase {σ : Type} {site : Site} (h : ReachedSite site) (env : Env σ) (sess : σ)
    (p : Phase) : ReachedSite (runPhase env sess p site) := by
  apply h.update
  cases p with
  | deleteFiles => exact (turn_good env site.opts .deleteFiles).forEach h.list
  | createDirectories => exact (turn_good env site.opts .createDirectories).forEach h.list
  | moveFiles => exact (turn_good env site.opts .moveFiles).forEach h.list
  | files => exact (turn_good env site.opts .files).forEach h.list
  | deleteDirectories => exact (turn_good env site.opts .deleteDirectories).forEachBackward h.list

lemma synchPass_good {σ : Type} {o : SiteOptions} {addrs : List ℕ} {files : List SiteFile}
    {r : SynchRun σ} (env : SynchEnv σ) (p : SynchPhase) (h : ReachedList o addrs files r.stats) :
    Ends (p.pass env o files) r fun out r' => ReachedList o addrs out.1 r'.stats := by
  cases p with
  | createDirectories => exact (synchCreateDirectory_good env o).forEach h
  | files => exact (synchFile_good env o).forEach h
  | deleteDirectories => exact (synchDeleteDirectory_good env o).forEachBackward h

lemma ReachedSite.synchPhase {σ : Type} {site : Site} (h : ReachedSite site) (env : SynchEnv σ)
    (sess : σ) (p : SynchPhase) : ReachedSite (runSynchPhase env sess p site) :=
  h.update (synchPass_good env p h.list)

theorem Reached.opts_eq {o : SiteOptions} {site : Site} (h : Reached o site) : site.opts = o := by
  induction h with
  | empty => rfl
  | setLocal type state _ _ ih => exact fileSet_opts.trans ih
  | setStored type state _ _ ih => exact fileSet_opts.trans ih
  | fetchAdd pf now _ ih => exact fileSet_opts.trans ih
  | catchup _ ih | destroyStored _ ih | destroy _ ih => exact ih
  | phase env sess p _ ih => exact ih
  | synchPhase env sess p _ ih => exact ih

theorem Reached.reachedSite {o : SiteOptions} {site : Site} (h : Reached o site) :
    ReachedSite site := by
  induction h with
  | empty => exact ⟨ExactSite.counted (.empty o), by simp⟩
  | setLocal type state _ hs ih => exact ih.setSlot .localSlot hs
  | setStored type state _ hs ih => exact ih.setSlot .storedSlot hs
  | fetchAdd pf now _ ih => exact ih.fetchAdd pf now
  | catchup _ ih => exact ih.visitFiles (catchupFile_good _)
  | destroyStored _ ih => exact ih.visitFiles (destroyStoredFile_good _)
  | destroy _ ih =>
    apply ih.visitFiles
    intro f st h hf
    exact ⟨Tallied.of_balanced Balanced.fileDelete, by simp [dropFile]⟩
  | phase env sess p _ ih => exact ih.phase env sess p
  | synchPhase env sess p _ ih => exact ih.synchPhase env sess p

end Sitecopy.ReachedFiles
