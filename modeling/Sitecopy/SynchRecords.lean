import Sitecopy.DifferenceFlags

/-!
# What a synch records of its calls

Of the operations of a synch only downloads and removed directories are recorded as they
end. A directory that was created is not recorded and one that was not is, and neither
`chmod`, `unlink` nor `rename` leaves a record.
-/
namespace Sitecopy.SynchRecords
open SiteModel FileSet StateProgram SiteStats SiteUpdate UpdateStats SiteInvariants
open LocalSynch ReachedFiles UpdateConvergence DifferenceFlags

/-! ### Reading a trace -/

/-- The entry an event is about. -/
def synchOwner : SynchEvent → Option ℕ
  | .driver a _ _ => a
  | .localCall a _ _ => some a

def Succeeds : SynchEvent → Prop
  | .driver _ (.fileDownload _ _ _) code => code = SITE_OK
  | .driver _ _ _ => True
  | .localCall _ _ ok => ok = true

/-- Some call was made for the entry. -/
def Operated (trace : List SynchEvent) (a : ℕ) : Prop := ∃ e ∈ trace, synchOwner e = some a

/-- All calls made for the entry succeeded, and there were some. -/
def Succeeded (trace : List SynchEvent) (a : ℕ) : Prop :=
  Operated trace a ∧ ∀ e ∈ trace, synchOwner e = some a → Succeeds e

def isDownload (a : ℕ) : SynchEvent → Prop
  | .driver b (.fileDownload _ _ _) code => b = some a ∧ code = SITE_OK
  | _ => False

def Downloaded (trace : List SynchEvent) (a : ℕ) : Prop := ∃ e ∈ trace, isDownload a e

/-! ### Right records -/

/-- Two states agree in what the info file keeps of files and directories. -/
structure SamePersisted (o : SiteOptions) (s t : FileState) : Prop where
  filename : s.filename = t.filename
  existing : s.existing = t.existing
  mode : s.mode = t.mode
  size : s.size = t.size
  ascii : s.ascii = t.ascii
  time : o.stateMethod = .timesize → s.time = t.time
  checksum : o.stateMethod = .checksum → s.checksum = t.checksum

/-- The local state equals the stored one, and the diff is that of the two. -/
def InStep (o : SiteOptions) (g : SiteFile) : Prop :=
  SamePersisted o g.localState g.storedState ∧ Compared o g

/-- The entry `f` of the list before the synch is recorded rightly in `files`. -/
structure Recorded (o : SiteOptions) (trace : List SynchEvent) (files : List SiteFile)
    (f : SiteFile) : Prop where
  synced : f.diff ≠ .new → Operated trace f.addr →
    ((∃ g ∈ files, g.addr = f.addr ∧ InStep o g) ↔ Succeeded trace f.addr)
  removed : f.diff = .new → Succeeded trace f.addr → ∀ g ∈ files, g.addr ≠ f.addr
  failed : ¬ Succeeded trace f.addr →
    ∃ g ∈ files, g.addr = f.addr ∧ g.localState = f.localState

/-- The calls whose outcome the list does not show. -/
def Unrecorded (trace : List SynchEvent) : SynchEvent → Prop
  | .localCall _ (.mkdir _ _) _ => True
  | .localCall _ (.unlink _) ok | .localCall _ (.rename _ _) ok => ok = true
  | .localCall _ (.utime _ _) ok => ok = false
  | .localCall a (.chmod _ _) ok => ok = true ↔ ¬ Downloaded trace a
  | .localCall _ (.rmdir _) _ | .driver _ _ _ => False

section Rules
variable {o : SiteOptions} {f g : SiteFile} {seg : List SynchEvent}

lemma recorded_untouched {files : List SiteFile} (h : ¬ Operated seg f.addr) (hf : f ∈ files) :
    Recorded o seg files f where
  synced _ hop := absurd hop h
  removed _ hs := absurd hs.1 h
  failed _ := ⟨f, hf, rfl, rfl⟩

/-- An entry that the synch leaves as it is, its operation having failed. -/
lemma recorded_kept (hs : ¬ Succeeded seg f.addr) (hin : ¬ InStep o f) :
    Recorded o seg [f] f where
  synced _ _ := by simp [hs, hin]
  removed _ h := absurd h hs
  failed _ := ⟨f, by simp, rfl, rfl⟩

/-- An entry that the synch leaves as it is, although its operation succeeded. -/
lemma not_recorded_kept (hs : Succeeded seg f.addr) (hin : ¬ InStep o f) :
    ¬ Recorded o seg [f] f := by
  intro h
  by_cases hd : f.diff = .new
  · exact h.removed hd hs f (by simp) rfl
  · obtain ⟨g, hg, _, hstep⟩ := (h.synced hd hs.1).mpr hs
    rw [List.mem_singleton.mp hg] at hstep
    exact hin hstep

/-- An entry that has become equal to its stored state. -/
lemma recorded_changed (ha : g.addr = f.addr) (hin : InStep o g)
    (hne : g.localState ≠ f.localState) (hd : f.diff ≠ .new) :
    Recorded o seg [g] f ↔ Succeeded seg f.addr := by
  constructor
  · intro h
    by_contra hs
    obtain ⟨x, hx, _, hl⟩ := h.failed hs
    rw [List.mem_singleton.mp hx] at hl
    exact hne hl
  · exact fun hs => ⟨fun _ _ => by simp [hs, ha, hin], fun hnew => absurd hnew hd,
      fun h => absurd hs h⟩

lemma recorded_removed (hs : Succeeded seg f.addr) (hd : f.diff = .new) :
    Recorded o seg [] f where
  synced h := absurd hd h
  removed _ _ := by simp
  failed h := absurd hs h

end Rules

/-! ### The turns -/

/-- What the pass that acts on an entry makes of it and of its calls. -/
structure RecordedTurn (o : SiteOptions) (f : SiteFile) (seg : List SynchEvent)
    (out : Option SiteFile) : Prop where
  owned : ∀ e ∈ seg, synchOwner e = some f.addr
  same : ∀ g, out = some g → g.addr = f.addr
  recorded : Recorded o seg out.toList f ↔ ∀ e ∈ seg, ¬ Unrecorded seg e
  rest : ∀ g, out = some g → g.type = f.type ∧ (g.diff = f.diff ∨ g.diff = .unchanged)

section Turns
variable {σ : Type} {env : SynchEnv σ} {o : SiteOptions} {f : SiteFile} {r : SynchRun σ}

/-- One local call for an entry that is left as it is. -/
lemma recordedTurn_one (hin : ¬ InStep o f) {c : LocalCall} {ok : Bool}
    (hc : Unrecorded [.localCall f.addr c ok] (.localCall f.addr c ok) ↔ ok = true) :
    RecordedTurn o f [.localCall f.addr c ok] (some f) where
  owned := by simp [synchOwner]
  same := by simp
  rest := by simp
  recorded := by
    have hsucc : Succeeded [.localCall f.addr c ok] f.addr ↔ ok = true := by
      simp [Succeeded, Operated, Succeeds, synchOwner]
    cases ok with
    | true =>
      have hno := not_recorded_kept (o := o) (hsucc.mpr rfl) hin
      simp only [Option.toList_some, hno, List.mem_singleton, forall_eq, false_iff, not_not]
      exact hc.mpr rfl
    | false =>
      have hyes := recorded_kept (o := o) (fun h => Bool.noConfusion (hsucc.mp h)) hin
      simp only [Option.toList_some, hyes, List.mem_singleton, forall_eq, true_iff]
      exact fun h => Bool.noConfusion (hc.mp h)

lemma not_inStep_of_deleted (h : EntryOk o f) (hd : f.diff = .deleted) : ¬ InStep o f := by
  intro hin
  have hl := fileCompare_deleted_iff.mp (h.compared.symm.trans hd)
  have hs := EntryOk.storedExisting o h (Or.inl hd)
  have he := hin.1.existing
  rw [hl, hs] at he
  cases he

lemma not_inStep_of_new (h : EntryOk o f) (hd : f.diff = .new) : ¬ InStep o f := by
  intro hin
  obtain ⟨hl, hs⟩ := fileCompare_new_iff.mp (h.compared.symm.trans hd)
  have he := hin.1.existing
  rw [hl, hs] at he
  cases he

lemma not_inStep_of_moved (h : EntryOk o f) (hd : f.diff = .moved) : ¬ InStep o f := by
  intro hin
  obtain ⟨_, _, _, _, hne⟩ := fileCompare_moved (h.compared.symm.trans hd)
  exact hne hin.1.filename

/-- Local states that agree with the stored one in all that is persisted do not differ. -/
lemma inStep_contents (hin : InStep o f) : fileContentsChanged o f = false := by
  obtain ⟨hp, _⟩ := hin
  unfold fileContentsChanged
  cases hm : o.stateMethod with
  | timesize => simp [hp.size, hp.time hm, hp.ascii]
  | checksum => simp [hp.checksum hm, hp.ascii]

lemma not_inStep_of_changed (h : EntryOk o f) (ht : f.type = .file) (hd : f.diff = .changed) :
    ¬ InStep o f := by
  intro hin
  exact (perms_differ h.compared ht hd (inStep_contents hin)).2 hin.1.mode

lemma inStep_downloaded (st : Stats) :
    InStep o (fileSetDiff o { f with localState := downloadedState o f } st).1 := by
  refine ⟨⟨rfl, rfl, rfl, downloadedState_size o f, rfl, fun hm => ?_, fun hm => ?_⟩, rfl⟩
  · simp [FileSet.fileSetDiff, downloadedState, hm]
  · simp [FileSet.fileSetDiff, downloadedState, hm]

/-- A download that is recorded changes the local state. -/
lemma downloaded_ne (hin : ¬ InStep o f) (hc : Compared o f) : downloadedState o f ≠ f.localState := by
  intro he
  apply hin
  have hstep := (inStep_downloaded (o := o) (f := f) {}).1
  change SamePersisted o (downloadedState o f) f.storedState at hstep
  rw [he] at hstep
  exact ⟨hstep, hc⟩

/-- The diff after a download. -/
lemma downloaded_unchanged (hlink : f.type ≠ .link) (hs : f.storedState.existing = true)
    (st : Stats) :
    (fileSetDiff o { f with localState := downloadedState o f } st).1.diff = .unchanged := by
  have hl : (downloadedState o f).existing = true := hs
  change fileCompare f.type (downloadedState o f) f.storedState o = .unchanged
  cases ht : f.type with
  | dir =>
    rw [fileCompare_dir hl hs]
    simp
  | link => exact absurd ht hlink
  | file =>
    rw [fileCompare_file hl hs, methodDiffers_downloaded]
    simp

lemma synchCreateDirectory_recorded (h : EntryOk o f) (hact : Acts .createDirectories f) :
    Ends (synchCreateDirectory env o f) r fun out r' =>
      ∃ seg, r'.trace = r.trace ++ seg ∧ RecordedTurn o f seg out.1 := by
  have hin := not_inStep_of_deleted h hact.2
  unfold synchCreateDirectory
  rw [if_pos (by exact hact)]
  simp only [ends_ite, ends_bind, ends_pure, ends_localCall, ends_fileDownloaded]
  split_ifs with hok
  · rw [hok]
    exact ⟨_, rfl, recordedTurn_one hin (by simp [Unrecorded])⟩
  · rw [Bool.not_eq_true] at hok
    rw [hok]
    refine ⟨_, rfl, by simp [synchOwner], by rintro g ⟨⟩; rfl, ?_, ?_⟩
    · rw [Option.toList_some, recorded_changed (by exact rfl) (inStep_downloaded r.stats)
        (downloaded_ne hin h.compared) (by simp [hact.2])]
      simp [Succeeded, Succeeds, synchOwner, Unrecorded]
    · rintro g ⟨⟩
      exact ⟨rfl, Or.inr (downloaded_unchanged (by simp [hact.1])
        (EntryOk.storedExisting o h (Or.inl hact.2)) _)⟩

lemma synchDeleteDirectory_recorded (h : EntryOk o f) (hact : Acts .deleteDirectories f) :
    Ends (synchDeleteDirectory env o f) r fun out r' =>
      ∃ seg, r'.trace = r.trace ++ seg ∧ RecordedTurn o f seg out.1 := by
  unfold synchDeleteDirectory
  rw [if_pos (by exact hact)]
  simp only [ends_ite, ends_bind, ends_pure, ends_localCall, ends_synchDelete]
  split_ifs with hok
  · rw [hok]
    refine ⟨_, rfl, by simp [synchOwner], by simp, ?_, by simp⟩
    have hrec : Recorded o [SynchEvent.localCall f.addr
        (.rmdir (fileFullLocal f.localState o)) true] [] f :=
      recorded_removed (by simp [Succeeded, Operated, Succeeds, synchOwner]) hact.2
    simpa [Unrecorded] using hrec
  · rw [Bool.not_eq_true] at hok
    rw [hok]
    refine ⟨_, rfl, by simp [synchOwner], by simp, ?_, by simp⟩
    have hrec : Recorded o [SynchEvent.localCall f.addr
        (.rmdir (fileFullLocal f.localState o)) false] [f] f :=
      recorded_kept (by simp [Succeeded, Succeeds, synchOwner]) (not_inStep_of_new h hact.2)
    simpa [Unrecorded] using hrec

/-- A successful download with the calls that restore time and permissions. -/
lemma downloaded_recorded (h : EntryOk o f) (hin : ¬ InStep o f) (hd : f.diff ≠ .new)
    (hlink : f.type ≠ .link) (hs : f.storedState.existing = true) {l m : Text} {asc : Bool}
    {u c : List Bool} (st : Stats) :
    RecordedTurn o f ([.driver (some f.addr) (.fileDownload l m asc) SITE_OK] ++
        (u.map fun ok => .localCall f.addr
          (.utime (fileFullLocal f.storedState o) f.storedState.time) ok) ++
        (c.map fun ok => .localCall f.addr
          (.chmod (fileFullLocal f.storedState o) f.storedState.mode) ok))
      (some (fileSetDiff o { f with localState := downloadedState o f } st).1) where
  owned := by simp [synchOwner, or_imp, forall_and]
  same := by
    rintro g ⟨⟩
    rfl
  recorded := by
    rw [Option.toList_some, recorded_changed (by exact rfl) (inStep_downloaded st)
      (downloaded_ne hin h.compared) hd]
    simp [Succeeded, Operated, Succeeds, synchOwner, Unrecorded, Downloaded, isDownload, or_imp,
      forall_and]
  rest := by
    rintro g ⟨⟩
    exact ⟨rfl, Or.inr (downloaded_unchanged hlink hs st)⟩

/-- A failed download, whose error is fetched. -/
lemma failedDownload_recorded (hin : ¬ InStep o f) {l m : Text} {asc : Bool} {code code' : ℤ}
    (hcode : code ≠ SITE_OK) :
    RecordedTurn o f ([.driver (some f.addr) (.fileDownload l m asc) code] ++
      [.driver (some f.addr) .error code']) (some f) where
  owned := by simp [synchOwner]
  same := by simp
  rest := by simp
  recorded := by
    have hrec : Recorded o ([.driver (some f.addr) (.fileDownload l m asc) code] ++
        [.driver (some f.addr) .error code']) [f] f :=
      recorded_kept (fun hsucc => hcode (hsucc.2 _ List.mem_cons_self rfl)) hin
    simpa [Unrecorded] using hrec

lemma downloadFile_recorded (h : EntryOk o f) (ht : f.type = .file)
    (hd : f.diff = .deleted ∨ f.diff = .changed) :
    Ends (downloadFile env o f) r fun out r' =>
      ∃ seg, r'.trace = r.trace ++ seg ∧ RecordedTurn o f seg out.1 := by
  have hs := EntryOk.storedExisting o h hd
  have hlink : f.type ≠ .link := by simp [ht]
  have hnew : f.diff ≠ .new := by
    rcases hd with hd | hd <;> simp [hd]
  have hin : ¬ InStep o f := by
    rcases hd with hd | hd
    · exact not_inStep_of_deleted h hd
    · exact not_inStep_of_changed h ht hd
  unfold downloadFile restoreTime restorePerms
  simp only [ends_ite, ends_bind, ends_pure, ends_driverCall, ends_localCall, ends_fileDownloaded,
    List.append_assoc]
  split_ifs with hcode htime hperms hperms
  · exact ⟨_, rfl, failedDownload_recorded hin hcode⟩
  · rw [ne_eq, not_not] at hcode
    rw [hcode]
    exact ⟨_, rfl, downloaded_recorded h hin hnew hlink hs (u := [_]) (c := [_]) _⟩
  · rw [ne_eq, not_not] at hcode
    rw [hcode]
    exact ⟨_, rfl, downloaded_recorded h hin hnew hlink hs (u := [_]) (c := []) _⟩
  · rw [ne_eq, not_not] at hcode
    rw [hcode]
    exact ⟨_, rfl, downloaded_recorded h hin hnew hlink hs (u := []) (c := [_]) _⟩
  · rw [ne_eq, not_not] at hcode
    rw [hcode]
    exact ⟨_, rfl, downloaded_recorded h hin hnew hlink hs (u := []) (c := []) _⟩

lemma synchFile_recorded (h : EntryOk o f) (hact : Acts .files f) :
    Ends (synchFile env o f) r fun out r' =>
      ∃ seg, r'.trace = r.trace ++ seg ∧ RecordedTurn o f seg out.1 := by
  obtain ⟨ht, hne⟩ := hact
  unfold synchFile
  rw [if_neg (by simp [ht])]
  cases hd : f.diff with
  | unchanged => exact absurd hd hne
  | new =>
    simp only [ends_bind, ends_pure, ends_localCall]
    exact ⟨_, rfl, recordedTurn_one (not_inStep_of_new h hd) (by simp [Unrecorded])⟩
  | moved =>
    simp only [ends_bind, ends_pure, ends_localCall]
    exact ⟨_, rfl, recordedTurn_one (not_inStep_of_moved h hd) (by simp [Unrecorded])⟩
  | deleted => exact downloadFile_recorded h ht (Or.inl hd)
  | changed =>
    simp only [ends_ite, ends_bind, ends_pure, ends_localCall]
    split_ifs
    · exact ⟨_, rfl, recordedTurn_one (not_inStep_of_changed h ht hd)
        (by simp [Unrecorded, Downloaded, isDownload])⟩
    · exact downloadFile_recorded h ht (Or.inr hd)

end Turns

/-! ### Whole passes -/

/-- What is known of an entry `f` of the list before the synch, while the passes `later` are
still to come: either nothing has happened to it, or one pass has acted on it and none of
the later ones will. -/
structure Past (o : SiteOptions) (later : List SynchPhase) (trace : List SynchEvent)
    (files : List SiteFile) (f : SiteFile) (seg : List SynchEvent) (out : Option SiteFile) :
    Prop where
  events : ∀ e, synchOwner e = some f.addr → (e ∈ trace ↔ e ∈ seg)
  entry : ∀ g, g.addr = f.addr → (g ∈ files ↔ out = some g)
  turn : seg = [] ∧ out = some f ∨
    RecordedTurn o f seg out ∧ ∀ g, out = some g → ∀ q ∈ later, ¬ Acts q g

section Past
variable {o : SiteOptions} {later : List SynchPhase} {trace : List SynchEvent}
  {files : List SiteFile} {f : SiteFile} {seg : List SynchEvent} {out : Option SiteFile}

lemma Past.operated (h : Past o later trace files f seg out) :
    Operated trace f.addr ↔ Operated seg f.addr := by
  constructor
  · rintro ⟨e, he, ho⟩
    exact ⟨e, (h.events e ho).mp he, ho⟩
  · rintro ⟨e, he, ho⟩
    exact ⟨e, (h.events e ho).mpr he, ho⟩

lemma Past.succeeded (h : Past o later trace files f seg out) :
    Succeeded trace f.addr ↔ Succeeded seg f.addr := by
  unfold Succeeded
  rw [h.operated]
  refine and_congr_right fun _ => ?_
  constructor
  · intro hs e he ho
    exact hs e ((h.events e ho).mpr he) ho
  · intro hs e he ho
    exact hs e ((h.events e ho).mp he) ho

lemma Past.downloaded (h : Past o later trace files f seg out) :
    Downloaded trace f.addr ↔ Downloaded seg f.addr := by
  have howner : ∀ e, isDownload f.addr e → synchOwner e = some f.addr := by
    intro e he
    cases e with
    | localCall a c ok => exact he.elim
    | driver a c code =>
      cases c with
      | fileDownload l m asc => exact he.1
      | init | finish | error => exact he.elim
  constructor
  · rintro ⟨e, he, hd⟩
    exact ⟨e, (h.events e (howner e hd)).mp he, hd⟩
  · rintro ⟨e, he, hd⟩
    exact ⟨e, (h.events e (howner e hd)).mpr he, hd⟩

lemma Past.unrecorded (h : Past o later trace files f seg out) {e : SynchEvent}
    (ho : synchOwner e = some f.addr) : Unrecorded trace e ↔ Unrecorded seg e := by
  cases e with
  | driver a c code => rfl
  | localCall a c ok =>
    have ha : a = f.addr := Option.some.inj ho
    cases c with
    | chmod p m =>
      simp only [Unrecorded, ha]
      rw [h.downloaded]
    | mkdir p m | utime p t | unlink p | rename p q | rmdir p => rfl

/-- The records of an entry depend on what happened to it only. -/
lemma Past.recorded (h : Past o later trace files f seg out) :
    Recorded o trace files f ↔ Recorded o seg out.toList f := by
  have hex : ∀ P : SiteFile → Prop, (∃ g ∈ files, g.addr = f.addr ∧ P g) ↔
      ∃ g ∈ out.toList, g.addr = f.addr ∧ P g := by
    intro P
    constructor
    · rintro ⟨g, hg, ha, hp⟩
      exact ⟨g, Option.mem_toList.mpr ((h.entry g ha).mp hg), ha, hp⟩
    · rintro ⟨g, hg, ha, hp⟩
      exact ⟨g, (h.entry g ha).mpr (Option.mem_toList.mp hg), ha, hp⟩
  have hall : (∀ g ∈ files, g.addr ≠ f.addr) ↔ ∀ g ∈ out.toList, g.addr ≠ f.addr := by
    have hno := not_congr (hex fun _ => True)
    simpa using hno
  constructor
  · intro hr
    refine ⟨fun hd hop => ?_, fun hd hs => ?_, fun hs => ?_⟩
    · rw [← hex, ← h.succeeded]
      exact hr.synced hd (h.operated.mpr hop)
    · rw [← hall]
      exact hr.removed hd (h.succeeded.mpr hs)
    · rw [← hex]
      exact hr.failed fun hs' => hs (h.succeeded.mp hs')
  · intro hr
    refine ⟨fun hd hop => ?_, fun hd hs => ?_, fun hs => ?_⟩
    · rw [hex, h.succeeded]
      exact hr.synced hd (h.operated.mp hop)
    · rw [hall]
      exact hr.removed hd (h.succeeded.mp hs)
    · rw [hex]
      exact hr.failed fun hs' => hs (h.succeeded.mpr hs')

/-- An entry is recorded rightly if all its calls are of the kinds that are recorded. -/
lemma Past.recorded_iff (h : Past o later trace files f seg out) :
    Recorded o trace files f ↔
      ∀ e ∈ trace, synchOwner e = some f.addr → ¬ Unrecorded trace e := by
  rw [h.recorded]
  have hevents : (∀ e ∈ trace, synchOwner e = some f.addr → ¬ Unrecorded trace e) ↔
      ∀ e ∈ seg, synchOwner e = some f.addr → ¬ Unrecorded seg e := by
    constructor
    · intro ht e he ho
      rw [← h.unrecorded ho]
      exact ht e ((h.events e ho).mpr he) ho
    · intro ht e he ho
      rw [h.unrecorded ho]
      exact ht e ((h.events e ho).mp he) ho
  rw [hevents]
  rcases h.turn with ⟨rfl, rfl⟩ | ⟨ht, _⟩
  · have hrec : Recorded o [] (some f).toList f :=
      recorded_untouched (by simp [Operated]) (by simp)
    simpa using hrec
  · rw [ht.recorded]
    exact ⟨fun hs e he _ => hs e he, fun hs e he => hs e he (ht.owned e he)⟩

end Past

section Passes
variable {σ : Type} {env : SynchEnv σ} {o : SiteOptions} {start files : List SiteFile}
  {r r' : SynchRun σ} {p : SynchPhase} {later : List SynchPhase}

/-- A pass does nothing to the entries it does not act on. -/
lemma synchTurn_idle {f : SiteFile} (h : ¬ Acts p f) :
    synchTurn env o p f = pure (some f, false) := by
  cases p with
  | createDirectories => exact if_neg h
  | deleteDirectories => exact if_neg h
  | files =>
    change synchFile env o f = pure (some f, false)
    unfold synchFile
    by_cases ht : f.type ≠ .file
    · rw [if_pos ht]
    · rw [if_neg ht]
      have hd : f.diff = .unchanged := by
        by_contra hd
        exact h ⟨not_not.mp ht, hd⟩
      rw [hd]

/-- A turn of pass `p`, whether it acts or not. -/
structure PassTurn (o : SiteOptions) (p : SynchPhase) (f : SiteFile) (seg : List SynchEvent)
    (out : Option SiteFile) : Prop where
  acts : Acts p f → RecordedTurn o f seg out
  idle : ¬ Acts p f → seg = [] ∧ out = some f

lemma synchTurn_turn {f : SiteFile} (h : EntryOk o f) (r : SynchRun σ) :
    Ends (synchTurn env o p f) r fun out r' =>
      ∃ seg, r'.trace = r.trace ++ seg ∧ PassTurn o p f seg out.1 := by
  by_cases hact : Acts p f
  · have hturn : Ends (synchTurn env o p f) r fun out r' =>
        ∃ seg, r'.trace = r.trace ++ seg ∧ RecordedTurn o f seg out.1 := by
      cases p with
      | createDirectories => exact synchCreateDirectory_recorded h hact
      | files => exact synchFile_recorded h hact
      | deleteDirectories => exact synchDeleteDirectory_recorded h hact
    apply hturn.mono
    rintro out r' ⟨seg, ht, hrec⟩
    exact ⟨seg, ht, fun _ => hrec, fun hno => absurd hact hno⟩
  · rw [synchTurn_idle hact]
    exact ⟨[], (List.append_nil _).symm, fun h => absurd h hact, fun _ => ⟨rfl, rfl⟩⟩

/-- What a turn leaves of an entry is not for another pass. -/
lemma not_acts_later {f g : SiteFile} {q : SynchPhase} (hpq : p ≠ q) (hact : Acts p f)
    (ht : g.type = f.type) (hd : g.diff = f.diff ∨ g.diff = .unchanged) : ¬ Acts q g := by
  intro hq
  have hne : g.diff ≠ .unchanged := by
    cases q with
    | createDirectories | deleteDirectories => simp [hq.2]
    | files => exact hq.2
  have hd' : g.diff = f.diff := hd.resolve_right hne
  cases p <;> cases q <;> simp_all [Acts]

/-- The visits of a pass. -/
structure PassVisits (o : SiteOptions) (p : SynchPhase) (files : List SiteFile)
    (out : List SiteFile) (r r' : SynchRun σ) (vs : List (Visit SiteFile SynchEvent)) : Prop where
  elems : vs.map Visit.elem = files
  kept : out = Visit.kept vs
  trace : ∀ e, e ∈ r'.trace ↔ e ∈ r.trace ∨ e ∈ Visit.logged vs
  turns : ∀ v ∈ vs, PassTurn o p v.elem v.log v.result.1

lemma synchPass_visits (h : ∀ f ∈ files, EntryOk o f) (p : SynchPhase) (r : SynchRun σ) :
    Ends (p.pass env o files) r fun out r' =>
      ∃ vs, PassVisits o p files out.1 r r' vs := by
  have hforward : Ends (forEach (synchTurn env o p) files) r fun out r' =>
      ∃ vs, PassVisits o p files out.1 r r' vs := by
    apply (forEach_visits SynchRun.trace files (fun f hf => synchTurn_turn (h f hf)) r).mono
    rintro out r' ⟨vs, hfiles, hout, htrace, hvs⟩
    exact ⟨vs, hfiles, by rw [hout], by simp [htrace], hvs⟩
  cases p with
  | createDirectories | files => exact hforward
  | deleteDirectories =>
    apply (forEachBackward_visits SynchRun.trace files
      (fun f hf => synchTurn_turn (p := .deleteDirectories) (h f hf)) r).mono
    rintro out r' ⟨vs, hfiles, hout, htrace, hvs⟩
    exact ⟨vs, hfiles, by rw [hout], by simp [htrace, Visit.mem_logged], hvs⟩

lemma PassTurn.owned {f : SiteFile} {seg : List SynchEvent} {out : Option SiteFile}
    (h : PassTurn o p f seg out) : ∀ e ∈ seg, synchOwner e = some f.addr := by
  by_cases hact : Acts p f
  · exact (h.acts hact).owned
  · simp [(h.idle hact).1]

lemma PassTurn.same {f : SiteFile} {seg : List SynchEvent} {out : Option SiteFile}
    (h : PassTurn o p f seg out) : ∀ g, out = some g → g.addr = f.addr := by
  by_cases hact : Acts p f
  · exact (h.acts hact).same
  · rw [(h.idle hact).2]
    rintro g ⟨⟩
    rfl

lemma PassVisits.keyed {out : List SiteFile} {vs : List (Visit SiteFile SynchEvent)}
    (h : PassVisits o p files out r r' vs) (hnd : (files.map SiteFile.addr).Nodup) :
    Visit.Keyed SiteFile.addr synchOwner vs where
  nodup := by
    have he : (vs.map fun v => v.elem.addr) = files.map SiteFile.addr := by
      rw [← h.elems, List.map_map]
      rfl
    rwa [he]
  owned v hv := (h.turns v hv).owned
  same v hv := (h.turns v hv).same

/-- A pass goes on with what happened to an entry. -/
lemma Past.pass {f : SiteFile} {seg : List SynchEvent} {out : Option SiteFile}
    {files' : List SiteFile} {vs : List (Visit SiteFile SynchEvent)}
    (h : Past o (p :: later) r.trace files f seg out) (hp : p ∉ later)
    (hnd : (files.map SiteFile.addr).Nodup) (hvs : PassVisits o p files files' r r' vs) :
    ∃ seg' out', Past o later r'.trace files' f seg' out' := by
  have hkeyed := hvs.keyed hnd
  have helem : ∀ v ∈ vs, v.elem ∈ files := by
    intro v hv
    rw [← hvs.elems]
    exact List.mem_map_of_mem hv
  cases out with
  | none =>
    have hother : ∀ v ∈ vs, v.elem.addr ≠ f.addr := by
      intro v hv ha
      simpa using (h.entry v.elem ha).mp (helem v hv)
    refine ⟨seg, none, fun e he => ?_, fun g hg => ?_, ?_⟩
    · rw [hvs.trace, h.events e he]
      refine or_iff_left fun hlog => ?_
      obtain ⟨v, hv, hev⟩ := Visit.mem_logged.mp hlog
      exact hother v hv (Option.some.inj ((hkeyed.owned v hv e hev).symm.trans he))
    · refine iff_of_false (fun hmem => ?_) (by simp)
      rw [hvs.kept] at hmem
      obtain ⟨v, hv, hres⟩ := Visit.mem_kept.mp hmem
      exact hother v hv ((hkeyed.same v hv g hres).symm.trans hg)
    · refine h.turn.imp_right fun hturn => ⟨hturn.1, by simp⟩
  | some g =>
    have hg : g.addr = f.addr := by
      rcases h.turn with ⟨_, hf⟩ | ⟨hturn, _⟩
      · rw [Option.some.inj hf]
      · exact hturn.same g rfl
    have hmem : g ∈ files := (h.entry g hg).mpr rfl
    rw [← hvs.elems] at hmem
    obtain ⟨v, hv, rfl⟩ := List.mem_map.mp hmem
    have htrace : ∀ e, synchOwner e = some f.addr →
        (e ∈ r'.trace ↔ e ∈ seg ∨ e ∈ v.log) := by
      intro e he
      rw [hvs.trace, h.events e he, hkeyed.mem_log hv (by rw [he, hg])]
    have hkept : ∀ g, g.addr = f.addr → (g ∈ files' ↔ v.result.1 = some g) := by
      intro x hx
      rw [hvs.kept]
      exact hkeyed.mem_kept hv (hx.trans hg.symm)
    by_cases hact : Acts p v.elem
    · have hidle : seg = [] ∧ some v.elem = some f := by
        rcases h.turn with hidle | ⟨_, hlater⟩
        · exact hidle
        · exact absurd hact (hlater v.elem rfl p (by simp))
      have hf : v.elem = f := Option.some.inj hidle.2
      have hturn := (hvs.turns v hv).acts hact
      rw [hf] at hact hturn
      refine ⟨v.log, v.result.1, fun e he => ?_, hkept, Or.inr ⟨hturn, fun x hx q hq => ?_⟩⟩
      · rw [htrace e he, hidle.1]
        simp
      · obtain ⟨ht, hd⟩ := hturn.rest x hx
        exact not_acts_later (fun hpq : p = q => hp (hpq ▸ hq)) hact ht hd
    · obtain ⟨hlog, hres⟩ := (hvs.turns v hv).idle hact
      refine ⟨seg, some v.elem, fun e he => ?_, fun x hx => ?_, ?_⟩
      · rw [htrace e he, hlog]
        simp
      · rw [hkept x hx, hres]
      · refine h.turn.imp_right fun hturn => ⟨hturn.1, fun x hx q hq => ?_⟩
        exact hturn.2 x hx q (List.mem_cons_of_mem p hq)

end Passes

/-! ### The totals -/

/-- How much a changed file grows by its download. -/
def growth (f : SiteFile) : ℤ :=
  if f.diff = .changed ∧ f.ignore = false then f.storedState.size - f.localState.size else 0

/-- What a call takes out of `totalchanged` besides the size it should: a download
overwrites the local size before the old one is subtracted. -/
def eventDrift (start : List SiteFile) : SynchEvent → ℤ
  | .driver (some a) (.fileDownload _ _ _) code =>
    if code = SITE_OK then ((start.find? fun f => f.addr = a).map growth).getD 0 else 0
  | _ => 0

def drift (start : List SiteFile) (trace : List SynchEvent) : ℤ :=
  (trace.map (eventDrift start)).sum

section Drift
variable {σ : Type} {env : SynchEnv σ} {o : SiteOptions} {start files : List SiteFile}
  {f : SiteFile} {r : SynchRun σ} {p : SynchPhase}

lemma drift_append (s t : List SynchEvent) : drift start (s ++ t) = drift start s + drift start t := by
  simp [drift]

lemma drift_local (a : ℕ) (c : LocalCall) (ok : Bool) : drift start [.localCall a c ok] = 0 := by
  simp [drift, eventDrift]

lemma drift_download (hnd : (start.map SiteFile.addr).Nodup) (hf : f ∈ start) (l m : Text)
    (asc : Bool) : drift start [.driver (some f.addr) (.fileDownload l m asc) SITE_OK] = growth f := by
  have hfind : (start.find? fun g => g.addr = f.addr) = some f := by
    cases h : start.find? fun g => g.addr = f.addr with
    | none => simpa using List.find?_eq_none.mp h f hf
    | some g =>
      have ha := List.find?_some h
      rw [decide_eq_true_eq] at ha
      rw [List.inj_on_of_nodup_map hnd (List.mem_of_find?_eq_some h) hf ha]
  simp [drift, eventDrift, hfind]

/-- A turn moves the statistics rightly, but for the drift of its calls. -/
def Drifts (start : List SiteFile) (o : SiteOptions) (f : SiteFile) (r : SynchRun σ)
    (out : Option SiteFile) (r' : SynchRun σ) : Prop :=
  ∃ seg, r'.trace = r.trace ++ seg ∧
    Exchanged o f r.stats out (shift 0 (drift start seg) r'.stats)

lemma shift_zero (st : Stats) : shift 0 0 st = st := by simp [shift]

lemma drifts_kept (hc : Compared o f) (hf : siteStatsUpdate o r.stats = r.stats) {seg : List SynchEvent}
    (hseg : drift start seg = 0) (sess : σ) :
    Drifts start o f r (some f) { r with sess := sess, trace := r.trace ++ seg } := by
  refine ⟨seg, rfl, ?_⟩
  rw [hseg, shift_zero]
  exact (Balanced.keep hc hf).exchanged

lemma drifts_idle (hc : Compared o f) (hf : siteStatsUpdate o r.stats = r.stats) :
    Drifts start o f r (some f) r := by
  refine ⟨[], (List.append_nil _).symm, ?_⟩
  simpa [drift, shift_zero] using (Balanced.keep hc hf).exchanged

/-- The two weights of an entry whose local state is overwritten. -/
lemma downloaded_exchanged (hd : f.diff ≠ .new) (st : Stats) :
    Exchanged o f st
      (some (fileSetDiff o { f with localState := downloadedState o f } st).1)
      (shift 0 (growth f) (fileSetDiff o { f with localState := downloadedState o f } st).2) := by
  have h := @exchanged_fileSetDiff o f st { f with localState := downloadedState o f } rfl rfl rfl
  have hnew : weight .totalnew { f with localState := downloadedState o f } -
      weight .totalnew f = 0 := by
    simp [weight, hd]
  have hchanged : weight .totalchanged { f with localState := downloadedState o f } -
      weight .totalchanged f = growth f := by
    unfold weight growth
    split_ifs <;> simp
  rwa [hnew, hchanged] at h

lemma synchCreateDirectory_drifts (h : EntryOk o f) (hf : siteStatsUpdate o r.stats = r.stats) :
    Ends (synchCreateDirectory env o f) r fun out r' => Drifts start o f r out.1 r' := by
  unfold synchCreateDirectory
  simp only [ends_ite, ends_bind, ends_pure, ends_localCall, ends_fileDownloaded]
  split_ifs with hact
  · exact drifts_kept h.compared hf (drift_local _ _ _) _
  · have hgrowth : growth f = 0 := by simp [growth, hact.2]
    have hnew : f.diff ≠ .new := by simp [hact.2]
    have hx := downloaded_exchanged (o := o) hnew r.stats
    rw [hgrowth] at hx
    refine ⟨_, rfl, ?_⟩
    rw [drift_local]
    exact hx
  · exact drifts_idle h.compared hf

lemma synchDeleteDirectory_drifts (h : EntryOk o f) (hf : siteStatsUpdate o r.stats = r.stats) :
    Ends (synchDeleteDirectory env o f) r fun out r' => Drifts start o f r out.1 r' := by
  unfold synchDeleteDirectory
  simp only [ends_ite, ends_bind, ends_pure, ends_localCall, ends_synchDelete]
  split_ifs
  · refine ⟨_, rfl, ?_⟩
    rw [drift_local, shift_zero]
    exact Balanced.fileDelete.exchanged
  · exact drifts_kept h.compared hf (drift_local _ _ _) _
  · exact drifts_idle h.compared hf

/-- A successful download, and local calls after it. -/
lemma drift_downloaded (hnd : (start.map SiteFile.addr).Nodup) (hf : f ∈ start) (l m : Text)
    (asc : Bool) (calls : List (LocalCall × Bool)) :
    drift start ([.driver (some f.addr) (.fileDownload l m asc) SITE_OK] ++
      calls.map fun c => .localCall f.addr c.1 c.2) = growth f := by
  rw [drift_append, drift_download hnd hf]
  have hcalls : drift start (calls.map fun c => .localCall f.addr c.1 c.2) = 0 := by
    induction calls with
    | nil => rfl
    | cons c calls ih =>
      rw [List.map_cons, ← List.singleton_append, drift_append, drift_local, ih]
      rfl
  rw [hcalls, add_zero]

lemma downloadFile_drifts (hnd : (start.map SiteFile.addr).Nodup) (hmem : f ∈ start)
    (h : EntryOk o f) (hd : f.diff ≠ .new) (hf : siteStatsUpdate o r.stats = r.stats) :
    Ends (downloadFile env o f) r fun out r' => Drifts start o f r out.1 r' := by
  have hend : ∀ (calls : List (LocalCall × Bool)) (l m : Text) (asc : Bool) (sess : σ),
      Drifts start o f r (some (fileSetDiff o { f with localState := downloadedState o f }
          r.stats).1)
        { stats := (fileSetDiff o { f with localState := downloadedState o f } r.stats).2
          sess := sess
          trace := r.trace ++ ([.driver (some f.addr) (.fileDownload l m asc) SITE_OK] ++
            calls.map fun c => .localCall f.addr c.1 c.2) } := by
    intro calls l m asc sess
    refine ⟨_, rfl, ?_⟩
    rw [drift_downloaded hnd hmem]
    exact downloaded_exchanged hd r.stats
  unfold downloadFile restoreTime restorePerms
  simp only [ends_ite, ends_bind, ends_pure, ends_driverCall, ends_localCall, ends_fileDownloaded,
    List.append_assoc]
  split_ifs with hcode
  · apply drifts_kept h.compared hf
    simp [drift, eventDrift, hcode]
  all_goals
    rw [ne_eq, not_not] at hcode
    rw [hcode]
  · exact hend [(_, _), (_, _)] _ _ _ _
  · exact hend [(_, _)] _ _ _ _
  · exact hend [(_, _)] _ _ _ _
  · exact hend [] _ _ _ _

lemma synchFile_drifts (hnd : (start.map SiteFile.addr).Nodup) (hmem : Acts .files f → f ∈ start)
    (h : EntryOk o f) (hf : siteStatsUpdate o r.stats = r.stats) :
    Ends (synchFile env o f) r fun out r' => Drifts start o f r out.1 r' := by
  unfold synchFile
  by_cases ht : f.type ≠ .file
  · rw [if_pos ht]
    exact drifts_idle h.compared hf
  · rw [if_neg ht]
    rw [ne_eq, not_not] at ht
    cases hd : f.diff with
    | unchanged => exact drifts_idle h.compared hf
    | new | moved =>
      simp only [ends_bind, ends_pure, ends_localCall]
      exact drifts_kept h.compared hf (drift_local _ _ _) _
    | deleted =>
      exact downloadFile_drifts hnd (hmem ⟨ht, by simp [hd]⟩) h (by simp [hd]) hf
    | changed =>
      simp only [ends_ite, ends_bind, ends_pure, ends_localCall]
      split_ifs
      · exact drifts_kept h.compared hf (drift_local _ _ _) _
      · exact downloadFile_drifts hnd (hmem ⟨ht, by simp [hd]⟩) h (by simp [hd]) hf

lemma synchTurn_drifts (hnd : (start.map SiteFile.addr).Nodup) (hmem : Acts p f → f ∈ start)
    (h : EntryOk o f) (hf : siteStatsUpdate o r.stats = r.stats) :
    Ends (synchTurn env o p f) r fun out r' => Drifts start o f r out.1 r' := by
  cases p with
  | createDirectories => exact synchCreateDirectory_drifts h hf
  | files => exact synchFile_drifts hnd hmem h hf
  | deleteDirectories => exact synchDeleteDirectory_drifts h hf

/-- The statistics are exact but for `a`, `b` and the drift of the calls so far. -/
def Drifted (start : List SiteFile) (o : SiteOptions) (addrs : List ℕ) (a b : ℤ)
    (files : List SiteFile) (r : SynchRun σ) : Prop :=
  ExactList o addrs files (shift a (b + drift start r.trace) r.stats)

lemma Drifted.replace {addrs : List ℕ} {a b : ℤ} {pre post : List SiteFile} {r' : SynchRun σ}
    {out : Option SiteFile} (h : Drifted start o addrs a b (pre ++ f :: post) r)
    (hd : Drifts start o f r out r') :
    Drifted start o addrs a b (pre ++ out.toList ++ post) r' := by
  obtain ⟨seg, ht, hx⟩ := hd
  have hnext := ExactList.replace h (Exchanged.shift hx)
  rw [shift_shift] at hnext
  unfold Drifted
  rw [ht, drift_append]
  have hsum : b + (drift start r.trace + drift start seg) =
      drift start seg + (b + drift start r.trace) := by ring
  rw [hsum]
  simpa using hnext

lemma synchPass_drifts (hnd : (start.map SiteFile.addr).Nodup) {addrs : List ℕ} {a b : ℤ}
    (hmem : ∀ f ∈ files, Acts p f → f ∈ start) (hok : ∀ f ∈ files, EntryOk o f)
    (h : Drifted start o addrs a b files r) :
    Ends (p.pass env o files) r fun out r' => Drifted start o addrs a b out.1 r' := by
  have hflags : ∀ {l : List SiteFile} {r : SynchRun σ}, Drifted start o addrs a b l r →
      siteStatsUpdate o r.stats = r.stats := fun h => shift_flags.mp h.exact.flags
  have hforward : Ends (forEach (synchTurn env o p) files) r fun out r' =>
      Drifted start o addrs a b out.1 r' := by
    apply (forEach_ends (I := fun done rest _ r =>
      Drifted start o addrs a b (done ++ rest) r ∧ ∀ f ∈ rest, f ∈ files) _
        ⟨h, fun f hf => hf⟩).mono
    · rintro out r' ⟨hr, _⟩
      simpa using hr
    · rintro done f rest failed r ⟨hI, hrest⟩
      have hf := hrest f (by simp)
      apply (synchTurn_drifts hnd (hmem f hf) (hok f hf) (hflags hI)).mono
      intro out r' hd
      exact ⟨by simpa using hI.replace hd, fun g hg => hrest g (List.mem_cons_of_mem f hg)⟩
  cases p with
  | createDirectories | files => exact hforward
  | deleteDirectories =>
    apply (forEachBackward_ends (I := fun rest done _ r =>
      Drifted start o addrs a b (rest ++ done) r ∧ ∀ f ∈ rest, f ∈ files) _
        ⟨by simpa using h, fun f hf => hf⟩).mono
    · rintro out r' ⟨hr, _⟩
      simpa using hr
    · rintro rest f done failed r ⟨hI, hrest⟩
      have hf := hrest f (by simp)
      rw [List.append_assoc] at hI
      apply (synchTurn_drifts (p := .deleteDirectories) hnd (hmem f hf) (hok f hf)
        (hflags hI)).mono
      intro out r' hd
      exact ⟨by simpa using hI.replace hd, fun g hg => hrest g (List.mem_append_left _ hg)⟩

end Drift

/-! ### The whole synch -/

/-- What is known before the passes `later`. -/
structure Progress {σ : Type} (o : SiteOptions) (start : List SiteFile) (a b : ℤ)
    (later : List SynchPhase) (files : List SiteFile) (r : SynchRun σ) : Prop where
  totals : Drifted start o (start.map SiteFile.addr) a b files r
  entries : ∀ f ∈ files, EntryOk o f
  past : ∀ f ∈ start, ∃ seg out, Past o later r.trace files f seg out
  owners : ∀ e ∈ r.trace, ∀ x, synchOwner e = some x → ∃ f ∈ start, f.addr = x

section Synch
variable {σ : Type} {env : SynchEnv σ} {o : SiteOptions} {start files : List SiteFile} {a b : ℤ}
  {p : SynchPhase} {later : List SynchPhase} {r : SynchRun σ}

lemma Progress.origin (h : Progress o start a b later files r) {g : SiteFile} (hg : g ∈ files) :
    ∃ f ∈ start, f.addr = g.addr := by
  simpa using h.totals.addrs.subset (List.mem_map_of_mem hg)

/-- The entries that a pass acts on are those of the list before the synch. -/
lemma Progress.untouched (h : Progress o start a b (p :: later) files r) {g : SiteFile}
    (hg : g ∈ files) (hact : Acts p g) : g ∈ start := by
  obtain ⟨f, hf, ha⟩ := h.origin hg
  obtain ⟨seg, out, hpast⟩ := h.past f hf
  have hout := (hpast.entry g ha.symm).mp hg
  rcases hpast.turn with ⟨_, hsame⟩ | ⟨_, hlater⟩
  · rwa [Option.some.inj (hout.symm.trans hsame)]
  · exact absurd hact (hlater g hout p (by simp))

theorem Progress.pass (h : Progress o start a b (p :: later) files r)
    (hnd : (start.map SiteFile.addr).Nodup) (hp : p ∉ later) :
    Ends (p.pass env o files) r fun out r' => Progress o start a b later out.1 r' := by
  have hreached : ReachedList o (start.map SiteFile.addr) files r.stats :=
    ⟨⟨_, _, h.totals⟩, h.entries⟩
  have hdrift : Ends (p.pass env o files) r fun out r' =>
      Drifted start o (start.map SiteFile.addr) a b out.1 r' :=
    synchPass_drifts hnd (fun f hf => h.untouched hf) h.entries h.totals
  apply ((hdrift.and (synchPass_good env p hreached)).and
    (synchPass_visits h.entries p r)).mono
  rintro out r' ⟨⟨htotals, hgood⟩, vs, hvs⟩
  have hfiles : (files.map SiteFile.addr).Nodup := h.totals.addrs.nodup hnd
  refine ⟨htotals, hgood.entries, fun f hf => ?_, fun e he x hx => ?_⟩
  · obtain ⟨seg, out, hpast⟩ := h.past f hf
    exact hpast.pass hp hfiles hvs
  · rcases (hvs.trace e).mp he with he | he
    · exact h.owners e he x hx
    · obtain ⟨v, hv, hev⟩ := Visit.mem_logged.mp he
      have hx' := Option.some.inj ((hvs.turns v hv).owned e hev |>.symm.trans hx)
      have hmem : v.elem ∈ files := by
        rw [← hvs.elems]
        exact List.mem_map_of_mem hv
      obtain ⟨f, hf, ha⟩ := h.origin hmem
      exact ⟨f, hf, ha.trans hx'⟩

/-- The last passes may be left out. -/
lemma Progress.stop (h : Progress o start a b later files r) : Progress o start a b [] files r where
  totals := h.totals
  entries := h.entries
  past f hf := by
    obtain ⟨seg, out, hpast⟩ := h.past f hf
    exact ⟨seg, out, hpast.events, hpast.entry, hpast.turn.imp_right fun ht => ⟨ht.1, by simp⟩⟩
  owners := h.owners

/-- A call of the session, for no entry. -/
lemma Progress.call (h : Progress o start a b later files r) (c : SynchCall) :
    Ends (driverCall env none c) r fun _ r' => Progress o start a b later files r' := by
  rw [ends_driverCall]
  refine ⟨?_, h.entries, fun f hf => ?_, fun e he x hx => ?_⟩
  · have hzero : drift start [.driver none c (env.driver c r.sess).1] = 0 := by
      simp [drift, eventDrift]
    unfold Drifted
    rw [drift_append, hzero, add_zero]
    exact h.totals
  · obtain ⟨seg, out, hpast⟩ := h.past f hf
    refine ⟨seg, out, fun e he => ?_, hpast.entry, hpast.turn⟩
    rw [← hpast.events e he, List.mem_append, List.mem_singleton]
    refine or_iff_left fun heq => ?_
    rw [heq] at he
    cases he
  · rcases List.mem_append.mp he with he | he
    · exact h.owners e he x hx
    · rw [List.mem_singleton.mp he] at hx
      cases hx

lemma Progress.finish (h : Progress o start a b later files r) :
    Ends (synchFinish env) r fun _ r' => Progress o start a b later files r' := by
  unfold synchFinish
  simp only [ends_bind]
  apply (h.call .error).mono
  intro _ r₁ h₁
  apply (h₁.call .finish).mono
  exact fun _ r₂ h₂ => h₂

lemma synchPasses_progress (hnd : (start.map SiteFile.addr).Nodup)
    (h : Progress o start a b [.createDirectories, .files, .deleteDirectories] files r) :
    Ends (synchPasses env o files) r fun out r' => Progress o start a b [] out.1 r' := by
  unfold synchPasses
  rw [ends_bind]
  apply (h.pass hnd (by decide)).mono
  intro out₁ r₁ h₁
  rw [ends_ite]
  split_ifs
  · rw [ends_bind]
    apply (h₁.pass hnd (by decide)).mono
    intro out₂ r₂ h₂
    rw [ends_ite]
    split_ifs
    · exact h₂.pass hnd (by decide)
    · exact h₂.stop
  · exact h₁.stop

end Synch

/-- Where a synch ends. -/
theorem siteSynch_progress {σ : Type} (env : SynchEnv σ) {site : Site} (h : ReachedSite site)
    {a b : ℤ} (hab : ExactSite { site with stats := shift a b site.stats }) (sess : σ) :
    ∃ r : SynchRun σ, r.stats = (siteSynch env site sess).site.stats ∧
      r.trace = (siteSynch env site sess).trace ∧
        Progress site.opts site.files a b [] (siteSynch env site sess).site.files r := by
  have hnd : (site.files.map SiteFile.addr).Nodup := h.counted.linked.nodup
  have hstart : Progress site.opts site.files a b [.createDirectories, .files, .deleteDirectories]
      site.files { stats := site.stats, sess := sess } := by
    refine ⟨?_, h.entries, fun f hf => ⟨[], some f, by simp, fun g hg => ?_, Or.inl ⟨rfl, rfl⟩⟩,
      by simp⟩
    · simpa [Drifted, drift] using hab.list
    · constructor
      · intro hmem
        rw [List.inj_on_of_nodup_map hnd hmem hf hg]
      · rintro ⟨⟩
        exact hf
  have hrun : Ends (synchSiteFiles env site.opts (needConn site.stats) site.files)
      { stats := site.stats, sess := sess } fun out r' =>
        Progress site.opts site.files a b [] out.1 r' := by
    unfold synchSiteFiles
    rw [ends_ite]
    split_ifs
    · rw [ends_bind]
      apply (hstart.call .init).mono
      intro ret r₁ h₁
      rw [ends_ite]
      split_ifs
      · rw [ends_bind]
        apply (h₁.stop.call .error).mono
        intro _ r₂ h₂
        rw [ends_bind]
        exact h₂.finish.mono fun _ r₃ h₃ => h₃
      · rw [ends_bind]
        apply (synchPasses_progress hnd h₁).mono
        intro out r₂ h₂
        rw [ends_bind]
        exact h₂.finish.mono fun _ r₃ h₃ => h₃
    · exact synchPasses_progress hnd hstart
  exact ⟨_, rfl, rfl, hrun⟩

/-- The sum of the local sizes over the entries of a kind. -/
def sizes (p : SiteFile → Bool) (files : List SiteFile) : ℤ :=
  ((files.filter p).map fun f => f.localState.size).sum

/-- A synch records its calls rightly, and leaves exact statistics, in exactly those runs
in which no call is of a kind that is not recorded and the sizes of the changed files that
are downloaded make up for what `totalchanged` was off by before. -/
theorem synch_recorded_iff {σ : Type} (env : SynchEnv σ) {o : SiteOptions} {site : Site}
    (h : Reached o site) (sess : σ) :
    ((∀ f ∈ site.files,
        Recorded o (siteSynch env site sess).trace (siteSynch env site sess).site.files f) ∧
      Statistics o (siteSynch env site sess).site.files (siteSynch env site sess).site.stats) ↔
    (∀ e ∈ (siteSynch env site sess).trace, ¬ Unrecorded (siteSynch env site sess).trace e) ∧
      site.stats.totalnew = sizes (fun f => f.diff = .new) site.files ∧
      site.stats.totalchanged =
        sizes (fun f => f.diff = .changed ∧ f.ignore = false) site.files +
          drift site.files (siteSynch env site sess).trace := by
  have hsite := h.reachedSite
  obtain ⟨a, b, hab⟩ := hsite.counted
  obtain ⟨r, hst, htr, hprog⟩ := siteSynch_progress env hsite hab sess
  rw [h.opts_eq] at hprog
  rw [← hst, ← htr]
  have hrecords : (∀ f ∈ site.files, Recorded o r.trace (siteSynch env site sess).site.files f) ↔
      ∀ e ∈ r.trace, ¬ Unrecorded r.trace e := by
    constructor
    · intro hall e he hun
      cases ho : synchOwner e with
      | none =>
        cases e with
        | driver x c code => exact hun.elim
        | localCall x c ok => cases ho
      | some x =>
        obtain ⟨f, hf, rfl⟩ := hprog.owners e he x ho
        obtain ⟨seg, out, hpast⟩ := hprog.past f hf
        exact hpast.recorded_iff.mp (hall f hf) e he ho hun
    · intro hall f hf
      obtain ⟨seg, out, hpast⟩ := hprog.past f hf
      exact hpast.recorded_iff.mpr fun e he _ => hall e he
  have hbefore := statistics_of_exact hab.exact
  have hafter := statistics_of_exact hprog.totals.exact
  have hexact : Statistics o (siteSynch env site sess).site.files r.stats ↔
      a = 0 ∧ b + drift site.files r.trace = 0 := by
    constructor
    · intro hs
      have hn := hs.totalnew.trans hafter.totalnew.symm
      have hc := hs.totalchanged.trans hafter.totalchanged.symm
      simp only [shift] at hn hc
      omega
    · rintro ⟨ha, hb⟩
      rw [ha, hb, shift_zero] at hafter
      exact hafter
  have hn : site.stats.totalnew + a = sizes (fun f => f.diff = .new) site.files :=
    hbefore.totalnew
  have hc : site.stats.totalchanged + b =
      sizes (fun f => f.diff = .changed ∧ f.ignore = false) site.files := hbefore.totalchanged
  rw [hrecords, hexact]
  refine and_congr_right fun _ => ?_
  omega

/-- A recorded file that is missing locally. -/
def missingFile : Site :=
  (fileSetStored .file { filename := some (ascii "a"), existing := true, size := 3 }
    { opts := {} }).1

theorem synch_recorded_iff_missing :
    ((∀ f ∈ missingFile.files,
        Recorded {} (siteSynch workingSynchEnv missingFile PUnit.unit).trace
          (siteSynch workingSynchEnv missingFile PUnit.unit).site.files f) ∧
      Statistics {} (siteSynch workingSynchEnv missingFile PUnit.unit).site.files
        (siteSynch workingSynchEnv missingFile PUnit.unit).site.stats) ↔
    (∀ e ∈ (siteSynch workingSynchEnv missingFile PUnit.unit).trace,
        ¬ Unrecorded (siteSynch workingSynchEnv missingFile PUnit.unit).trace e) ∧
      missingFile.stats.totalnew = sizes (fun f => f.diff = .new) missingFile.files ∧
      missingFile.stats.totalchanged =
        sizes (fun f => f.diff = .changed ∧ f.ignore = false) missingFile.files +
          drift missingFile.files (siteSynch workingSynchEnv missingFile PUnit.unit).trace :=
  synch_recorded_iff workingSynchEnv (.setStored _ _ .empty rfl) PUnit.unit

/-- A recorded directory that is missing locally. -/
def missingDirectory : Site :=
  (fileSetStored .dir { filename := some (ascii "d"), existing := true } { opts := {} }).1

/-- The directory is created, and still listed as missing. -/
theorem created_directory_not_synched :
    Reached {} missingDirectory ∧
      ¬ ((∀ f ∈ missingDirectory.files,
          Recorded {} (siteSynch workingSynchEnv missingDirectory PUnit.unit).trace
            (siteSynch workingSynchEnv missingDirectory PUnit.unit).site.files f) ∧
        Statistics {} (siteSynch workingSynchEnv missingDirectory PUnit.unit).site.files
          (siteSynch workingSynchEnv missingDirectory PUnit.unit).site.stats) := by
  have htrace : (siteSynch workingSynchEnv missingDirectory PUnit.unit).trace =
      [.driver none .init SITE_OK, .localCall 0 (.mkdir (ascii "/d") 0o755) true,
        .driver none .error SITE_OK, .driver none .finish SITE_OK] := by
    decide
  have hfiles : (siteSynch workingSynchEnv missingDirectory PUnit.unit).site.files =
      missingDirectory.files := by
    decide
  have hlist : missingDirectory.files =
      [{ addr := 0, diff := .deleted, type := .dir,
         storedState := { filename := some (ascii "d"), existing := true } }] := by
    decide
  refine ⟨.setStored _ _ .empty rfl, fun h => ?_⟩
  rw [htrace, hfiles, hlist] at h
  have hrec := h.1 _ (List.mem_singleton_self _)
  have hsucc : Succeeded [.driver none .init SITE_OK,
      .localCall 0 (.mkdir (ascii "/d") 0o755) true, .driver none .error SITE_OK,
      .driver none .finish SITE_OK] 0 := by
    simp [Succeeded, Operated, Succeeds, synchOwner]
  obtain ⟨g, hg, _, hstep⟩ := (hrec.synced (by decide) hsucc.1).mpr hsucc
  rw [List.mem_singleton.mp hg] at hstep
  have hexisting := hstep.1.existing
  cases hexisting

end Sitecopy.SynchRecords
