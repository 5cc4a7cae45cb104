import Sitecopy.ReachedFiles
import Sitecopy.UpdateAccounting

/-!
# Convergence of an update

When every driver call succeeds and every prompt is answered with yes, the one handler
that acts on an entry leaves nothing of it to do.
-/
namespace Sitecopy.UpdateConvergence
open SiteModel FileSet FileSetSpec StateProgram SiteStats SiteUpdate UpdateStats
open SiteInvariants ReachedFiles UpdateAccounting

variable {σ : Type}

/-- Every driver call succeeds and every prompt is answered with yes. -/
structure Works (env : Env σ) : Prop where
  code : ∀ c s, (env.exec c s).1.code = SITE_OK
  yes : ∀ f s, (env.canUpdate f s).1 = true

/-- A changed file that an update ignores. -/
def Held (f : SiteFile) : Prop := f.type = .file ∧ f.diff = .changed ∧ f.ignore = true

/-- The entries that an update leaves as they are. -/
def Exempt (o : SiteOptions) (f : SiteFile) : Prop :=
  f.diff = .changed ∧ f.ignore = true ∨ o.nodelete = true ∧ f.diff = .deleted

/-- The calls that do more than to open and close the session. -/
def worksOnSite : DriverCall → Bool
  | .init | .finish | .error => false
  | _ => true

def Working : Event → Prop
  | .call _ c _ => worksOnSite c = true
  | .uploaded _ | .removed _ => False

/-- A turn after which the entry is up to date or gone. -/
structure Done (out : Outcome) (seg : List Event) : Prop where
  success : out.2 = false
  unchanged : ∀ g, out.1 = some g → g.diff = .unchanged
  works : ∃ e ∈ seg, Working e

section Turns
variable {env : Env σ} {o : SiteOptions} {f : SiteFile} {r : Run σ}

/-- The local state equals what is recorded of it. -/
lemma compare_uploaded (ht : f.type ≠ .link) (hl : f.localState.existing = true) :
    fileCompare f.type f.localState (uploadedState o f) o = .unchanged := by
  have hs : (uploadedState o f).existing = true := hl
  cases hty : f.type with
  | dir =>
    rw [fileCompare_dir hl hs]
    simp
  | link => exact absurd hty ht
  | file =>
    rw [fileCompare_file hl hs, methodDiffers_uploaded]
    simp

lemma uploaded_unchanged (ht : f.type ≠ .link) (hl : f.localState.existing = true) {st : Stats} :
    (fileSetDiff o { f with storedState := uploadedState o f } st).1.diff = .unchanged :=
  compare_uploaded ht hl

lemma fileChmod_works (hw : Works env) : Adds r (fileChmod env o f) fun out _ =>
    out.2 = false ∧ out.1.type = f.type ∧ out.1.localState = f.localState := by
  unfold Adds fileChmod
  simp only [ends_ite, ends_bind, ends_pure, ends_call, ends_driverErr, ends_setDiff]
  split_ifs with hc hcode
  · exact absurd (hw.code _ _) hcode
  · exact ⟨_, rfl, by simp [FileSet.fileSetDiff]⟩
  · exact ⟨[], (List.append_nil _).symm, by simp⟩

/-- The end of an upload whose calls so far include a working one. -/
lemma finishUpload_done (hw : Works env) (ht : f.type ≠ .link)
    (hl : f.localState.existing = true) {r' : Run σ} (seg : List Event)
    (hr : r'.trace = r.trace ++ seg) (hseg : ∃ e ∈ seg, Working e) :
    Ends (finishUpload env o f) r' fun out r'' => ∃ seg, r''.trace = r.trace ++ seg ∧
      Done out seg := by
  obtain ⟨seg', ht', hout, htype, hlocal⟩ := fileChmod_works (o := o) (f := f) (r := r') hw
  unfold finishUpload
  simp only [ends_bind, ends_pure, ends_fileUploaded]
  refine ⟨seg ++ seg' ++ [.uploaded (fileChmod env o f r').1.1.addr], ?_, hout, ?_, ?_⟩
  · rw [← List.append_assoc, ← List.append_assoc, ← hr]
    exact congrArg (· ++ _) ht'
  · rintro g ⟨⟩
    exact uploaded_unchanged (htype ▸ ht) (hlocal ▸ hl)
  · obtain ⟨e, he, hwk⟩ := hseg
    exact ⟨e, by simp [he], hwk⟩

lemma fileRetrieveServer_keeps : Adds r (fileRetrieveServer env o f) fun g _ =>
    g.type = f.type ∧ g.localState = f.localState := by
  unfold Adds fileRetrieveServer
  simp only [ends_ite, ends_bind, ends_pure, ends_call, ends_driverErr]
  split_ifs
  · exact ⟨_, rfl, by simp⟩
  · exact ⟨_, List.append_assoc _ _ _, by simp⟩

lemma retrieve_finishUpload_done (hw : Works env) (ht : f.type ≠ .link)
    (hl : f.localState.existing = true) {r' : Run σ} (seg : List Event)
    (hr : r'.trace = r.trace ++ seg) (hseg : ∃ e ∈ seg, Working e) :
    Ends (fileRetrieveServer env o f) r' fun g r'' =>
      Ends (finishUpload env o g) r'' fun out r₂ => ∃ seg, r₂.trace = r.trace ++ seg ∧
        Done out seg := by
  obtain ⟨seg', ht', htype, hlocal⟩ := @fileRetrieveServer_keeps _ env o f r'
  obtain ⟨e, he, hwk⟩ := hseg
  apply finishUpload_done hw (htype ▸ ht) (hlocal ▸ hl) (seg ++ seg')
  · rw [← List.append_assoc, ← hr]
    exact ht'
  · exact ⟨e, List.mem_append_left _ he, hwk⟩

lemma finishPlainUpload_done (hw : Works env) (ht : f.type ≠ .link)
    (hl : f.localState.existing = true) {r' : Run σ} (seg : List Event)
    (hr : r'.trace = r.trace ++ seg) (hseg : ∃ e ∈ seg, Working e) :
    Ends (finishPlainUpload env o f) r' fun out r'' => ∃ seg, r''.trace = r.trace ++ seg ∧
      Done out seg := by
  unfold finishPlainUpload
  simp only [ends_ite, ends_bind, ends_pure]
  split_ifs
  · exact retrieve_finishUpload_done hw ht hl seg hr hseg
  · exact finishUpload_done hw ht hl seg hr hseg

lemma uploadFile_done (hw : Works env) (ht : f.type ≠ .link)
    (hl : f.localState.existing = true) {r' : Run σ} {seg : List Event}
    (hr : r'.trace = r.trace ++ seg) :
    Ends (uploadFile env o f) r' fun out r'' => ∃ seg, r''.trace = r.trace ++ seg ∧
      Done out seg := by
  unfold uploadFile
  simp only [ends_ite, ends_bind, ends_pure, ends_call, ends_driverErr, hw.code]
  split_ifs
  all_goals first
    | contradiction
    | apply retrieve_finishUpload_done hw ht hl (seg ++ _) (by rw [hr, List.append_assoc])
      exact ⟨_, List.mem_append_right _ (List.mem_singleton_self _), rfl⟩
    | apply finishPlainUpload_done hw ht hl (seg ++ _)
        (by rw [hr, List.append_assoc, List.append_assoc])
      exact ⟨_, List.mem_append_right _ List.mem_cons_self, rfl⟩
    | apply finishPlainUpload_done hw ht hl (seg ++ _) (by rw [hr, List.append_assoc])
      exact ⟨_, List.mem_append_right _ (List.mem_singleton_self _), rfl⟩

lemma updateNewFile_done (hw : Works env) (ht : f.type ≠ .link)
    (hl : f.localState.existing = true) : Adds r (updateNewFile env o f) Done := by
  unfold Adds updateNewFile
  simp only [ends_ite, ends_bind, ends_pure, ends_feCanUpdate, ends_call, ends_driverErr, hw.code,
    hw.yes]
  split_ifs
  all_goals first
    | contradiction
    | exact uploadFile_done hw ht hl rfl
    | exact uploadFile_done hw ht hl (List.append_nil _).symm

/-- `file_contents_changed` agrees with `file_compare`. -/
lemma contents_eq : fileContentsChanged o f =
    (methodDiffers o f.localState f.storedState ||
      decide (f.localState.ascii ≠ f.storedState.ascii)) := by
  unfold fileContentsChanged methodDiffers
  cases o.stateMethod with
  | checksum => simp [ne_comm]
  | timesize => simp [ne_comm, Bool.or_comm]

/-- Whenever permissions are compared and differ, `file_chmod` is not skipped. -/
lemma perms_of_compared (hc : permsCompared o f.localState f.storedState = true)
    (hm : f.localState.mode ≠ f.storedState.mode) : filePermsChanged o f = true := by
  unfold permsCompared at hc
  have hbits : (f.localState.mode ||| f.storedState.mode) &&& S_IXUSR = 0 →
      f.localState.mode &&& S_IXUSR = 0 ∧ f.storedState.mode &&& S_IXUSR = 0 := by
    intro h0
    rw [← UInt32.or_eq_zero_iff, ← h0, ← UInt32.toBitVec_inj]
    simp only [UInt32.toBitVec_and, UInt32.toBitVec_or, BitVec.and_or_distrib_right]
  unfold filePermsChanged
  simp only [Bool.or_eq_true, Bool.and_eq_true, decide_eq_true_eq] at hc ⊢
  refine ⟨?_, by simp [hm]⟩
  rcases hc with hall | ⟨hx, hexec⟩
  · exact Or.inl hall
  · refine Or.inr ⟨fun h0 => ?_, hexec⟩
    obtain ⟨hl, hs⟩ := hbits h0
    rcases hx with hx | hx
    · exact hx hl
    · exact hx hs

/-- A changed file with the same contents differs in its permissions. -/
lemma perms_differ (hc : Compared o f) (ht : f.type = .file) (hd : f.diff = .changed)
    (hcontents : fileContentsChanged o f = false) :
    permsCompared o f.localState f.storedState = true ∧
      f.localState.mode ≠ f.storedState.mode := by
  have hcmp := hc.symm.trans hd
  obtain ⟨hl, hs⟩ := fileCompare_both hcmp (by decide) (by decide)
  rw [contents_eq, Bool.or_eq_false_iff, decide_eq_false_iff_not] at hcontents
  rw [ht, fileCompare_file hl hs, hcontents.1, if_neg (by decide), if_neg hcontents.2] at hcmp
  split_ifs at hcmp with hperms
  simpa using hperms

/-- It is chmodded, and then it is up to date. -/
lemma perms_only (h : EntryOk o f) (ht : f.type = .file) (hd : f.diff = .changed)
    (hc : fileContentsChanged o f = false) :
    filePermsChanged o f = true ∧
      fileCompare f.type f.localState { f.storedState with mode := f.localState.mode } o =
        .unchanged := by
  obtain ⟨hl, hs⟩ := fileCompare_both (h.compared.symm.trans hd) (by decide) (by decide)
  have hperms := perms_differ h.compared ht hd hc
  rw [contents_eq, Bool.or_eq_false_iff, decide_eq_false_iff_not, not_not] at hc
  have hname : f.localState.filename = f.storedState.filename := by
    by_contra hne
    obtain ⟨_, _, hno⟩ := h.renamed hl hs hne
    simp [hperms] at hno
  have hmethod : methodDiffers o f.localState
      { f.storedState with mode := f.localState.mode } = false := hc.1
  refine ⟨perms_of_compared hperms.1 hperms.2, ?_⟩
  rw [ht, fileCompare_file hl (by exact hs), hmethod]
  simp [hc.2, hname]

lemma updateFile_done (hw : Works env) (h : EntryOk o f) (ht : f.type = .file)
    (hd : f.diff = .new ∨ f.diff = .changed) (hheld : ¬ Held f) :
    Adds r (updateFile env o f) Done := by
  have hlink : f.type ≠ .link := by simp [ht]
  unfold updateFile
  rw [if_neg (by simp [ht])]
  rcases hd with hd | hd
  · simp only [hd]
    exact updateNewFile_done hw hlink (h.compared.localExisting (Or.inl hd))
  · have hl := (fileCompare_both (h.compared.symm.trans hd) (by decide) (by decide)).1
    have hi : f.ignore = false := Bool.eq_false_of_not_eq_true fun hi => hheld ⟨ht, hd, hi⟩
    simp only [hd, hi, Bool.false_eq_true, ↓reduceIte]
    cases hc : fileContentsChanged o f with
    | true =>
      simp only [Bool.not_true, Bool.false_eq_true, ↓reduceIte]
      exact updateNewFile_done hw hlink hl
    | false =>
      obtain ⟨hperms, hafter⟩ := perms_only h ht hd hc
      unfold Adds fileChmod
      simp only [Bool.not_false, hperms, ↓reduceIte, ends_ite, ends_bind, ends_pure, ends_call,
        ends_driverErr, ends_setDiff]
      split_ifs with hcode
      · exact absurd (hw.code _ _) hcode
      · refine ⟨_, rfl, rfl, ?_, ⟨_, List.mem_singleton_self _, rfl⟩⟩
        rintro g ⟨⟩
        exact hafter

lemma updateDeleteFile_done (hw : Works env) (h : f.diff = .deleted ∧ f.type = .file) :
    Adds r (updateDeleteFile env o f) Done := by
  unfold Adds updateDeleteFile
  simp only [h, and_self, ↓reduceIte, ends_ite, ends_bind, ends_pure, ends_feCanUpdate, ends_call,
    ends_driverErr, ends_deleteEntry, hw.code, hw.yes]
  split_ifs
  · contradiction
  · exact ⟨_, List.append_assoc _ _ _, rfl, by simp, _, List.mem_append_left _
      (List.mem_singleton_self _), rfl⟩

lemma updateDeleteDirectory_done (hw : Works env) (h : f.type = .dir ∧ f.diff = .deleted) :
    Adds r (updateDeleteDirectory env o f) Done := by
  unfold Adds updateDeleteDirectory
  simp only [h, and_self, ↓reduceIte, ends_ite, ends_bind, ends_pure, ends_feCanUpdate, ends_call,
    ends_driverErr, ends_deleteEntry, hw.code, hw.yes]
  split_ifs
  · contradiction
  · exact ⟨_, List.append_assoc _ _ _, rfl, by simp, _, List.mem_append_left _
      (List.mem_singleton_self _), rfl⟩

lemma updateMoveFile_done (hw : Works env) (h : EntryOk o f) (hd : f.diff = .moved) :
    Adds r (updateMoveFile env o f) Done := by
  obtain ⟨ht, _, hl, _⟩ := fileCompare_moved (h.compared.symm.trans hd)
  unfold Adds updateMoveFile
  simp only [hd, ↓reduceIte, ends_ite, ends_bind, ends_pure, ends_feCanUpdate, ends_call,
    ends_driverErr, ends_fileUploaded, hw.code, hw.yes]
  split_ifs
  · contradiction
  · refine ⟨_, List.append_assoc _ _ _, rfl, ?_, _, List.mem_append_left _
      (List.mem_singleton_self _), rfl⟩
    rintro g ⟨⟩
    exact compare_uploaded (by simp [ht]) hl

lemma finishDirectory_done (ht : f.type = .dir) (hl : f.localState.existing = true)
    {r' : Run σ} {seg : List Event} (hr : r'.trace = r.trace ++ seg)
    (hseg : ∃ e ∈ seg, Working e) :
    Ends (finishDirectory o f SITE_OK) r' fun out r'' => ∃ seg, r''.trace = r.trace ++ seg ∧
      Done out seg := by
  unfold finishDirectory
  simp only [ne_eq, not_true_eq_false, ↓reduceIte, ends_bind, ends_pure, ends_fileUploaded]
  refine ⟨seg ++ [.uploaded f.addr], by rw [hr, List.append_assoc], rfl, ?_, ?_⟩
  · rintro g ⟨⟩
    exact compare_uploaded (by simp [ht]) hl
  · obtain ⟨e, he, hwk⟩ := hseg
    exact ⟨e, List.mem_append_left _ he, hwk⟩

/-- A changed directory differs in its permissions, and these are sent. -/
lemma updateCreateDirectory_done (hw : Works env) (h : EntryOk o f) (ht : f.type = .dir)
    (hd : f.diff = .new ∨ f.diff = .changed) : Adds r (updateCreateDirectory env o f) Done := by
  have hl := h.compared.localExisting hd
  have hperms : f.diff = .changed → o.dirperms = true := by
    intro hd
    obtain ⟨hl, hs⟩ := fileCompare_both (h.compared.symm.trans hd) (by decide) (by decide)
    have hcmp := h.compared.symm.trans hd
    rw [ht, fileCompare_dir hl hs] at hcmp
    split_ifs at hcmp with hperms
    exact (Bool.and_eq_true_iff.mp hperms).1
  unfold Adds updateCreateDirectory
  rw [if_pos ⟨ht, hd⟩]
  simp only [ends_ite, ends_bind, ends_pure, ends_feCanUpdate, ends_call, ends_driverErr, hw.code,
    hw.yes, ne_eq, not_true_eq_false, ↓reduceIte, and_true]
  rcases hd with hd | hd
  · rw [if_pos hd]
    split_ifs
    · apply finishDirectory_done ht hl (List.append_assoc _ _ _)
      exact ⟨_, List.mem_append_left _ (List.mem_singleton_self _), rfl⟩
    · apply finishDirectory_done ht hl rfl
      exact ⟨_, List.mem_singleton_self _, rfl⟩
  · rw [if_neg (by simp [hd]), if_pos (hperms hd)]
    apply finishDirectory_done ht hl rfl
    exact ⟨_, List.mem_singleton_self _, rfl⟩

/-- The handler that acts on an entry settles it. -/
theorem handler_done (hw : Works env) (h : EntryOk o f) (hlink : f.type ≠ .link) {p : Handler}
    (hact : activeHandler f = some p) (hheld : ¬ Held f) : Adds r (p.turn env o f) Done := by
  unfold activeHandler at hact
  cases hd : f.diff <;> cases ht : f.type <;> rw [hd, ht] at hact <;> cases hact
  case changed.file => exact updateFile_done hw h ht (Or.inr hd) hheld
  case new.file => exact updateFile_done hw h ht (Or.inl hd) hheld
  case changed.dir => exact updateCreateDirectory_done hw h ht (Or.inr hd)
  case new.dir => exact updateCreateDirectory_done hw h ht (Or.inl hd)
  case deleted.file => exact updateDeleteFile_done hw ⟨hd, ht⟩
  case deleted.dir => exact updateDeleteDirectory_done hw ⟨ht, hd⟩
  case moved.file | moved.dir | moved.link => exact updateMoveFile_done hw h hd
  case changed.link | new.link | deleted.link => exact absurd ht hlink

/-- No handler touches any other entry. -/
lemma handler_idle {p : Handler} (h : ¬ (activeHandler f = some p ∧ ¬ Held f)) :
    p.turn env o f = pure (some f, false) := by
  by_cases hact : activeHandler f = some p
  · have hheld : Held f := by
      by_contra hheld
      exact h ⟨hact, hheld⟩
    obtain ⟨ht, hd, hi⟩ := hheld
    have hp : p = .files := by
      simp only [activeHandler, hd, ht, Option.some.injEq] at hact
      exact hact.symm
    subst hp
    simp [Handler.turn, updateFile, ht, hd, hi]
  · exact turn_idle hact

/-- A turn of handler `p` for `f`, which added `seg` to the trace. -/
structure Settles (p : Handler) (f : SiteFile) (out : Outcome) (seg : List Event) : Prop where
  success : out.2 = false
  type : ∀ g, out.1 = some g → g.type = f.type
  active : activeHandler f = some p ∧ ¬ Held f →
    (∀ g, out.1 = some g → g.diff = .unchanged) ∧ ∃ e ∈ seg, Working e
  idle : ¬ (activeHandler f = some p ∧ ¬ Held f) → out.1 = some f ∧ seg = []

lemma phase_good (h : EntryOk o f) (hf : siteStatsUpdate o r.stats = r.stats) (q : Phase) :
    Ends (turn env o q f) r fun out r' =>
      GoodTurn o f r.stats out.1 r'.stats ∧ ∀ g, out.1 = some g → g.type = f.type := by
  have hb : BalancedTurn o f r (turn env o q f) := turn_balanced q h.compared hf
  apply (Ends.and (turn_good env o q f r h hf) hb).mono
  rintro out r' ⟨hgood, hb⟩
  exact ⟨hgood, fun g hg => (hb.entry g hg).2.1⟩

lemma handler_good (h : EntryOk o f) (hlink : f.type ≠ .link)
    (hf : siteStatsUpdate o r.stats = r.stats) (p : Handler) :
    Ends (p.turn env o f) r fun out r' =>
      GoodTurn o f r.stats out.1 r'.stats ∧ ∀ g, out.1 = some g → g.type = f.type := by
  cases p with
  | deleteFiles => exact phase_good h hf .deleteFiles
  | createDirectories => exact phase_good h hf .createDirectories
  | moveFiles => exact phase_good h hf .moveFiles
  | files => exact phase_good h hf .files
  | deleteDirectories => exact phase_good h hf .deleteDirectories
  | links =>
    have hidle : Handler.links.turn env o f = pure (some f, false) := by
      simp [Handler.turn, updateLink, hlink]
    rw [hidle, ends_pure]
    exact ⟨good_kept o h hf, by rintro g ⟨⟩; rfl⟩

lemma handler_settles (hw : Works env) (h : EntryOk o f) (hlink : f.type ≠ .link)
    (hf : siteStatsUpdate o r.stats = r.stats) (p : Handler) :
    Ends (p.turn env o f) r fun out r' => GoodTurn o f r.stats out.1 r'.stats ∧
      ∃ seg, r'.trace = r.trace ++ seg ∧ Settles p f out seg := by
  have hgood := @handler_good σ env o f r h hlink hf p
  by_cases hact : activeHandler f = some p ∧ ¬ Held f
  · obtain ⟨seg, hseg, hdone⟩ := handler_done (r := r) hw h hlink hact.1 hact.2
    exact ⟨hgood.1, seg, hseg, hdone.success, hgood.2, fun _ => ⟨hdone.unchanged, hdone.works⟩,
      fun hno => absurd hact hno⟩
  · rw [handler_idle hact] at hgood ⊢
    exact ⟨hgood.1, [], (List.append_nil _).symm, rfl, hgood.2, fun hyes => absurd hyes hact,
      fun _ => ⟨rfl, rfl⟩⟩

end Turns

/-! ### Whole passes -/

/-- An entry once the handlers in `ran` have visited it. -/
def Pending (start : List SiteFile) (ran : List Handler) (f : SiteFile) : Prop :=
  f.diff = .unchanged ∨ f ∈ start ∧ (Held f ∨ ∀ p ∈ ran, activeHandler f ≠ some p)

/-- The entries during handler `p`, with `done` visited and `rest` to come. -/
structure Sweep (o : SiteOptions) (start : List SiteFile) (ran : List Handler) (p : Handler)
    (done rest : List SiteFile) (trace : List Event) : Prop where
  nolink : ∀ f, f ∈ done ∨ f ∈ rest → f.type ≠ .link
  visited : ∀ f ∈ done, Pending start (p :: ran) f
  waiting : ∀ f ∈ rest, Pending start ran f
  kept : ∀ f ∈ start, (Exempt o f ∨ ∀ e ∈ trace, ¬ Working e) → f ∈ done ∨ f ∈ rest
  needed : (∃ e ∈ trace, Working e) → ∃ f ∈ start, f.diff ≠ .unchanged ∧ ¬ Exempt o f

/-- The guards of the table `handlers`. -/
def Handler.guard (o : SiteOptions) : Handler → Bool
  | .deleteFiles | .deleteDirectories => !o.nodelete
  | .moveFiles => o.checkmoved
  | .links => o.symlinks = .maintain
  | .createDirectories | .files => true

section Sweep
variable {env : Env σ} {o : SiteOptions} {start : List SiteFile} {ran : List Handler}
  {p : Handler} {done rest : List SiteFile} {trace seg : List Event} {f : SiteFile}

lemma Sweep.congr {done' rest' : List SiteFile} (h : Sweep o start ran p done rest trace)
    (hd : ∀ f, f ∈ done' ↔ f ∈ done) (hr : ∀ f, f ∈ rest' ↔ f ∈ rest) :
    Sweep o start ran p done' rest' trace where
  nolink f hf := h.nolink f (by rwa [← hd, ← hr])
  visited f hf := h.visited f ((hd f).mp hf)
  waiting f hf := h.waiting f ((hr f).mp hf)
  kept f hf he := by
    rw [hd, hr]
    exact h.kept f hf he
  needed := h.needed

/-- No handler that runs acts on an exempt entry. -/
lemma Exempt.inactive (he : Exempt o f) (h : EntryOk o f) (hlink : f.type ≠ .link)
    (hguard : Handler.guard o p = true) : ¬ (activeHandler f = some p ∧ ¬ Held f) := by
  rintro ⟨hact, hheld⟩
  rcases he with ⟨hd, hi⟩ | ⟨hno, hd⟩
  · exact hheld ⟨h.ignored hi, hd, hi⟩
  · cases ht : f.type with
    | file =>
      simp only [activeHandler, hd, ht, Option.some.injEq] at hact
      simp [← hact, Handler.guard, hno] at hguard
    | dir =>
      simp only [activeHandler, hd, ht, Option.some.injEq] at hact
      simp [← hact, Handler.guard, hno] at hguard
    | link => exact hlink ht

lemma Sweep.turn {out : Outcome} (h : Sweep o start ran p done (f :: rest) trace)
    (hf : EntryOk o f) (hguard : Handler.guard o p = true) (hs : Settles p f out seg) :
    Sweep o start ran p (done ++ out.1.toList) rest (trace ++ seg) := by
  have hlink : f.type ≠ .link := h.nolink f (by simp)
  have hwait : Pending start ran f := h.waiting f (by simp)
  have hexempt : activeHandler f = some p ∧ ¬ Held f → ¬ Exempt o f :=
    fun hact he => he.inactive hf hlink hguard hact
  refine ⟨fun g hg => ?_, fun g hg => ?_, fun g hg => h.waiting g (by simp [hg]), fun g hg he => ?_,
    ?_⟩
  · rw [List.mem_append, Option.mem_toList] at hg
    rcases hg with (hg | hg) | hg
    · exact h.nolink g (Or.inl hg)
    · rw [hs.type g hg]
      exact hlink
    · exact h.nolink g (by simp [hg])
  · rw [List.mem_append, Option.mem_toList] at hg
    rcases hg with hg | hg
    · exact h.visited g hg
    · by_cases hact : activeHandler f = some p ∧ ¬ Held f
      · exact Or.inl ((hs.active hact).1 g hg)
      · obtain rfl := Option.some.inj ((hs.idle hact).1.symm.trans hg)
        refine hwait.imp_right fun ⟨hstart, hpend⟩ => ⟨hstart, ?_⟩
        by_cases hheld : Held f
        · exact Or.inl hheld
        · refine Or.inr fun q hq => ?_
          rcases List.mem_cons.mp hq with rfl | hq
          · exact fun hact' => hact ⟨hact', hheld⟩
          · exact (hpend.resolve_left hheld) q hq
  · have hold : g ∈ done ∨ g ∈ f :: rest :=
      h.kept g hg (he.imp_right fun hno e he => hno e (List.mem_append_left _ he))
    rw [List.mem_append, Option.mem_toList]
    rcases hold with hd | hr
    · exact Or.inl (Or.inl hd)
    · rcases List.mem_cons.mp hr with rfl | hr
      · refine Or.inl (Or.inr (hs.idle fun hact => ?_).1)
        rcases he with he | hno
        · exact hexempt hact he
        · obtain ⟨e, he, hwk⟩ := (hs.active hact).2
          exact hno e (List.mem_append_right _ he) hwk
      · exact Or.inr hr
  · rintro ⟨e, he, hwk⟩
    rcases List.mem_append.mp he with he | he
    · exact h.needed ⟨e, he, hwk⟩
    · have hact : activeHandler f = some p ∧ ¬ Held f := by
        by_contra hno
        rw [(hs.idle hno).2] at he
        cases he
      have hdiff : f.diff ≠ .unchanged := by
        intro hd
        simp [activeHandler, hd] at hact
      exact ⟨f, (hwait.resolve_left hdiff).1, hdiff, hexempt hact⟩

/-- What is known within a pass of the list in its own order. -/
structure Sweeping (o : SiteOptions) (addrs : List ℕ) (start : List SiteFile)
    (ran : List Handler) (p : Handler) (done rest files : List SiteFile) (failed : Bool)
    (r : Run σ) : Prop where
  success : failed = false
  reached : ReachedList o addrs files r.stats
  sweep : Sweep o start ran p done rest r.trace

/-- The turn of an entry that has `pre` before and `post` behind it. -/
lemma Sweeping.turn (hw : Works env) (hguard : Handler.guard o p = true) {addrs : List ℕ}
    {pre post : List SiteFile} {failed : Bool} {r : Run σ}
    (h : Sweeping o addrs start ran p done (f :: rest) (pre ++ f :: post) failed r) :
    Ends (p.turn env o f) r fun out r' =>
      Sweeping o addrs start ran p (done ++ out.1.toList) rest (pre ++ out.1.toList ++ post)
        (failed || out.2) r' := by
  have hf : EntryOk o f := h.reached.entries f (by simp)
  apply (handler_settles hw hf (h.sweep.nolink f (by simp)) h.reached.counted.flags p).mono
  rintro out r' ⟨hgood, seg, hseg, hs⟩
  refine ⟨?_, h.reached.replace hgood, ?_⟩
  · rw [h.success, hs.success]
    rfl
  · rw [hseg]
    exact h.sweep.turn hf hguard hs

theorem pass_sweep (hw : Works env) (hguard : Handler.guard o p = true) {addrs : List ℕ}
    {files : List SiteFile} {r : Run σ}
    (h : Sweeping o addrs start ran p [] files files false r) :
    Ends (p.pass env o files) r fun out r' =>
      Sweeping o addrs start ran p out.1 [] out.1 out.2 r' := by
  have hforward : Ends (forEach (p.turn env o) files) r fun out r' =>
      Sweeping o addrs start ran p out.1 [] out.1 out.2 r' := by
    apply (forEach_ends (I := fun done rest failed r =>
      Sweeping o addrs start ran p done rest (done ++ rest) failed r) _ h).mono
    · intro out r' hr
      rwa [List.append_nil] at hr
    · intro done f rest failed r hI
      exact hI.turn hw hguard
  cases p with
  | deleteFiles | createDirectories | moveFiles | files | links => exact hforward
  | deleteDirectories =>
    apply forEachBackward_ends (I := fun rest done failed r =>
      Sweeping o addrs start ran _ done rest (rest ++ done) failed r) _ (by simpa using h)
    intro rest f done failed r hI
    have hI' : Sweeping o addrs start ran .deleteDirectories done (f :: rest)
        (rest ++ f :: done) failed r :=
      ⟨hI.success, by simpa using hI.reached,
        hI.sweep.congr (fun _ => Iff.rfl) (by simp [or_comm])⟩
    apply (hI'.turn hw hguard).mono
    intro out r' hr
    exact ⟨hr.success, by simpa using hr.reached,
      hr.sweep.congr (by simp [or_comm]) fun _ => Iff.rfl⟩

/-- Between two handlers, of which `ran` have run. -/
def Between (o : SiteOptions) (addrs : List ℕ) (start : List SiteFile) (ran : List Handler)
    (files : List SiteFile) (r : Run σ) : Prop :=
  ∀ p, Sweeping o addrs start ran p [] files files false r

lemma Sweeping.close {addrs : List ℕ} {files : List SiteFile} {failed : Bool} {r : Run σ}
    (h : Sweeping o addrs start ran p files [] files failed r) :
    Between o addrs start (p :: ran) files r := fun _ =>
  ⟨rfl, h.reached, fun f hf => h.sweep.nolink f hf.symm, by simp, h.sweep.visited,
    fun f hf he => (h.sweep.kept f hf he).symm, h.sweep.needed⟩

/-- The loop over the handlers, all of which run if their guards let them. -/
theorem runHandlers_sweep (hw : Works env) (table : List (Handler × Bool))
    (hguard : ∀ e ∈ table, e.2 = Handler.guard o e.1) {addrs : List ℕ} {files : List SiteFile}
    {r : Run σ} (h : Between o addrs start ran files r) :
    Ends (runHandlers o (table.map fun e => (e.1.pass env o, e.2)) false files) r fun out r' =>
      out.2 = false ∧ ∃ ran', Between o addrs start ran' out.1 r' ∧ (∀ p ∈ ran, p ∈ ran') ∧
        ∀ e ∈ table, e.2 = true → e.1 ∈ ran' := by
  induction table generalizing ran files r with
  | nil => exact ⟨rfl, ran, h, fun _ hp => hp, by simp⟩
  | cons entry table ih =>
    obtain ⟨p, guard⟩ := entry
    have hrest : ∀ e ∈ table, e.2 = Handler.guard o e.1 :=
      fun e he => hguard e (List.mem_cons_of_mem _ he)
    have hg : guard = Handler.guard o p := hguard (p, guard) (by simp)
    simp only [List.map_cons, runHandlers, Bool.not_false, Bool.true_or, ↓reduceIte, ends_ite,
      ends_bind]
    split_ifs with hrun
    · apply (pass_sweep hw (hg.symm.trans hrun) (h p)).mono
      intro out r' hs
      rw [hs.success, Bool.or_false]
      apply (ih hrest hs.close).mono
      rintro out' r'' ⟨hout, ran', hb, hsub, htable⟩
      refine ⟨hout, ran', hb, fun q hq => hsub q (List.mem_cons_of_mem p hq), fun e he hg => ?_⟩
      rcases List.mem_cons.mp he with rfl | he
      · exact hsub p (by simp)
      · exact htable e he hg
    · apply (ih hrest h).mono
      rintro out r' ⟨hout, ran', hb, hsub, htable⟩
      refine ⟨hout, ran', hb, hsub, fun e he hg => ?_⟩
      rcases List.mem_cons.mp he with rfl | he
      · exact absurd hg hrun
      · exact htable e he hg

end Sweep

/-! ### The whole update -/

section Update
variable {env : Env σ} {o : SiteOptions} {site : Site}

/-- A call for no entry, which opens or closes the session. -/
lemma Between.call {addrs : List ℕ} {start files : List SiteFile} {ran : List Handler}
    {r : Run σ} (h : Between o addrs start ran files r) {c : DriverCall}
    (hc : worksOnSite c = false) (sess : σ) (code : ℤ) :
    Between o addrs start ran files
      { r with sess := sess, trace := r.trace ++ [.call none c code] } := by
  intro p
  have hno : ¬ Working (.call none c code) := by simp [Working, hc]
  refine ⟨rfl, (h p).reached, (h p).sweep.nolink, by simp, (h p).sweep.waiting,
    fun f hf he => (h p).sweep.kept f hf ?_, ?_⟩
  · exact he.imp_right fun hall e he => hall e (List.mem_append_left _ he)
  · rintro ⟨e, he, hwk⟩
    rcases List.mem_append.mp he with he | he
    · exact (h p).sweep.needed ⟨e, he, hwk⟩
    · rw [List.mem_singleton] at he
      exact absurd (he ▸ hwk) hno

/-- Where an update ends: every handler whose guard lets it has run. -/
theorem siteUpdate_between (hw : Works env) (h : ReachedSite site)
    (hlink : ∀ f ∈ site.files, f.type ≠ .link) (sess : σ) :
    (siteUpdate env site sess).ret = SITE_OK ∧
      ∃ (ran : List Handler) (r : Run σ), r.stats = (siteUpdate env site sess).site.stats ∧
        r.trace = (siteUpdate env site sess).trace ∧
        Between site.opts (site.files.map SiteFile.addr) site.files ran
          (siteUpdate env site sess).site.files r ∧
        ∀ e ∈ handlerTable site.opts, e.2 = true → e.1 ∈ ran := by
  have hstart : Between site.opts (site.files.map SiteFile.addr) site.files []
      site.files { stats := site.stats, sess := sess } := by
    intro p
    refine ⟨rfl, h.list, ?_, by simp, ?_, by simp, by simp⟩
    · simpa using hlink
    · exact fun f hf => Or.inr ⟨hf, by simp⟩
  have hrun : Ends (updateSiteFiles env site.opts site.files)
      { stats := site.stats, sess := sess } fun out r' => out.2 = SITE_OK ∧
        ∃ ran, Between site.opts (site.files.map SiteFile.addr) site.files ran out.1 r' ∧
          ∀ e ∈ handlerTable site.opts, e.2 = true → e.1 ∈ ran := by
    unfold updateSiteFiles protoInit protoFinish
    simp only [ends_bind, ends_ite, ends_pure, ends_call, ends_driverErr]
    split_ifs with hret
    · exact absurd (hw.code _ _) hret
    · rw [handlers_eq]
      apply (runHandlers_sweep hw (handlerTable site.opts) _ (hstart.call rfl _ _)).mono
      · rintro out r' ⟨hout, ran, hb, _, htable⟩
        refine ⟨by simp [hout], ran, ?_, htable⟩
        have herror := hb.call (c := .error) rfl (env.exec .error r'.sess).2
          (env.exec .error r'.sess).1.code
        exact herror.call rfl _ _
      · simp [handlerTable, Handler.guard]
  obtain ⟨hok, ran, hb, htable⟩ := hrun
  exact ⟨hok, ran, _, rfl, rfl, hb, htable⟩

/-- What no handler has acted on is exempt. -/
lemma exempt_of_pending {start : List SiteFile} {ran : List Handler} {f : SiteFile}
    (h : EntryOk o f) (hlink : f.type ≠ .link) (hp : Pending start ran f)
    (htable : ∀ e ∈ handlerTable o, e.2 = true → e.1 ∈ ran) :
    f.diff = .unchanged ∨ f ∈ start ∧ Exempt o f := by
  rcases hp with hd | ⟨hstart, ⟨_, hd, hi⟩ | hran⟩
  · exact Or.inl hd
  · exact Or.inr ⟨hstart, Or.inl ⟨hd, hi⟩⟩
  · simp only [handlerTable, List.mem_cons, List.not_mem_nil, or_false, forall_eq_or_imp,
      forall_eq] at htable
    obtain ⟨hdelete, hcreate, hmove, hfiles, _, hremove⟩ := htable
    cases hd : f.diff with
    | unchanged => exact Or.inl rfl
    | moved =>
      obtain ⟨_, hcm, _⟩ := fileCompare_moved (h.compared.symm.trans hd)
      exact absurd (by simp [activeHandler, hd]) (hran _ (hmove hcm))
    | changed | new =>
      cases ht : f.type with
      | file => exact absurd (by simp [activeHandler, hd, ht]) (hran _ (hfiles trivial))
      | dir => exact absurd (by simp [activeHandler, hd, ht]) (hran _ (hcreate trivial))
      | link => exact absurd ht hlink
    | deleted =>
      have hno : o.nodelete = true := by
        by_contra hno
        simp only [Bool.not_eq_true', Bool.eq_false_of_not_eq_true hno] at hdelete hremove
        cases ht : f.type with
        | file => exact hran _ (hdelete trivial) (by simp [activeHandler, hd, ht])
        | dir => exact hran _ (hremove trivial) (by simp [activeHandler, hd, ht])
        | link => exact hlink ht
      exact Or.inr ⟨hstart, Or.inr ⟨hno, hd⟩⟩

/-- A files list has entries of this kind. -/
lemma count_pos {p : SiteFile → Bool} {files : List SiteFile} :
    (0 : ℤ) < files.countP p ↔ ∃ f ∈ files, p f = true := by
  rw [Int.natCast_pos, List.countP_pos_iff]

/-- The flag for the remote site tells whether some entry is not exempt. -/
lemma remote_iff (h : CountedSite site) : site.stats.remoteIsDifferent = true ↔
    ∃ f ∈ site.files, f.diff ≠ .unchanged ∧ ¬ Exempt site.opts f := by
  obtain ⟨a, b, h⟩ := h
  have hst := statistics_of_exact h.exact
  have hflag := hst.remoteIsDifferent
  rw [hst.numnew, hst.numchanged, hst.numdeleted, hst.nummoved] at hflag
  have hsum : ∀ m n d c : ℕ, ((m : ℤ) + n + (if site.opts.nodelete = true then 0 else (d : ℤ)) + c
      > 0 ↔ (0 : ℤ) < m ∨ (0 : ℤ) < n ∨ site.opts.nodelete = false ∧ (0 : ℤ) < d ∨ (0 : ℤ) < c) := by
    intro m n d c
    cases site.opts.nodelete <;> simp <;> omega
  rw [hsum] at hflag
  simp only [count_pos, decide_eq_true_eq] at hflag
  refine Iff.trans hflag ?_
  constructor
  · rintro (⟨f, hf, hd⟩ | ⟨f, hf, hd⟩ | ⟨hno, f, hf, hd⟩ | ⟨f, hf, hd, hi⟩)
    · exact ⟨f, hf, by simp [hd], by simp [Exempt, hd]⟩
    · exact ⟨f, hf, by simp [hd], by simp [Exempt, hd]⟩
    · exact ⟨f, hf, by simp [hd], by simp [Exempt, hd, hno]⟩
    · exact ⟨f, hf, by simp [hd], by simp [Exempt, hd, hi]⟩
  · rintro ⟨f, hf, hd, hex⟩
    simp only [Exempt, not_or, not_and, Bool.not_eq_true] at hex
    cases hdiff : f.diff with
    | unchanged => exact absurd hdiff hd
    | moved => exact Or.inl ⟨f, hf, hdiff⟩
    | new => exact Or.inr (Or.inl ⟨f, hf, hdiff⟩)
    | deleted =>
      refine Or.inr (Or.inr (Or.inl ⟨?_, f, hf, hdiff⟩))
      by_contra hno
      exact hex.2 (by simpa using hno) hdiff
    | changed => exact Or.inr (Or.inr (Or.inr ⟨f, hf, hdiff, hex.1 hdiff⟩))

end Update

/-- An update in which every call succeeds and every prompt is answered with yes leaves
nothing to do but what it is told to leave alone. -/
theorem site_update_converges {env : Env σ} (hw : Works env) {o : SiteOptions} {site : Site}
    (hreach : Reached o site) (hlink : ∀ f ∈ site.files, f.type ≠ .link) (sess : σ) :
    (siteUpdate env site sess).ret = SITE_OK ∧
      (siteUpdate env site sess).site.stats.remoteIsDifferent = false ∧
      (∀ f ∈ (siteUpdate env site sess).site.files,
        f.diff = .unchanged ∨ f ∈ site.files ∧ Exempt o f) ∧
      ∀ f ∈ site.files, Exempt o f → f ∈ (siteUpdate env site sess).site.files := by
  have hsite := hreach.reachedSite
  obtain ⟨hret, ran, r, hst, htr, hb, htable⟩ := siteUpdate_between hw hsite hlink sess
  have hsweep := hb .files
  rw [← hreach.opts_eq]
  have hleft : ∀ f ∈ (siteUpdate env site sess).site.files,
      f.diff = .unchanged ∨ f ∈ site.files ∧ Exempt site.opts f := by
    intro f hf
    exact exempt_of_pending (hsweep.reached.entries f hf) (hsweep.sweep.nolink f (Or.inr hf))
      (hsweep.sweep.waiting f hf) htable
  refine ⟨hret, ?_, hleft, fun f hf he => ?_⟩
  · have hafter := hsite.update hsweep.reached
    rw [hst] at hafter
    apply Bool.eq_false_of_not_eq_true
    intro hdiff
    obtain ⟨f, hf, hne, hex⟩ := (remote_iff hafter.counted).mp hdiff
    rcases hleft f hf with hd | ⟨_, he⟩
    · exact hne hd
    · exact hex he
  · exact (hsweep.sweep.kept f hf (Or.inl he)).resolve_left (by simp)

/-- An update of a new and a deleted file. -/
theorem site_update_converges_sample :
    (siteUpdate (conditionalEnv SITE_OK) sampleSite ⟨⟩).ret = SITE_OK ∧
      (siteUpdate (conditionalEnv SITE_OK) sampleSite ⟨⟩).site.stats.remoteIsDifferent = false ∧
      (∀ f ∈ (siteUpdate (conditionalEnv SITE_OK) sampleSite ⟨⟩).site.files,
        f.diff = .unchanged ∨ f ∈ sampleSite.files ∧ Exempt {} f) ∧
      ∀ f ∈ sampleSite.files, Exempt {} f →
        f ∈ (siteUpdate (conditionalEnv SITE_OK) sampleSite ⟨⟩).site.files :=
  site_update_converges ⟨fun c _ => by cases c <;> rfl, fun _ _ => rfl⟩
    (.setStored _ _ (.setLocal _ _ .empty rfl) rfl) (by decide) PUnit.unit

end Sitecopy.UpdateConvergence
