import Sitecopy.UpdateStats

/-!
# Success accounting of an update

Each entry is visited at most once with effect: the pass that acts on it is a function
of its diff and type. A turn of a pass adds a segment of events to the trace, all about
its own entry; it either succeeds throughout, or leaves the entry as it was. The one
exception is a conditional upload answered with an unlisted code.
-/
namespace Sitecopy.UpdateAccounting
open SiteModel FileSet FileSetSpec StateProgram SiteUpdate

/-! ### Reading a trace -/

/-- The calls that move, upload, create or delete the remote object of an entry. -/
def handlesObject : DriverCall → Bool
  | .fileMove _ _ | .fileUpload _ _ _ | .fileUploadCond _ _ _ _ | .fileDelete _ | .dirCreate _
  | .dirRemove _ | .linkCreate _ _ | .linkChange _ _ | .linkDelete _ => true
  | .init | .finish | .error | .fileGetModtime _ | .fileChmod _ _ => false

/-- The calls that modify the remote site at all. -/
def modifiesRemote (c : DriverCall) : Bool :=
  handlesObject c || match c with
    | .fileChmod _ _ => true
    | _ => false

/-- The entry an event is about. -/
def owner : Event → Option ℕ
  | .call a _ _ => a
  | .uploaded a | .removed a => some a

/-- The stored state is overwritten, or the entry removed. -/
def Commits : Event → Prop
  | .call _ _ _ => False
  | .uploaded _ | .removed _ => True

def HandledOk : Event → Prop
  | .call _ c code => handlesObject c = true → code = SITE_OK
  | .uploaded _ | .removed _ => True

def ModifiedOk : Event → Prop
  | .call _ c code => modifiesRemote c = true → code = SITE_OK
  | .uploaded _ | .removed _ => True

/-- A conditional upload is answered with one of the codes its caller tells apart. -/
def Answered : Event → Prop
  | .call _ (.fileUploadCond _ _ _ _) code =>
    code = SITE_OK ∨ code = SITE_ERRORS ∨ code = SITE_FAILED
  | _ => True

/-- Whatever is committed was handled successfully before. -/
def CommitsAccounted (trace : List Event) : Prop :=
  ∀ pre e post, trace = pre ++ e :: post → Commits e →
    ∀ e' ∈ pre, owner e' = owner e → HandledOk e'

/-- Success accounting: commits follow successful calls only, and so does `SITE_OK`. -/
structure Accounted (trace : List Event) (ret : ℤ) : Prop where
  commits : CommitsAccounted trace
  success : ret = SITE_OK → ∀ e ∈ trace, ModifiedOk e

/-- Every unlisted answer is followed by a commit of the same entry. -/
def Swallowed (trace : List Event) : Prop :=
  ∀ e ∈ trace, ¬ Answered e →
    ∃ pre e' post, trace = pre ++ e' :: post ∧ Commits e' ∧ e ∈ pre ∧ owner e = owner e'

lemma not_handledOk_of_not_answered {e : Event} (h : ¬ Answered e) : ¬ HandledOk e := by
  intro hok
  cases e with
  | uploaded a => exact h trivial
  | removed a => exact h trivial
  | call a c code =>
    cases c with
    | fileUploadCond l r asc t => exact h (Or.inl (hok rfl))
    | _ => exact h trivial

lemma Swallowed.append {t s : List Event} (ht : Swallowed t) (hs : Swallowed s) :
    Swallowed (t ++ s) := by
  intro e he hbad
  rcases List.mem_append.mp he with he | he
  · obtain ⟨pre, e', post, hsplit, hc, hpre, ho⟩ := ht e he hbad
    exact ⟨pre, e', post ++ s, by simp [hsplit], hc, hpre, ho⟩
  · obtain ⟨pre, e', post, hsplit, hc, hpre, ho⟩ := hs e he hbad
    exact ⟨t ++ pre, e', post, by simp [hsplit], hc, List.mem_append_right t hpre, ho⟩

lemma Swallowed.of_answered {t : List Event} (h : ∀ e ∈ t, Answered e) : Swallowed t :=
  fun e he hbad => absurd (h e he) hbad

/-- A swallowed answer breaks the accounting. -/
lemma Swallowed.answered {t : List Event} (h : Swallowed t) (hacc : CommitsAccounted t) :
    ∀ e ∈ t, Answered e := by
  intro e he
  by_contra hbad
  obtain ⟨pre, e', post, hsplit, hc, hpre, ho⟩ := h e he hbad
  exact not_handledOk_of_not_answered hbad (hacc pre e' post hsplit hc e hpre ho)

/-- A commit in an appended part sees the whole first part. -/
lemma CommitsAccounted.append {t s : List Event} (ht : CommitsAccounted t)
    (hs : ∀ e ∈ s, Commits e → ∀ e' ∈ t ++ s, owner e' = owner e → HandledOk e') :
    CommitsAccounted (t ++ s) := by
  intro pre e post hsplit hc e' he' ho
  have hmem : e' ∈ t ++ s := by
    rw [hsplit]
    exact List.mem_append_left _ he'
  rcases List.append_eq_append_iff.mp hsplit with ⟨l, hpre, hs'⟩ | ⟨l, ht', hl⟩
  · exact hs e (by rw [hs']; simp) hc e' hmem ho
  · cases l with
    | nil => exact hs e (by rw [← List.nil_append s, ← hl]; simp) hc e' hmem ho
    | cons x l =>
      obtain ⟨rfl, _⟩ := List.cons.inj hl
      exact ht pre e l ht' hc e' he' ho

/-! ### What one turn does -/

/-- The functions of the table `handlers`. -/
inductive Handler
  | deleteFiles
  | createDirectories
  | moveFiles
  | files
  | links
  | deleteDirectories
  deriving DecidableEq, Repr

def Handler.turn {σ : Type} (env : Env σ) (o : SiteOptions) :
    Handler → SiteFile → StateM (Run σ) Outcome
  | .deleteFiles => updateDeleteFile env o
  | .createDirectories => updateCreateDirectory env o
  | .moveFiles => updateMoveFile env o
  | .files => updateFile env o
  | .links => updateLink env o
  | .deleteDirectories => updateDeleteDirectory env o

/-- The handler that acts on an entry, if any does. -/
def activeHandler (file : SiteFile) : Option Handler :=
  match file.diff, file.type with
  | .unchanged, _ => none
  | .moved, _ => some .moveFiles
  | .deleted, .file => some .deleteFiles
  | .deleted, .dir => some .deleteDirectories
  | .new, .file | .changed, .file => some .files
  | .new, .dir | .changed, .dir => some .createDirectories
  | .deleted, .link | .new, .link | .changed, .link => some .links

/-- Equal stored states up to the mode, which a successful `file_chmod` records. -/
def SameStored (f g : SiteFile) : Prop :=
  { g.storedState with mode := f.storedState.mode } = f.storedState

/-- One turn for `f` ended with `out`, and added `seg` to the trace. -/
structure Turn (f : SiteFile) (out : Outcome) (seg : List Event) : Prop where
  owned : ∀ e ∈ seg, owner e = some f.addr
  same : ∀ g ∈ out.1, g.addr = f.addr
  settled : (∀ e ∈ seg, Answered e) →
    (∀ e ∈ seg, HandledOk e) ∨ (out.1 = some f ∧ ∀ e ∈ seg, ¬ Commits e)
  swallowed : Swallowed seg
  failed : out.2 = false → (∀ e ∈ seg, Answered e) → ∀ e ∈ seg, ModifiedOk e
  stored : (∃ e ∈ seg, Commits e) ∨ ∃ g, out.1 = some g ∧ SameStored f g

section Rules
variable {f : SiteFile} {out : Outcome} {seg : List Event}

/-- A turn whose calls all succeeded. -/
lemma Turn.clean (owned : ∀ e ∈ seg, owner e = some f.addr)
    (same : ∀ g ∈ out.1, g.addr = f.addr) (handled : ∀ e ∈ seg, HandledOk e)
    (modified : out.2 = false → ∀ e ∈ seg, ModifiedOk e)
    (stored : (∃ e ∈ seg, Commits e) ∨ ∃ g, out.1 = some g ∧ SameStored f g) :
    Turn f out seg where
  owned := owned
  same := same
  settled _ := Or.inl handled
  swallowed := Swallowed.of_answered fun e he => by
    by_contra hbad
    exact not_handledOk_of_not_answered hbad (handled e he)
  failed hout _ := modified hout
  stored := stored

/-- A turn that failed and left the entry alone. -/
lemma Turn.gaveUp (owned : ∀ e ∈ seg, owner e = some f.addr)
    (answered : ∀ e ∈ seg, Answered e) (commits : ∀ e ∈ seg, ¬ Commits e) :
    Turn f (some f, true) seg where
  owned := owned
  same g hg := by rw [Option.mem_some_iff.mp hg]
  settled _ := Or.inr ⟨rfl, commits⟩
  swallowed := Swallowed.of_answered answered
  failed hout := Bool.noConfusion hout
  stored := Or.inr ⟨f, rfl, rfl⟩

lemma Turn.idle : Turn f (some f, false) [] where
  owned := by simp
  same g hg := by rw [Option.mem_some_iff.mp hg]
  settled _ := Or.inl (by simp)
  swallowed := Swallowed.of_answered (by simp)
  failed := by simp
  stored := Or.inr ⟨f, rfl, rfl⟩

/-- A turn that commits after a call whose code it did not look at closely enough. -/
lemma Turn.unchecked {c : DriverCall} {code : ℤ}
    (hc : Answered (.call (some f.addr) c code) → code = SITE_OK)
    (owned : ∀ e ∈ seg, owner e = some f.addr) (same : ∀ g ∈ out.1, g.addr = f.addr)
    (handled : ∀ e ∈ seg, HandledOk e) (modified : out.2 = false → ∀ e ∈ seg, ModifiedOk e)
    (commit : ∃ e ∈ seg, Commits e) : Turn f out (.call (some f.addr) c code :: seg) := by
  have hseg : Turn f out seg := Turn.clean owned same handled modified (Or.inl commit)
  refine ⟨?_, same, fun ha => Or.inl ?_, ?_, fun hout ha => ?_, Or.inl ?_⟩
  · simpa [owner] using owned
  · have hok := hc (ha _ (by simp))
    simpa [HandledOk, hok] using handled
  · intro e he hbad
    obtain ⟨x, hx, hcx⟩ := commit
    obtain ⟨pre, post, hsplit⟩ := List.append_of_mem hx
    rcases List.mem_cons.mp he with rfl | he
    · refine ⟨.call (some f.addr) c code :: pre, x, post, by simp [hsplit], hcx, by simp, ?_⟩
      rw [owned x hx]
      rfl
    · exact absurd (handled e he) (not_handledOk_of_not_answered hbad)
  · have hok := hc (ha _ (by simp))
    simpa [ModifiedOk, hok] using modified hout
  · obtain ⟨x, hx, hcx⟩ := commit
    exact ⟨x, List.mem_cons_of_mem _ hx, hcx⟩

/-- A successful call before the rest of the turn. -/
lemma Turn.after {c : DriverCall} (h : Turn f out seg) :
    Turn f out (.call (some f.addr) c SITE_OK :: seg) := by
  have hanswered : Answered (.call (some f.addr) c SITE_OK) := by
    cases c <;> simp [Answered]
  refine ⟨?_, h.same, fun ha => ?_, ?_, fun hout ha => ?_, ?_⟩
  · simpa [owner] using h.owned
  · rcases h.settled fun e he => ha e (List.mem_cons_of_mem _ he) with hok | ⟨hout, hno⟩
    · exact Or.inl (by simpa [HandledOk] using hok)
    · exact Or.inr ⟨hout, by simpa [Commits] using hno⟩
  · refine Swallowed.append (t := [_]) (Swallowed.of_answered ?_) h.swallowed
    simpa using hanswered
  · have hrest := h.failed hout fun e he => ha e (List.mem_cons_of_mem _ he)
    simpa [ModifiedOk] using hrest
  · rcases h.stored with ⟨e, he, hc⟩ | hsame
    · exact Or.inl ⟨e, List.mem_cons_of_mem _ he, hc⟩
    · exact Or.inr hsame

end Rules

/-! ### The turns of the six passes -/

section Turns
variable {σ : Type} {env : Env σ} {o : SiteOptions} {f : SiteFile} {r : Run σ}

/-- A handler passes over the entries it is not for. -/
lemma turn_idle {p : Handler} (h : activeHandler f ≠ some p) :
    p.turn env o f = pure (some f, false) := by
  cases p <;> cases hd : f.diff <;> cases ht : f.type <;>
    simp [activeHandler, hd, ht] at h <;>
    simp [Handler.turn, updateDeleteFile, updateCreateDirectory, updateMoveFile, updateFile,
      updateLink, updateDeleteDirectory, hd, ht]

/-- Running `m` adds a segment that satisfies `P` together with the result. -/
def Adds {α : Type} (r : Run σ) (m : StateM (Run σ) α) (P : α → List Event → Prop) : Prop :=
  Ends m r fun a r' => ∃ seg, r'.trace = r.trace ++ seg ∧ P a seg

/-- The rest of a turn, whose start already added `start`. -/
lemma Adds.shift {α : Type} {m : StateM (Run σ) α} {P Q : α → List Event → Prop} {r' : Run σ}
    {start : List Event} (h : Adds r' m P) (hr : r'.trace = r.trace ++ start)
    (hPQ : ∀ a seg, P a seg → Q a (start ++ seg)) :
    Ends m r' fun a r'' => ∃ seg, r''.trace = r.trace ++ seg ∧ Q a seg := by
  obtain ⟨seg, ht, hp⟩ := h
  refine ⟨start ++ seg, ?_, hPQ _ _ hp⟩
  rw [← List.append_assoc, ← hr]
  exact ht

lemma Adds.and {α : Type} {m : StateM (Run σ) α} {P Q : α → List Event → Prop}
    (hp : Adds r m P) (hq : Adds r m Q) : Adds r m fun a seg => P a seg ∧ Q a seg := by
  obtain ⟨seg, ht, h⟩ := hp
  obtain ⟨seg', ht', h'⟩ := hq
  obtain rfl := List.append_cancel_left (ht.symm.trans ht')
  exact ⟨seg, ht, h, h'⟩

/-- The end of a successful turn: only calls that do not handle the object. -/
structure Ending (f : SiteFile) (out : Outcome) (seg : List Event) : Prop where
  owned : ∀ e ∈ seg, owner e = some f.addr
  same : ∀ g ∈ out.1, g.addr = f.addr
  handled : ∀ e ∈ seg, HandledOk e
  modified : out.2 = false → ∀ e ∈ seg, ModifiedOk e
  commit : ∃ e ∈ seg, Commits e

lemma Ending.turn {out : Outcome} {seg : List Event} (h : Ending f out seg) : Turn f out seg :=
  Turn.clean h.owned h.same h.handled h.modified (Or.inl h.commit)

/-- What `file_chmod` adds. -/
structure Chmod (f : SiteFile) (out : SiteFile × Bool) (seg : List Event) : Prop where
  owned : ∀ e ∈ seg, owner e = some f.addr
  same : out.1.addr = f.addr
  handled : ∀ e ∈ seg, HandledOk e
  modified : out.2 = false → ∀ e ∈ seg, ModifiedOk e
  stored : SameStored f out.1

lemma fileChmod_adds : Adds r (fileChmod env o f) (Chmod f) := by
  unfold Adds fileChmod
  simp only [ends_ite, ends_bind, ends_pure, ends_call, ends_driverErr, ends_setDiff,
    List.append_assoc, List.append_cancel_left_eq, exists_eq_left', List.self_eq_append_right,
    exists_eq_left]
  split_ifs with hchanged hcode
  · refine ⟨?_, rfl, ?_, fun h => Bool.noConfusion h, rfl⟩
    · simp [owner]
    · simp [HandledOk, handlesObject]
  · rw [ne_eq, not_not] at hcode
    refine ⟨?_, rfl, ?_, fun _ => ?_, rfl⟩
    · simp [owner]
    · simp [HandledOk, handlesObject]
    · simp [ModifiedOk, hcode]
  · exact ⟨by simp, rfl, by simp, fun _ => by simp, rfl⟩

lemma finishUpload_adds : Adds r (finishUpload env o f) (Ending f) := by
  unfold Adds finishUpload
  simp only [ends_bind, ends_pure, ends_fileUploaded]
  obtain ⟨seg, ht, hc⟩ := @fileChmod_adds _ env o f r
  refine ⟨seg ++ [.uploaded f.addr], ?_, ?_⟩
  · rw [← List.append_assoc, ← ht, ← hc.same]
  · refine ⟨?_, ?_, ?_, fun h => ?_, ⟨.uploaded f.addr, by simp, trivial⟩⟩
    · simpa [owner, or_imp, forall_and] using hc.owned
    · intro g hg
      rw [← Option.mem_some_iff.mp hg]
      exact hc.same
    · simpa [HandledOk, or_imp, forall_and] using hc.handled
    · simpa [ModifiedOk, or_imp, forall_and] using hc.modified h

/-- Asking for the server's time before the end. -/
lemma retrieve_finishUpload_adds :
    Adds r (fileRetrieveServer env o f >>= finishUpload env o) (Ending f) := by
  unfold Adds fileRetrieveServer
  simp only [ends_ite, ends_bind, ends_pure, ends_call, ends_driverErr]
  split_ifs
  all_goals
    refine Adds.shift finishUpload_adds
      (by first | rfl | exact List.append_assoc _ _ _) fun out seg h => ?_
    refine ⟨?_, h.same, ?_, fun hout => ?_, ?_⟩
    · simpa [owner] using h.owned
    · simpa [HandledOk, handlesObject] using h.handled
    · simpa [ModifiedOk, modifiesRemote, handlesObject] using h.modified hout
    · obtain ⟨e, he, hc⟩ := h.commit
      exact ⟨e, List.mem_append_right _ he, hc⟩

lemma finishPlainUpload_adds : Adds r (finishPlainUpload env o f) (Ending f) := by
  by_cases hs : o.safemode = true
  · have hm : finishPlainUpload env o f = fileRetrieveServer env o f >>= finishUpload env o := by
      simp [finishPlainUpload, hs]
    rw [hm]
    exact retrieve_finishUpload_adds
  · have hm : finishPlainUpload env o f = finishUpload env o f := by
      simp [finishPlainUpload, hs]
    rw [hm]
    exact finishUpload_adds

/-- A failed call, with its error fetched or not, ends the turn. -/
lemma gaveUp_call {c : DriverCall} {code : ℤ} (h : Answered (.call (some f.addr) c code)) :
    Turn f (some f, true) [.call f.addr c code] :=
  Turn.gaveUp (by simp [owner]) (by simpa using h) (by simp [Commits])

lemma gaveUp_error {c : DriverCall} {code code' : ℤ}
    (h : Answered (.call (some f.addr) c code)) :
    Turn f (some f, true) ([.call f.addr c code] ++ [.call f.addr .error code']) :=
  Turn.gaveUp (by simp [owner]) (by simpa [Answered] using h) (by simp [Commits])

theorem uploadFile_turn : Adds r (uploadFile env o f) (Turn f) := by
  unfold Adds uploadFile
  simp only [ends_ite, ends_bind, ends_pure, ends_call, ends_driverErr]
  split_ifs with hcond herrors hfailed htemp hup hmove hup
  · exact ⟨_, List.append_assoc _ _ _, gaveUp_error (by exact Or.inr (Or.inl herrors))⟩
  · exact ⟨_, rfl, gaveUp_call (by exact Or.inr (Or.inr hfailed))⟩
  · -- every other code is taken for a success
    refine (ends_bind _ _ _ _).mp ?_
    refine Adds.shift retrieve_finishUpload_adds rfl fun out seg h => ?_
    refine Turn.unchecked (fun ha => ?_) h.owned h.same h.handled h.modified h.commit
    rcases ha with hok | hbad | hbad
    · exact hok
    · exact absurd hbad herrors
    · exact absurd hbad hfailed
  · exact ⟨_, List.append_assoc _ _ _, gaveUp_error trivial⟩
  · rw [ne_eq, not_not] at hup
    refine ⟨_, by rw [List.append_assoc, List.append_assoc], ?_⟩
    rw [hup]
    exact Turn.after (gaveUp_error trivial)
  · rw [ne_eq, not_not] at hup hmove
    refine Adds.shift finishPlainUpload_adds (List.append_assoc _ _ _) fun out seg h => ?_
    rw [hup, hmove]
    exact h.turn.after.after
  · exact ⟨_, List.append_assoc _ _ _, gaveUp_error trivial⟩
  · rw [ne_eq, not_not] at hup
    refine Adds.shift finishPlainUpload_adds rfl fun out seg h => ?_
    rw [hup]
    exact h.turn.after

theorem updateNewFile_turn : Adds r (updateNewFile env o f) (Turn f) := by
  unfold Adds updateNewFile
  simp only [ends_ite, ends_bind, ends_pure, ends_feCanUpdate, ends_call, ends_driverErr]
  split_ifs with hcan hdelete hcode
  · exact ⟨_, List.append_assoc _ _ _, gaveUp_error trivial⟩
  · rw [ne_eq, not_not] at hcode
    refine Adds.shift uploadFile_turn rfl fun out seg h => ?_
    rw [hcode]
    exact h.after
  · exact uploadFile_turn
  · exact ⟨[], (List.append_nil _).symm, Turn.idle⟩

theorem updateFile_turn : Adds r (updateFile env o f) (Turn f) := by
  have hidle : Adds r (pure (some f, false) : StateM (Run σ) Outcome) (Turn f) :=
    ⟨[], (List.append_nil _).symm, Turn.idle⟩
  unfold updateFile
  by_cases ht : f.type ≠ .file
  · rw [if_pos ht]
    exact hidle
  · rw [if_neg ht]
    cases hd : f.diff with
    | unchanged | deleted | moved => exact hidle
    | new => exact updateNewFile_turn
    | changed =>
      by_cases hi : f.ignore = true
      · simp only [hi, ↓reduceIte]
        exact hidle
      · simp only [hi, Bool.false_eq_true, ↓reduceIte]
        by_cases hcc : fileContentsChanged o f = true
        · simp only [hcc, Bool.not_true, Bool.false_eq_true, ↓reduceIte]
          exact updateNewFile_turn
        · -- only the permissions are sent
          simp only [hcc, Bool.not_false, ↓reduceIte]
          obtain ⟨seg, hseg, hc⟩ := @fileChmod_adds _ env o f r
          refine ⟨seg, hseg, Turn.clean hc.owned ?_ hc.handled hc.modified
            (Or.inr ⟨_, rfl, hc.stored⟩)⟩
          intro g hg
          rw [← Option.mem_some_iff.mp hg]
          exact hc.same

/-- A successful deletion. -/
lemma removed_turn {c : DriverCall} :
    Turn f (none, false) ([.call f.addr c SITE_OK] ++ [.removed f.addr]) :=
  Turn.clean (by simp [owner]) (by simp) (by simp [HandledOk]) (fun _ => by simp [ModifiedOk])
    (Or.inl ⟨.removed f.addr, by simp, trivial⟩)

/-- `file_uploaded` as the whole rest of a turn. -/
lemma uploaded_turn {g : SiteFile} (hg : g.addr = f.addr) :
    Turn f (some g, false) [.uploaded f.addr] :=
  Turn.clean (by simp [owner]) (by simpa using hg) (by simp [HandledOk])
    (fun _ => by simp [ModifiedOk]) (Or.inl ⟨.uploaded f.addr, by simp, trivial⟩)

theorem updateDeleteFile_turn : Adds r (updateDeleteFile env o f) (Turn f) := by
  unfold Adds updateDeleteFile
  simp only [ends_ite, ends_bind, ends_pure, ends_feCanUpdate, ends_call, ends_driverErr,
    ends_deleteEntry]
  split_ifs with hact hcan hcode
  · exact ⟨_, List.append_assoc _ _ _, gaveUp_error trivial⟩
  · rw [ne_eq, not_not] at hcode
    refine ⟨_, List.append_assoc _ _ _, ?_⟩
    rw [hcode]
    exact removed_turn
  · exact ⟨[], (List.append_nil _).symm, Turn.idle⟩
  · exact ⟨[], (List.append_nil _).symm, Turn.idle⟩

theorem updateDeleteDirectory_turn : Adds r (updateDeleteDirectory env o f) (Turn f) := by
  unfold Adds updateDeleteDirectory
  simp only [ends_ite, ends_bind, ends_pure, ends_feCanUpdate, ends_call, ends_driverErr,
    ends_deleteEntry]
  split_ifs with hact hcan hcode
  · exact ⟨_, List.append_assoc _ _ _, gaveUp_error trivial⟩
  · rw [ne_eq, not_not] at hcode
    refine ⟨_, List.append_assoc _ _ _, ?_⟩
    rw [hcode]
    exact removed_turn
  · exact ⟨[], (List.append_nil _).symm, Turn.idle⟩
  · exact ⟨[], (List.append_nil _).symm, Turn.idle⟩

theorem updateMoveFile_turn : Adds r (updateMoveFile env o f) (Turn f) := by
  unfold Adds updateMoveFile
  simp only [ends_ite, ends_bind, ends_pure, ends_feCanUpdate, ends_call, ends_driverErr,
    ends_fileUploaded]
  split_ifs with hact hcan hcode
  · exact ⟨_, List.append_assoc _ _ _, gaveUp_error trivial⟩
  · rw [ne_eq, not_not] at hcode
    refine ⟨_, List.append_assoc _ _ _, ?_⟩
    rw [hcode]
    have hturn := uploaded_turn (f := f)
      (g := (fileSetDiff o { f with storedState := uploadedState o f } r.stats).1) rfl
    exact hturn.after
  · exact ⟨[], (List.append_nil _).symm, Turn.idle⟩
  · exact ⟨[], (List.append_nil _).symm, Turn.idle⟩

/-- The calls made for a directory, whose code is kept in `oret`. -/
structure DirectoryCalls (f : SiteFile) (oret : ℤ) (seg : List Event) : Prop where
  owned : ∀ e ∈ seg, owner e = some f.addr
  answered : ∀ e ∈ seg, Answered e
  commits : ∀ e ∈ seg, ¬ Commits e
  checked : oret = SITE_OK → ∀ e ∈ seg, HandledOk e ∧ ModifiedOk e

lemma finishDirectory_turn {r' : Run σ} {oret : ℤ} {seg : List Event}
    (hr : r'.trace = r.trace ++ seg) (h : DirectoryCalls f oret seg) :
    Ends (finishDirectory o f oret) r' fun out r'' =>
      ∃ seg, r''.trace = r.trace ++ seg ∧ Turn f out seg := by
  unfold finishDirectory
  simp only [ends_ite, ends_bind, ends_pure, ends_fileUploaded]
  split_ifs with hret
  · exact ⟨seg, hr, Turn.gaveUp h.owned h.answered h.commits⟩
  · rw [ne_eq, not_not] at hret
    refine ⟨seg ++ [.uploaded f.addr], by rw [hr, List.append_assoc], ?_⟩
    refine Turn.clean ?_ (by simp [fileSetDiff]) ?_ (fun _ => ?_)
      (Or.inl ⟨.uploaded f.addr, by simp, trivial⟩)
    · simpa [owner, or_imp, forall_and] using h.owned
    · simpa [HandledOk, or_imp, forall_and] using fun e he => (h.checked hret e he).1
    · simpa [ModifiedOk, or_imp, forall_and] using fun e he => (h.checked hret e he).2

theorem updateCreateDirectory_turn : Adds r (updateCreateDirectory env o f) (Turn f) := by
  unfold Adds updateCreateDirectory
  simp only [ends_ite, ends_bind, ends_pure, ends_feCanUpdate, ends_call, ends_driverErr]
  split_ifs
  all_goals first
    | exact ⟨[], (List.append_nil _).symm, Turn.idle⟩
    | refine finishDirectory_turn (by simp only [List.append_assoc]; rfl) ?_
      refine ⟨by simp [owner], by simp [Answered], by simp [Commits], fun hret => ?_⟩
      simp_all [HandledOk, ModifiedOk, handlesObject, modifiesRemote]
    | refine finishDirectory_turn (List.append_nil _).symm ?_
      exact ⟨by simp, by simp, by simp, by simp⟩

/-- A successful call for a link; its stored state stays as it is. -/
lemma linked_turn {c : DriverCall} :
    Turn f (some { f with diff := .unchanged }, false) [.call f.addr c SITE_OK] :=
  Turn.clean (by simp [owner]) (by simp) (by simp [HandledOk]) (fun _ => by simp [ModifiedOk])
    (Or.inr ⟨_, rfl, rfl⟩)

theorem updateLink_turn : Adds r (updateLink env o f) (Turn f) := by
  have hidle : Adds r (pure (some f, false) : StateM (Run σ) Outcome) (Turn f) :=
    ⟨[], (List.append_nil _).symm, Turn.idle⟩
  unfold updateLink
  by_cases ht : f.type ≠ .link
  · rw [if_pos ht]
    exact hidle
  · rw [if_neg ht]
    cases hd : f.diff with
    | unchanged | moved => exact hidle
    | new | changed =>
      unfold Adds
      simp only [ends_ite, ends_bind, ends_pure, ends_call, ends_driverErr]
      split_ifs with hcode
      · exact ⟨_, List.append_assoc _ _ _, gaveUp_error trivial⟩
      · rw [ne_eq, not_not] at hcode
        refine ⟨_, rfl, ?_⟩
        rw [hcode]
        exact linked_turn
    | deleted =>
      unfold Adds
      simp only [ends_ite, ends_bind, ends_pure, ends_call, ends_driverErr, ends_deleteEntry]
      split_ifs with hcode
      · exact ⟨_, List.append_assoc _ _ _, gaveUp_error trivial⟩
      · rw [ne_eq, not_not] at hcode
        refine ⟨_, List.append_assoc _ _ _, ?_⟩
        rw [hcode]
        exact removed_turn

theorem handler_turn (p : Handler) : Adds r (p.turn env o f) (Turn f) := by
  cases p with
  | deleteFiles => exact updateDeleteFile_turn
  | createDirectories => exact updateCreateDirectory_turn
  | moveFiles => exact updateMoveFile_turn
  | files => exact updateFile_turn
  | links => exact updateLink_turn
  | deleteDirectories => exact updateDeleteDirectory_turn

end Turns

/-! ### Whole passes -/

/-- What is known of an entry once the handlers in `ran` have visited it: its calls
succeeded, or one of these handlers was the one to act on it. -/
def Settled (ran : List Handler) (trace : List Event) (f : SiteFile) : Prop :=
  (∀ e ∈ trace, owner e = some f.addr → HandledOk e) ∨ ∃ p ∈ ran, activeHandler f = some p

/-- An entry of the original list is still there with its stored state, or was committed. -/
def Recorded (trace : List Event) (files : List SiteFile) (f : SiteFile) : Prop :=
  (∃ e ∈ trace, Commits e ∧ owner e = some f.addr) ∨
    ∃ g ∈ files, g.addr = f.addr ∧ SameStored f g

/-- The books during handler `p`, with the entries `done` visited and `rest` to come.
`start` is the list before the update, `before` that no earlier handler failed. -/
structure Books (start : List SiteFile) (ran : List Handler) (p : Handler) (before : Prop)
    (done rest : List SiteFile) (failed : Bool) (trace : List Event) : Prop where
  distinct : ((done ++ rest).map SiteFile.addr).Nodup
  swallowed : Swallowed trace
  commits : (∀ e ∈ trace, Answered e) → CommitsAccounted trace
  visited : (∀ e ∈ trace, Answered e) → ∀ f ∈ done, Settled (p :: ran) trace f
  waiting : (∀ e ∈ trace, Answered e) → ∀ f ∈ rest, Settled ran trace f
  success : before → failed = false → (∀ e ∈ trace, Answered e) → ∀ e ∈ trace, ModifiedOk e
  recorded : ∀ f ∈ start, Recorded trace (done ++ rest) f

section Passes
variable {ran : List Handler} {p : Handler} {trace seg : List Event} {f g : SiteFile}

/-- Events about another entry do not matter. -/
lemma Settled.append (h : Settled ran trace g) (hseg : ∀ e ∈ seg, owner e = some f.addr)
    (hne : g.addr ≠ f.addr) : Settled ran (trace ++ seg) g := by
  rcases h with hok | hp
  · refine Or.inl fun e he ho => ?_
    rcases List.mem_append.mp he with he | he
    · exact hok e he ho
    · rw [hseg e he] at ho
      exact absurd (Option.some.inj ho).symm hne
  · exact Or.inr hp

lemma Settled.weaken (h : Settled ran trace f) : Settled (p :: ran) trace f :=
  h.imp_right fun ⟨q, hq, hf⟩ => ⟨q, List.mem_cons_of_mem p hq, hf⟩

lemma SameStored.trans {h : SiteFile} (hfg : SameStored f g) (hgh : SameStored g h) :
    SameStored f h := by
  unfold SameStored at *
  rw [← hfg, ← hgh]

lemma Recorded.turn {out : Outcome} {done rest : List SiteFile}
    (h : Recorded trace (done ++ f :: rest) g) (ht : Turn f out seg) :
    Recorded (trace ++ seg) (done ++ out.1.toList ++ rest) g := by
  rcases h with ⟨e, he, hc, ho⟩ | ⟨x, hx, hxa, hxs⟩
  · exact Or.inl ⟨e, List.mem_append_left _ he, hc, ho⟩
  · simp only [List.mem_append, List.mem_cons] at hx
    have hother : x ∈ done ∨ x ∈ rest →
        Recorded (trace ++ seg) (done ++ out.1.toList ++ rest) g := by
      intro hx
      refine Or.inr ⟨x, ?_, hxa, hxs⟩
      simp only [List.mem_append]
      tauto
    rcases hx with hx | rfl | hx
    · exact hother (Or.inl hx)
    · rcases ht.stored with ⟨e, he, hc⟩ | ⟨y, hy, hys⟩
      · exact Or.inl ⟨e, List.mem_append_right _ he, hc, (ht.owned e he).trans (by rw [hxa])⟩
      · refine Or.inr ⟨y, ?_, (ht.same y hy).trans hxa, hxs.trans hys⟩
        simp [hy]
    · exact hother (Or.inr hx)

section BooksTurn
variable {start done rest : List SiteFile} {before : Prop} {failed : Bool} {out : Outcome}

lemma Books.perm {done' rest' : List SiteFile} (h : Books start ran p before done rest failed trace)
    (hd : done.Perm done') (hr : rest.Perm rest') :
    Books start ran p before done' rest' failed trace where
  distinct := ((hd.append hr).map SiteFile.addr).nodup_iff.mp h.distinct
  swallowed := h.swallowed
  commits := h.commits
  visited ha f hf := h.visited ha f (hd.mem_iff.mpr hf)
  waiting ha f hf := h.waiting ha f (hr.mem_iff.mpr hf)
  success := h.success
  recorded f hf := (h.recorded f hf).imp_right fun ⟨g, hg, hs⟩ =>
    ⟨g, (hd.append hr).mem_iff.mp hg, hs⟩

/-- The books after the turn of one entry. -/
lemma Books.turn (h : Books start ran p before done (f :: rest) failed trace) (hp : p ∉ ran)
    (ht : Turn f out seg)
    (hidle : activeHandler f ≠ some p → seg = [] ∧ out = (some f, false)) :
    Books start ran p before (done ++ out.1.toList) rest (failed || out.2) (trace ++ seg) := by
  have hperm := (@List.perm_middle _ f done rest).map SiteFile.addr
  have hcons := List.nodup_cons.mp (hperm.nodup_iff.mp h.distinct)
  have hne : ∀ g, g ∈ done ∨ g ∈ rest → g.addr ≠ f.addr := by
    intro g hg he
    exact hcons.1 (he ▸ List.mem_map_of_mem (List.mem_append.mpr hg))
  have hall : (∀ e ∈ trace ++ seg, Answered e) →
      (∀ e ∈ trace, Answered e) ∧ ∀ e ∈ seg, Answered e :=
    fun ha => ⟨fun e he => ha e (List.mem_append_left _ he),
      fun e he => ha e (List.mem_append_right _ he)⟩
  -- the handler that acts now has not run before, so the entry's earlier calls succeeded
  have hclean : (∀ e ∈ trace, Answered e) → activeHandler f = some p →
      ∀ e ∈ trace, owner e = some f.addr → HandledOk e := by
    intro ha hact
    rcases h.waiting ha f (by simp) with hok | ⟨q, hq, hfq⟩
    · exact hok
    · rw [hact] at hfq
      exact absurd (Option.some.inj hfq ▸ hq) hp
  refine ⟨?_, h.swallowed.append ht.swallowed, fun ha => ?_, fun ha g hg => ?_,
    fun ha g hg => ?_, fun hb hf ha e he => ?_, fun g hg => (h.recorded g hg).turn ht⟩
  · refine List.Sublist.nodup ?_ h.distinct
    rw [List.append_assoc, List.map_append, List.map_append, List.map_append]
    refine (List.Sublist.refl _).append ?_
    cases hout : out.1 with
    | none => simp
    | some g => simp [ht.same g hout]
  · obtain ⟨ha₁, ha₂⟩ := hall ha
    refine CommitsAccounted.append (h.commits ha₁) fun e he hc e' he' ho => ?_
    have hact : activeHandler f = some p := by
      by_contra hna
      rw [(hidle hna).1] at he
      simp at he
    have hhandled : ∀ e ∈ seg, HandledOk e := by
      rcases ht.settled ha₂ with hok | ⟨_, hno⟩
      · exact hok
      · exact absurd hc (hno e he)
    rcases List.mem_append.mp he' with he' | he'
    · exact hclean ha₁ hact e' he' (ho.trans (ht.owned e he))
    · exact hhandled e' he'
  · obtain ⟨ha₁, ha₂⟩ := hall ha
    rcases List.mem_append.mp hg with hg | hg
    · exact (h.visited ha₁ g hg).append ht.owned (hne g (Or.inl hg))
    · rw [Option.mem_toList] at hg
      by_cases hact : activeHandler f = some p
      · rcases ht.settled ha₂ with hok | ⟨hout, _⟩
        · refine Or.inl fun e he ho => ?_
          rw [ht.same g hg] at ho
          rcases List.mem_append.mp he with he | he
          · exact hclean ha₁ hact e he ho
          · exact hok e he
        · rw [hout] at hg
          obtain rfl := Option.some.inj hg
          exact Or.inr ⟨p, by simp, hact⟩
      · obtain ⟨rfl, rfl⟩ := hidle hact
        obtain rfl := Option.some.inj hg
        rw [List.append_nil]
        exact (h.waiting ha₁ f (by simp)).weaken
  · exact (h.waiting (hall ha).1 g (List.mem_cons_of_mem f hg)).append ht.owned (hne g (Or.inr hg))
  · rw [Bool.or_eq_false_iff] at hf
    rcases List.mem_append.mp he with he | he
    · exact h.success hb hf.1 (hall ha).1 e he
    · exact ht.failed hf.2 (hall ha).2 e he

end BooksTurn

end Passes

/-! ### The whole update -/

/-- The books between two handlers, of which `ran` have run. -/
structure Ledger (start : List SiteFile) (ran : List Handler) (files : List SiteFile)
    (failed : Bool) (trace : List Event) : Prop where
  distinct : (files.map SiteFile.addr).Nodup
  swallowed : Swallowed trace
  commits : (∀ e ∈ trace, Answered e) → CommitsAccounted trace
  settled : (∀ e ∈ trace, Answered e) → ∀ f ∈ files, Settled ran trace f
  success : failed = false → (∀ e ∈ trace, Answered e) → ∀ e ∈ trace, ModifiedOk e
  recorded : ∀ f ∈ start, Recorded trace files f

section Update
variable {σ : Type} {env : Env σ} {o : SiteOptions} {start files : List SiteFile}
  {ran : List Handler} {failed : Bool} {r : Run σ}

def Handler.pass (env : Env σ) (o : SiteOptions) : Handler → Pass σ
  | .deleteFiles => updateDeleteFiles env o
  | .createDirectories => updateCreateDirectories env o
  | .moveFiles => updateMoveFiles env o
  | .files => updateFiles env o
  | .links => updateLinks env o
  | .deleteDirectories => updateDeleteDirectories env o

lemma books_turn {p : Handler} {before : Prop} {done rest : List SiteFile} {f : SiteFile}
    (hp : p ∉ ran) (h : Books start ran p before done (f :: rest) failed r.trace) :
    Ends (p.turn env o f) r fun out r' =>
      Books start ran p before (done ++ out.1.toList) rest (failed || out.2) r'.trace := by
  by_cases hact : activeHandler f = some p
  · obtain ⟨seg, ht, hturn⟩ := @handler_turn _ env o f r p
    unfold Ends
    dsimp only
    rw [ht]
    exact h.turn hp hturn fun hna => absurd hact hna
  · rw [turn_idle hact, ends_pure]
    have hturn := h.turn hp (Turn.idle (f := f)) fun _ => ⟨rfl, rfl⟩
    rwa [List.append_nil] at hturn

theorem pass_books {p : Handler} {before : Prop} (hp : p ∉ ran)
    (h : Books start ran p before [] files false r.trace) :
    Ends (p.pass env o files) r fun out r' =>
      Books start ran p before out.1 [] out.2 r'.trace := by
  have hforward : Ends (forEach (p.turn env o) files) r fun out r' =>
      Books start ran p before out.1 [] out.2 r'.trace :=
    forEach_ends (I := fun done rest failed (r : Run σ) =>
        Books start ran p before done rest failed r.trace)
      (fun _ _ _ _ _ hI => books_turn hp hI) h
  cases p with
  | deleteFiles | createDirectories | moveFiles | files | links => exact hforward
  | deleteDirectories =>
    refine forEachBackward_ends
      (I := fun rest done failed (r : Run σ) => Books start ran _ before done rest failed r.trace) ?_ h
    intro rest f done failed r hI
    have hI' := hI.perm (List.Perm.refl done) (List.perm_append_singleton f rest)
    exact (books_turn hp hI').mono fun out r' hb =>
      hb.perm List.perm_append_comm (List.Perm.refl rest)

lemma Ledger.open {p : Handler} (h : Ledger start ran files failed r.trace) :
    Books start ran p (failed = false) [] files false r.trace where
  distinct := h.distinct
  swallowed := h.swallowed
  commits := h.commits
  visited _ f hf := by simp at hf
  waiting := h.settled
  success hb _ := h.success hb
  recorded := h.recorded

lemma Books.close {p : Handler} {done : List SiteFile} {failed' : Bool} {trace : List Event}
    (h : Books start ran p (failed = false) done [] failed' trace) :
    Ledger start (p :: ran) done (failed || failed') trace where
  distinct := by simpa using h.distinct
  swallowed := h.swallowed
  commits := h.commits
  settled := h.visited
  success hf := h.success (Bool.or_eq_false_iff.mp hf).1 (Bool.or_eq_false_iff.mp hf).2
  recorded f hf := by simpa using h.recorded f hf

/-- The loop over the handlers, each of which runs at most once. -/
theorem runHandlers_ledger (table : List (Handler × Bool)) (hnd : (table.map Prod.fst).Nodup)
    (hdisj : ∀ p ∈ table.map Prod.fst, p ∉ ran) (h : Ledger start ran files failed r.trace) :
    Ends (runHandlers o (table.map fun e => (e.1.pass env o, e.2)) failed files) r fun out r' =>
      ∃ ran', Ledger start ran' out.1 out.2 r'.trace := by
  induction table generalizing ran files failed r with
  | nil => exact ⟨ran, h⟩
  | cons entry table ih =>
    obtain ⟨p, guard⟩ := entry
    rw [List.map_cons, List.nodup_cons] at hnd
    simp only [List.map_cons, runHandlers, ends_ite, ends_bind]
    split_ifs with hgo hguard
    · refine (pass_books (hdisj p (by simp)) h.open).mono fun out r' hb => ?_
      refine ih hnd.2 (fun q hq => ?_) hb.close
      rw [List.mem_cons, not_or]
      refine ⟨fun hqp => hnd.1 (hqp ▸ hq), hdisj q ?_⟩
      exact List.mem_cons_of_mem p hq
    · exact ih hnd.2 (fun q hq => hdisj q (List.mem_cons_of_mem p hq)) h
    · exact ⟨ran, h⟩

/-- The handlers of `site_update` in their order, with their guards. -/
def handlerTable (o : SiteOptions) : List (Handler × Bool) :=
  [(.deleteFiles, !o.nodelete), (.createDirectories, true), (.moveFiles, o.checkmoved),
   (.files, true), (.links, o.symlinks = .maintain), (.deleteDirectories, !o.nodelete)]

lemma handlers_eq : handlers env o = (handlerTable o).map fun e => (e.1.pass env o, e.2) := rfl

/-- A call for no entry that modifies nothing. -/
lemma Ledger.call {c : DriverCall} {code : ℤ} {trace : List Event}
    (h : Ledger start ran files failed trace) (hc : modifiesRemote c = false) :
    Ledger start ran files failed (trace ++ [.call none c code]) := by
  have hh : handlesObject c = false := by
    unfold modifiesRemote at hc
    exact (Bool.or_eq_false_iff.mp hc).1
  have ha : Answered (.call none c code) := by
    cases c <;> trivial
  have hall : (∀ e ∈ trace ++ [Event.call none c code], Answered e) → ∀ e ∈ trace, Answered e :=
    fun hx e he => hx e (List.mem_append_left _ he)
  refine ⟨h.distinct, h.swallowed.append (Swallowed.of_answered (by simpa using ha)), fun hx => ?_,
    fun hx f hf => ?_, fun hf hx e he => ?_, fun f hf => ?_⟩
  · exact (h.commits (hall hx)).append fun e he hcom => by
      rw [List.mem_singleton] at he
      subst he
      exact hcom.elim
  · refine (h.settled (hall hx) f hf).imp_left fun hok e he ho => ?_
    rcases List.mem_append.mp he with he | he
    · exact hok e he ho
    · rw [List.mem_singleton] at he
      subst he
      simp [owner] at ho
  · rcases List.mem_append.mp he with he | he
    · exact h.success hf (hall hx) e he
    · rw [List.mem_singleton] at he
      subst he
      exact fun hm => by simp [hc] at hm
  · refine (h.recorded f hf).imp_left fun ⟨e, he, hs⟩ => ⟨e, List.mem_append_left _ he, hs⟩

lemma Ledger.init (site : Site) (h : WellLinked site) :
    Ledger site.files [] site.files false [] where
  distinct := h.nodup
  swallowed := Swallowed.of_answered (by simp)
  commits _ pre e post hsplit := by simp at hsplit
  settled _ f _ := Or.inl (by simp)
  success := by simp
  recorded f hf := Or.inr ⟨f, hf, rfl, rfl⟩

/-- The books after an update, whose `SITE_OK` means that no handler failed. -/
theorem siteUpdate_ledger (site : Site) (h : WellLinked site) (sess : σ) :
    ∃ ran failed, Ledger site.files ran (siteUpdate env site sess).site.files failed
        (siteUpdate env site sess).trace ∧
      ((siteUpdate env site sess).ret = SITE_OK → failed = false) := by
  have hrun : Ends (updateSiteFiles env site.opts site.files)
      { stats := site.stats, sess := sess } fun out r' =>
        ∃ ran failed, Ledger site.files ran out.1 failed r'.trace ∧
          (out.2 = SITE_OK → failed = false) := by
    have hinit := Ledger.init site h
    unfold updateSiteFiles protoInit protoFinish
    simp only [ends_bind, ends_ite, ends_pure, ends_call, ends_driverErr]
    split_ifs with hret
    · refine ⟨[], false, ?_, fun hok => absurd hok hret⟩
      exact (((hinit.call rfl).call rfl).call rfl).call rfl
    · rw [handlers_eq]
      refine (runHandlers_ledger (handlerTable site.opts) (by simp [handlerTable]) (by simp)
        (hinit.call (c := .init) rfl)).mono fun out r' hledger => ?_
      obtain ⟨ran, hl⟩ := hledger
      refine ⟨ran, out.2, (hl.call rfl).call rfl, ?_⟩
      cases hf : out.2 with
      | false => exact fun _ => rfl
      | true => exact fun hok => by simp [SITE_ERRORS, SITE_OK] at hok
  exact hrun

end Update

/-- An entry whose stored state changed, its mode apart, or that left the list was committed. -/
theorem site_update_recorded {σ : Type} (env : Env σ) (site : Site) (h : WellLinked site)
    (sess : σ) :
    ∀ f ∈ site.files,
      Recorded (siteUpdate env site sess).trace (siteUpdate env site sess).site.files f := by
  obtain ⟨ran, failed, hl, _⟩ := @siteUpdate_ledger _ env site h sess
  exact hl.recorded

/-- Success accounting holds of exactly those updates in which every conditional upload is
answered with `SITE_OK`, `SITE_ERRORS` or `SITE_FAILED`. -/
theorem site_update_accounted_iff {σ : Type} (env : Env σ) (site : Site) (h : WellLinked site)
    (sess : σ) :
    Accounted (siteUpdate env site sess).trace (siteUpdate env site sess).ret ↔
      ∀ e ∈ (siteUpdate env site sess).trace, Answered e := by
  obtain ⟨ran, failed, hl, hret⟩ := @siteUpdate_ledger _ env site h sess
  constructor
  · exact fun hacc => hl.swallowed.answered hacc.commits
  · exact fun ha => ⟨hl.commits ha, fun hok => hl.success (hret hok) ha⟩

/-! ### A conditional upload refused by the server -/

/-- A changed file of a site in safe mode, whose server time is known. -/
def changedSite : Site where
  opts := { protocol := .dav, safemode := true }
  files := [{
    addr := 0
    diff := .changed
    localState := { filename := some (ascii "a.html"), time := 2, existing := true }
    storedState := { filename := some (ascii "a.html"), time := 1, existing := true }
    serverState := { time := 1, existing := true } }]
  stats := { numchanged := 1, remoteIsDifferent := true, localIsDifferent := true }
  freshAddr := 1

/-- A server that answers every conditional upload with the given code. -/
def conditionalEnv (code : ℤ) : Env PUnit where
  exec c s := ({ code := match c with
    | .fileUploadCond _ _ _ _ => code
    | _ => SITE_OK }, s)
  canUpdate _ s := (true, s)

lemma changedSite_linked : WellLinked changedSite := ⟨by decide, by decide⟩

theorem site_update_accounted_iff_failed :
    Accounted (siteUpdate (conditionalEnv SITE_FAILED) changedSite ⟨⟩).trace
        (siteUpdate (conditionalEnv SITE_FAILED) changedSite ⟨⟩).ret ↔
      ∀ e ∈ (siteUpdate (conditionalEnv SITE_FAILED) changedSite ⟨⟩).trace, Answered e :=
  site_update_accounted_iff (conditionalEnv SITE_FAILED) changedSite changedSite_linked ⟨⟩

/-- The server refuses the credentials, and yet the file is recorded as uploaded and the
update as successful. -/
theorem refused_upload_recorded :
    rcfileVerify changedSite.opts = .ok ⟨⟩ ∧
      (siteUpdate (conditionalEnv SITE_AUTH) changedSite ⟨⟩).ret = SITE_OK ∧
      ¬ Accounted (siteUpdate (conditionalEnv SITE_AUTH) changedSite ⟨⟩).trace
        (siteUpdate (conditionalEnv SITE_AUTH) changedSite ⟨⟩).ret := by
  have htrace : (siteUpdate (conditionalEnv SITE_AUTH) changedSite ⟨⟩).trace =
      [.call none .init SITE_OK,
        .call (some 0) (.fileUploadCond (ascii "/a.html") (ascii "a.html") false 1) SITE_AUTH,
        .call (some 0) (.fileGetModtime (ascii "a.html")) SITE_OK,
        .uploaded 0, .call none .error SITE_OK, .call none .finish SITE_OK] := by
    decide
  have hret : (siteUpdate (conditionalEnv SITE_AUTH) changedSite ⟨⟩).ret = SITE_OK := by decide
  refine ⟨rfl, hret, fun hacc => ?_⟩
  have hbad := hacc.success hret
    (.call (some 0) (.fileUploadCond (ascii "/a.html") (ascii "a.html") false 1) SITE_AUTH)
    (by rw [htrace]; simp)
  exact absurd (hbad rfl) (by decide)

end Sitecopy.UpdateAccounting
