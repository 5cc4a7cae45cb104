import Sitecopy.UpdateConvergence

/-!
# The driver calls of an update

Which calls an update may make, and with which arguments, is determined by the files list it
starts with: an entry is acted on by one handler, and until then it is what it was. A property
of runs that all these calls preserve therefore holds after every update.
-/
namespace Sitecopy.DriverCalls
open SiteModel FileSet StateProgram SiteStats SiteUpdate UpdateAccounting UpdateConvergence

variable {σ α β : Type} {env : Env σ} {o : SiteOptions} {allowed : Option ℕ → DriverCall → Prop}

/-- The calls in `allowed`, the prompts and the bookkeeping preserve `I`. -/
structure Stable (env : Env σ) (allowed : Option ℕ → DriverCall → Prop) (I : Run σ → Prop) :
    Prop where
  call : ∀ a c r, allowed a c → I r → I { r with
    sess := (env.exec c r.sess).2
    trace := r.trace ++ [Event.call a c (env.exec c r.sess).1.code] }
  ask : ∀ f r, I r → I { r with sess := (env.canUpdate f r.sess).2 }
  stats : ∀ st r, I r → I { r with stats := st }
  uploaded : ∀ a r, I r → I { r with trace := r.trace ++ [Event.uploaded a] }
  removed : ∀ a r, I r → I { r with trace := r.trace ++ [Event.removed a] }

/-- The program makes only calls in `allowed`, and its result satisfies `R`. -/
def Makes (env : Env σ) (allowed : Option ℕ → DriverCall → Prop) (m : StateM (Run σ) α)
    (R : α → Prop) : Prop :=
  ∀ I, Stable env allowed I → ∀ r, I r → Ends m r fun a r' => R a ∧ I r'

section Rules
variable {m n : StateM (Run σ) α} {R S : α → Prop}

lemma Stable.mono {allowed' : Option ℕ → DriverCall → Prop} {I : Run σ → Prop}
    (h : Stable env allowed I) (hsub : ∀ a c, allowed' a c → allowed a c) : Stable env allowed' I :=
  ⟨fun a c r hc => h.call a c r (hsub a c hc), h.ask, h.stats, h.uploaded, h.removed⟩

lemma Makes.mono (h : Makes env allowed m R) (hR : ∀ a, R a → S a) : Makes env allowed m S :=
  fun I hI r hr => (h I hI r hr).mono fun a _ ha => ⟨hR a ha.1, ha.2⟩

lemma Makes.widen {allowed' : Option ℕ → DriverCall → Prop} (h : Makes env allowed' m R)
    (hsub : ∀ a c, allowed' a c → allowed a c) : Makes env allowed m R :=
  fun I hI => h I (hI.mono hsub)

lemma Makes.pure {a : α} (h : R a) : Makes env allowed (Pure.pure a) R := fun _ _ _ hr => ⟨h, hr⟩

lemma Makes.bind {k : α → StateM (Run σ) β} {T : β → Prop} (hm : Makes env allowed m R)
    (hk : ∀ a, R a → Makes env allowed (k a) T) : Makes env allowed (m >>= k) T := by
  intro I hI r hr
  rw [ends_bind]
  apply (hm I hI r hr).mono
  intro a r' ha
  exact hk a ha.1 I hI r' ha.2

lemma Makes.ite {c : Prop} [Decidable c] (hm : c → Makes env allowed m R)
    (hn : ¬ c → Makes env allowed n R) : Makes env allowed (if c then m else n) R := by
  split_ifs with h
  · exact hm h
  · exact hn h

lemma Makes.call {a : Option ℕ} {c : DriverCall} (h : allowed a c) :
    Makes env allowed (call env a c) fun _ => True := by
  intro I hI r hr
  rw [ends_call]
  exact ⟨trivial, hI.call a c r h hr⟩

lemma Makes.driverErr {a : Option ℕ} (h : allowed a .error) :
    Makes env allowed (driverErr env a) fun _ => True :=
  (Makes.call h).bind fun _ _ => Makes.pure trivial

lemma Makes.feCanUpdate (f : SiteFile) : Makes env allowed (feCanUpdate env f) fun _ => True := by
  intro I hI r hr
  rw [ends_feCanUpdate]
  exact ⟨trivial, hI.ask f r hr⟩

lemma Makes.setDiff (f : SiteFile) : Makes env allowed (setDiff o f) fun g =>
    g = { f with diff := fileCompare f.type f.localState f.storedState o } := by
  intro I hI r hr
  rw [ends_setDiff]
  exact ⟨rfl, hI.stats _ r hr⟩

lemma Makes.deleteEntry (f : SiteFile) : Makes env allowed (deleteEntry o f) fun _ => True := by
  intro I hI r hr
  rw [ends_deleteEntry]
  exact ⟨trivial, hI.removed _ _ (hI.stats _ r hr)⟩

lemma Makes.fileUploaded (f : SiteFile) : Makes env allowed (fileUploaded o f) fun g =>
    g = { f with
      storedState := uploadedState o f
      diff := fileCompare f.type f.localState (uploadedState o f) o } := by
  intro I hI r hr
  rw [ends_fileUploaded]
  exact ⟨rfl, hI.uploaded _ _ (hI.stats _ r hr)⟩

/-- A loop whose turns make only allowed calls. -/
lemma Makes.forEach {body : SiteFile → StateM (Run σ) Outcome} {J : SiteFile → Prop}
    {R : SiteFile → Prop} {files : List SiteFile} (hfiles : ∀ f ∈ files, J f)
    (hbody : ∀ f, J f → Makes env allowed (body f) fun out => ∀ g, out.1 = some g → R g) :
    Makes env allowed (forEach body files) fun out => ∀ g ∈ out.1, R g := by
  intro I hI r hr
  apply (forEach_ends (I := fun done rest _ r => ((∀ g ∈ done, R g) ∧ ∀ f ∈ rest, J f) ∧ I r) _
    ⟨⟨by simp, hfiles⟩, hr⟩).mono
  · rintro out r' ⟨⟨h, _⟩, hr'⟩
    exact ⟨h, hr'⟩
  · rintro done f rest failed r ⟨⟨hdone, hrest⟩, hr⟩
    apply (hbody f (hrest f (by simp)) I hI r hr).mono
    rintro out r' ⟨hout, hr'⟩
    refine ⟨⟨fun g hg => ?_, fun g hg => hrest g (by simp [hg])⟩, hr'⟩
    rcases List.mem_append.mp hg with hg | hg
    · exact hdone g hg
    · exact hout g (Option.mem_toList.mp hg)

lemma Makes.forEachBackward {body : SiteFile → StateM (Run σ) Outcome} {J : SiteFile → Prop}
    {R : SiteFile → Prop} {files : List SiteFile} (hfiles : ∀ f ∈ files, J f)
    (hbody : ∀ f, J f → Makes env allowed (body f) fun out => ∀ g, out.1 = some g → R g) :
    Makes env allowed (forEachBackward body files) fun out => ∀ g ∈ out.1, R g := by
  have hreverse : ∀ f ∈ files.reverse, J f := by simpa using hfiles
  apply (Makes.forEach hreverse hbody).bind
  intro out hout
  exact Makes.pure (by simpa using hout)

end Rules

/-! ### The calls of one turn -/

/-- The calls that a handler makes for the entry it acts on. -/
inductive TurnCall (o : SiteOptions) (f : SiteFile) : Handler → DriverCall → Prop
  | error {p : Handler} : TurnCall o f p .error
  | deleteFile : TurnCall o f .deleteFiles (.fileDelete (fileFullRemote f.storedState o))
  | createDirectory : TurnCall o f .createDirectories (.dirCreate (fileFullRemote f.localState o))
  | chmodDirectory : TurnCall o f .createDirectories
      (.fileChmod (fileFullRemote f.localState o) f.localState.mode)
  | moveFile : TurnCall o f .moveFiles
      (.fileMove (fileFullRemote f.storedState o) (fileFullRemote f.localState o))
  | replaceFile : f.diff = .changed → o.nooverwrite = true →
      TurnCall o f .files (.fileDelete (fileFullRemote f.localState o))
  | upload : o.tempupload = false → TurnCall o f .files
      (.fileUpload (fileFullLocal f.localState o) (fileFullRemote f.localState o)
        f.localState.ascii)
  | uploadCond (t : ℤ) : TurnCall o f .files
      (.fileUploadCond (fileFullLocal f.localState o) (fileFullRemote f.localState o)
        f.localState.ascii t)
  | uploadTemp : o.tempupload = true → TurnCall o f .files
      (.fileUpload (fileFullLocal f.localState o)
        (tempUploadFilename (fileFullRemote f.localState o)) f.localState.ascii)
  | moveTemp : o.tempupload = true → TurnCall o f .files
      (.fileMove (tempUploadFilename (fileFullRemote f.localState o))
        (fileFullRemote f.localState o))
  | getModtime : TurnCall o f .files (.fileGetModtime (fileFullRemote f.localState o))
  | chmodFile : TurnCall o f .files
      (.fileChmod (fileFullRemote f.localState o) f.localState.mode)
  | createLink (target : Text) : f.diff ≠ .deleted →
      TurnCall o f .links (.linkCreate (fileFullRemote f.localState o) target)
  | changeLink (target : Text) : f.diff ≠ .deleted →
      TurnCall o f .links (.linkChange (fileFullRemote f.localState o) target)
  | deleteLink : f.diff = .deleted →
      TurnCall o f .links (.linkDelete (fileFullRemote f.localState o))
  | removeDirectory :
      TurnCall o f .deleteDirectories (.dirRemove (fileFullRemote f.storedState o))

/-- The calls of a handler, all for the entry. -/
def OwnCall (o : SiteOptions) (f : SiteFile) (p : Handler) (a : Option ℕ) (c : DriverCall) : Prop :=
  a = some f.addr ∧ TurnCall o f p c

/-- An entry that differs from `f` at most in its stored and server states and its diff. -/
structure SameFile (f g : SiteFile) : Prop where
  addr : g.addr = f.addr
  type : g.type = f.type
  localState : g.localState = f.localState

/-- The entry that a turn leaves, if any. -/
def Leaves (P : SiteFile → Prop) (out : Outcome) : Prop := ∀ g, out.1 = some g → P g

section Turns
variable {f g : SiteFile} {p : Handler}

lemma SameFile.refl (f : SiteFile) : SameFile f f := ⟨rfl, rfl, rfl⟩

lemma leaves_some {P : SiteFile → Prop} {failed : Bool} (h : P g) : Leaves P (some g, failed) := by
  rintro x ⟨⟩
  exact h

lemma leaves_none {P : SiteFile → Prop} {failed : Bool} : Leaves P (none, failed) := by
  rintro x ⟨⟩

/-- A call for `g`, which is `f` but for its stored state. -/
lemma makes_own (h : SameFile f g) {c : DriverCall} (hc : TurnCall o f p c) :
    Makes env (OwnCall o f p) (call env (some g.addr) c) fun _ => True :=
  Makes.call ⟨congrArg some h.addr, hc⟩

/-- A turn that fails leaves the entry. -/
lemma makes_gaveUp {P : SiteFile → Prop} (h : SameFile f g) (hP : Leaves P (some g, true)) :
    Makes env (OwnCall o f p)
      (do driverErr env g.addr; pure (some g, true) : StateM (Run σ) Outcome) (Leaves P) :=
  (Makes.driverErr ⟨congrArg some h.addr, .error⟩).bind fun _ _ => Makes.pure hP

lemma fileChmod_makes (h : SameFile f g) : Makes env (OwnCall o f .files) (fileChmod env o g)
    fun out => SameFile f out.1 := by
  unfold fileChmod
  apply Makes.ite
  · intro _
    rw [h.localState]
    apply (makes_own h .chmodFile).bind
    intro ret _
    apply Makes.ite
    · intro _
      exact (Makes.driverErr ⟨congrArg some h.addr, .error⟩).bind fun _ _ => Makes.pure h
    · intro _
      apply (Makes.setDiff _).bind
      rintro x rfl
      exact Makes.pure ⟨h.addr, h.type, rfl⟩
  · intro _
    exact Makes.pure h

lemma fileRetrieveServer_makes (h : SameFile f g) :
    Makes env (OwnCall o f .files) (fileRetrieveServer env o g) (SameFile f) := by
  unfold fileRetrieveServer
  rw [h.localState]
  apply (makes_own h .getModtime).bind
  intro ret _
  apply Makes.ite
  · intro _
    exact Makes.pure ⟨h.addr, h.type, rfl⟩
  · intro _
    apply (Makes.driverErr ⟨congrArg some h.addr, .error⟩).bind
    intro _ _
    exact Makes.pure ⟨h.addr, h.type, rfl⟩

lemma finishUpload_makes (h : SameFile f g) :
    Makes env (OwnCall o f .files) (finishUpload env o g) (Leaves (SameFile f)) := by
  unfold finishUpload
  apply (fileChmod_makes h).bind
  intro out hout
  apply (Makes.fileUploaded _).bind
  rintro x rfl
  exact Makes.pure (leaves_some ⟨hout.addr, hout.type, hout.localState⟩)

lemma finishPlainUpload_makes (h : SameFile f g) :
    Makes env (OwnCall o f .files) (finishPlainUpload env o g) (Leaves (SameFile f)) := by
  unfold finishPlainUpload
  dsimp only
  apply Makes.ite
  · intro _
    exact (fileRetrieveServer_makes h).bind fun x hx => finishUpload_makes hx
  · intro _
    exact (Makes.pure h).bind fun x hx => finishUpload_makes hx

lemma uploadFile_makes : Makes env (OwnCall o f .files) (uploadFile env o f)
    (Leaves (SameFile f)) := by
  have hf := SameFile.refl f
  unfold uploadFile
  apply Makes.ite
  · intro _
    apply (makes_own hf (.uploadCond _)).bind
    intro cret _
    apply Makes.ite (fun _ => makes_gaveUp hf (leaves_some hf))
    intro _
    apply Makes.ite (fun _ => Makes.pure (leaves_some hf))
    intro _
    exact (fileRetrieveServer_makes hf).bind fun x hx => finishUpload_makes hx
  · intro _
    apply Makes.ite
    · intro htemp
      apply (makes_own hf (.uploadTemp htemp)).bind
      intro ret _
      apply Makes.ite (fun _ => makes_gaveUp hf (leaves_some hf))
      intro _
      apply (makes_own hf (.moveTemp htemp)).bind
      intro ret' _
      exact Makes.ite (fun _ => makes_gaveUp hf (leaves_some hf)) fun _ => finishPlainUpload_makes hf
    · intro htemp
      apply (makes_own hf (.upload (by simpa using htemp))).bind
      intro ret _
      exact Makes.ite (fun _ => makes_gaveUp hf (leaves_some hf)) fun _ => finishPlainUpload_makes hf

lemma updateNewFile_makes : Makes env (OwnCall o f .files) (updateNewFile env o f)
    (Leaves (SameFile f)) := by
  have hf := SameFile.refl f
  unfold updateNewFile
  apply (Makes.feCanUpdate f).bind
  intro ok _
  apply Makes.ite
  · intro _
    apply Makes.ite
    · intro hreplace
      apply (makes_own hf (.replaceFile hreplace.1 hreplace.2)).bind
      intro ret _
      exact Makes.ite (fun _ => makes_gaveUp hf (leaves_some hf)) fun _ => uploadFile_makes
    · exact fun _ => uploadFile_makes
  · exact fun _ => Makes.pure (leaves_some hf)

lemma updateFile_makes : Makes env (OwnCall o f .files) (updateFile env o f)
    (Leaves (SameFile f)) := by
  have hf := SameFile.refl f
  unfold updateFile
  apply Makes.ite (fun _ => Makes.pure (leaves_some hf))
  intro _
  cases f.diff with
  | unchanged | deleted | moved => exact Makes.pure (leaves_some hf)
  | new => exact updateNewFile_makes
  | changed =>
    apply Makes.ite (fun _ => Makes.pure (leaves_some hf))
    intro _
    apply Makes.ite _ (fun _ => updateNewFile_makes)
    intro _
    apply (fileChmod_makes hf).bind
    intro out hout
    exact Makes.pure (leaves_some hout)

/-- What a deletion leaves: the entry as it was, or nothing. -/
lemma updateDeleteFile_makes :
    Makes env (OwnCall o f .deleteFiles) (updateDeleteFile env o f) (Leaves (· = f)) := by
  have hkept : ∀ failed, Leaves (· = f) (some f, failed) := fun _ => leaves_some rfl
  unfold updateDeleteFile
  apply Makes.ite _ (fun _ => Makes.pure (hkept _))
  intro _
  apply (Makes.feCanUpdate f).bind
  intro ok _
  apply Makes.ite _ (fun _ => Makes.pure (hkept _))
  intro _
  apply (makes_own (.refl f) .deleteFile).bind
  intro ret _
  apply Makes.ite (fun _ => makes_gaveUp (.refl f) (hkept _))
  intro _
  exact (Makes.deleteEntry f).bind fun _ _ => Makes.pure leaves_none

lemma updateDeleteDirectory_makes :
    Makes env (OwnCall o f .deleteDirectories) (updateDeleteDirectory env o f) (Leaves (· = f)) := by
  have hkept : ∀ failed, Leaves (· = f) (some f, failed) := fun _ => leaves_some rfl
  unfold updateDeleteDirectory
  apply Makes.ite _ (fun _ => Makes.pure (hkept _))
  intro _
  apply (Makes.feCanUpdate f).bind
  intro ok _
  apply Makes.ite _ (fun _ => Makes.pure (hkept _))
  intro _
  apply (makes_own (.refl f) .removeDirectory).bind
  intro ret _
  apply Makes.ite (fun _ => makes_gaveUp (.refl f) (hkept _))
  intro _
  exact (Makes.deleteEntry f).bind fun _ _ => Makes.pure leaves_none

/-- The entry as `file_uploaded` leaves it. -/
def uploadedEntry (o : SiteOptions) (f : SiteFile) : SiteFile :=
  { f with
    storedState := uploadedState o f
    diff := fileCompare f.type f.localState (uploadedState o f) o }

lemma updateMoveFile_makes : Makes env (OwnCall o f .moveFiles) (updateMoveFile env o f)
    (Leaves fun g => g = f ∨ g = uploadedEntry o f) := by
  have hkept : ∀ failed, Leaves (fun g => g = f ∨ g = uploadedEntry o f) (some f, failed) :=
    fun _ => leaves_some (Or.inl rfl)
  unfold updateMoveFile
  apply Makes.ite _ (fun _ => Makes.pure (hkept _))
  intro _
  apply (Makes.feCanUpdate f).bind
  intro ok _
  apply Makes.ite _ (fun _ => Makes.pure (hkept _))
  intro _
  apply (makes_own (.refl f) .moveFile).bind
  intro ret _
  apply Makes.ite (fun _ => makes_gaveUp (.refl f) (hkept _))
  intro _
  apply (Makes.fileUploaded f).bind
  rintro x rfl
  exact Makes.pure (leaves_some (Or.inr rfl))

lemma updateCreateDirectory_makes :
    Makes env (OwnCall o f .createDirectories) (updateCreateDirectory env o f)
      (Leaves fun g => g = f ∨ g = uploadedEntry o f) := by
  have hkept : ∀ failed, Leaves (fun g => g = f ∨ g = uploadedEntry o f) (some f, failed) :=
    fun _ => leaves_some (Or.inl rfl)
  -- a call whose code is kept for the rest `k` of the turn
  have hcode : ∀ c, TurnCall o f .createDirectories c → ∀ k : ℤ → StateM (Run σ) Outcome,
      (∀ code, Makes env (OwnCall o f .createDirectories) (k code)
        (Leaves fun g => g = f ∨ g = uploadedEntry o f)) →
      Makes env (OwnCall o f .createDirectories) (do
        let ret ← call env f.addr c
        if ret.code ≠ SITE_OK then do
          let _ ← driverErr env f.addr
          let code ← pure ret.code
          k code
        else do
          let code ← pure ret.code
          k code) (Leaves fun g => g = f ∨ g = uploadedEntry o f) := by
    intro c hc k hk
    have hrest : ∀ code, Makes env (OwnCall o f .createDirectories)
        (do let code ← pure code; k code) (Leaves fun g => g = f ∨ g = uploadedEntry o f) :=
      fun code => (Makes.pure (R := fun _ => True) trivial).bind fun code _ => hk code
    apply (makes_own (.refl f) hc).bind
    intro ret _
    apply Makes.ite _ (fun _ => hrest _)
    intro _
    exact (Makes.driverErr ⟨rfl, .error⟩).bind fun _ _ => hrest _
  have hfinish : ∀ oret, Makes env (OwnCall o f .createDirectories) (finishDirectory o f oret)
      (Leaves fun g => g = f ∨ g = uploadedEntry o f) := by
    intro oret
    unfold finishDirectory
    apply Makes.ite (fun _ => Makes.pure (hkept _))
    intro _
    apply (Makes.fileUploaded f).bind
    rintro x rfl
    exact Makes.pure (leaves_some (Or.inr rfl))
  have hchmod : ∀ oret, Makes env (OwnCall o f .createDirectories)
      (if o.dirperms ∧ oret = SITE_OK then do
        let ret ← call env f.addr
          (.fileChmod (fileFullRemote f.localState o) f.localState.mode)
        if ret.code ≠ SITE_OK then do
          let _ ← driverErr env f.addr
          let code ← pure ret.code
          finishDirectory o f code
        else do
          let code ← pure ret.code
          finishDirectory o f code
      else do
        let code ← pure oret
        finishDirectory o f code) (Leaves fun g => g = f ∨ g = uploadedEntry o f) := by
    intro oret
    apply Makes.ite (fun _ => hcode _ .chmodDirectory _ hfinish)
    intro _
    exact (Makes.pure (R := fun _ => True) trivial).bind fun code _ => hfinish code
  unfold updateCreateDirectory
  apply Makes.ite _ (fun _ => Makes.pure (hkept _))
  intro _
  apply (Makes.feCanUpdate f).bind
  intro ok _
  apply Makes.ite _ (fun _ => Makes.pure (hkept _))
  intro _
  apply Makes.ite (fun _ => hcode _ .createDirectory _ hchmod)
  intro _
  exact (Makes.pure (R := fun _ => True) trivial).bind fun code _ => hchmod code

lemma updateLink_makes : Makes env (OwnCall o f .links) (updateLink env o f)
    (Leaves (SameFile f)) := by
  have hf := SameFile.refl f
  unfold updateLink
  apply Makes.ite (fun _ => Makes.pure (leaves_some hf))
  intro _
  cases hd : f.diff with
  | unchanged | moved => exact Makes.pure (leaves_some hf)
  | new =>
    apply (makes_own hf (.createLink _ (by simp [hd]))).bind
    intro ret _
    exact Makes.ite (fun _ => makes_gaveUp hf (leaves_some hf)) fun _ => Makes.pure (leaves_some ⟨rfl, rfl, rfl⟩)
  | changed =>
    apply (makes_own hf (.changeLink _ (by simp [hd]))).bind
    intro ret _
    exact Makes.ite (fun _ => makes_gaveUp hf (leaves_some hf)) fun _ => Makes.pure (leaves_some ⟨rfl, rfl, rfl⟩)
  | deleted =>
    apply (makes_own hf (.deleteLink hd)).bind
    intro ret _
    apply Makes.ite (fun _ => makes_gaveUp hf (leaves_some hf))
    intro _
    exact (Makes.deleteEntry f).bind fun _ _ => Makes.pure leaves_none

end Turns

/-! ### The whole update -/

/-- The place of a handler in the table. -/
def Handler.rank : Handler → ℕ
  | .deleteFiles => 1
  | .createDirectories => 2
  | .moveFiles => 3
  | .files => 4
  | .links => 5
  | .deleteDirectories => 6

/-- The diff is right, or it says that there is nothing to do. -/
def DiffOk (o : SiteOptions) (f : SiteFile) : Prop := f.diff = .unchanged ∨ Compared o f

/-- No handler after the first `n` acts on the entry. -/
def Spent (n : ℕ) (f : SiteFile) : Prop := ∀ p, activeHandler f = some p → Handler.rank p ≤ n

/-- The calls of an update of these files. -/
inductive UpdateCall (o : SiteOptions) (files : List SiteFile) : Option ℕ → DriverCall → Prop
  | session {c : DriverCall} : c = .init ∨ c = .finish ∨ c = .error → UpdateCall o files none c
  | turn {f : SiteFile} {p : Handler} {c : DriverCall} : f ∈ files → activeHandler f = some p →
      (p, true) ∈ handlerTable o → TurnCall o f p c → UpdateCall o files (some f.addr) c

section Update
variable {f g : SiteFile} {p : Handler} {start files : List SiteFile} {n : ℕ}

lemma Spent.mono {m : ℕ} (h : Spent n f) (hle : n ≤ m) : Spent m f :=
  fun p hp => (h p hp).trans hle

lemma spent_active (h : activeHandler f = some p) : Spent (Handler.rank p) f := by
  intro q hq
  rw [h] at hq
  obtain rfl := Option.some.inj hq
  exact le_rfl

/-- A stored directory or file needs no further handler. -/
lemma spent_uploaded (ht : f.type ≠ .link) (hl : f.localState.existing = true) :
    Spent n (uploadedEntry o f) := by
  have hd : (uploadedEntry o f).diff = .unchanged := compare_uploaded ht hl
  intro q hq
  simp [activeHandler, hd] at hq

lemma spent_file (h : f.type = .file) : Spent (Handler.rank .files) f := by
  intro q hq
  cases hd : f.diff <;> simp [activeHandler, hd, h] at hq <;> subst hq <;> decide

lemma spent_link (h : f.type = .link) : Spent (Handler.rank .links) f := by
  intro q hq
  cases hd : f.diff <;> simp [activeHandler, hd, h] at hq <;> subst hq <;> decide

/-- The turn in which an entry is acted on; no later handler acts on what it leaves. -/
theorem turn_makes (h : DiffOk o f) (hact : activeHandler f = some p) :
    Makes env (OwnCall o f p) (p.turn env o f) (Leaves (Spent (Handler.rank p))) := by
  have hne : f.diff ≠ .unchanged := by
    intro hd
    simp [activeHandler, hd] at hact
  have hcmp : Compared o f := h.resolve_left hne
  have hsame : ∀ out : Outcome, Leaves (· = f) out → Leaves (Spent (Handler.rank p)) out := by
    intro out hout g hg
    rw [hout g hg]
    exact spent_active hact
  have huploaded : f.type ≠ .link → f.localState.existing = true → ∀ out : Outcome,
      Leaves (fun g => g = f ∨ g = uploadedEntry o f) out →
        Leaves (Spent (Handler.rank p)) out := by
    intro ht hl out hout g hg
    rcases hout g hg with rfl | rfl
    · exact spent_active hact
    · exact spent_uploaded ht hl
  have hlocal : f.diff ≠ .deleted → f.localState.existing = true := by
    intro hd
    by_contra hl
    rw [Bool.not_eq_true] at hl
    exact hd (hcmp.trans (fileCompare_deleted_iff.mpr hl))
  cases p with
  | deleteFiles => exact updateDeleteFile_makes.mono hsame
  | deleteDirectories => exact updateDeleteDirectory_makes.mono hsame
  | createDirectories =>
    have hdir : f.type = .dir ∧ f.diff ≠ .deleted := by
      cases hd : f.diff <;> cases ht : f.type <;> simp [activeHandler, hd, ht] at hact ⊢
    exact updateCreateDirectory_makes.mono (huploaded (by simp [hdir.1]) (hlocal hdir.2))
  | moveFiles =>
    have hmoved : f.diff = .moved := by
      cases hd : f.diff <;> cases ht : f.type <;> simp [activeHandler, hd, ht] at hact ⊢
    have hcmp' : fileCompare f.type f.localState f.storedState o = .moved := by
      rw [← hcmp, hmoved]
    obtain ⟨ht, _, hl, _⟩ := fileCompare_moved hcmp'
    exact updateMoveFile_makes.mono (huploaded (by simp [ht]) hl)
  | files =>
    have ht : f.type = .file := by
      cases hd : f.diff <;> cases ht : f.type <;> simp [activeHandler, hd, ht] at hact ⊢
    apply updateFile_makes.mono
    intro out hout g hg
    exact spent_file ((hout g hg).type.trans ht)
  | links =>
    have ht : f.type = .link := by
      cases hd : f.diff <;> cases ht : f.type <;> simp [activeHandler, hd, ht] at hact ⊢
    apply updateLink_makes.mono
    intro out hout g hg
    exact spent_link ((hout g hg).type.trans ht)

lemma pass_makes (hstart : ∀ f ∈ start, DiffOk o f) (hguard : (p, true) ∈ handlerTable o)
    (hn : n < Handler.rank p) (hfiles : ∀ f ∈ files, f ∈ start ∨ Spent n f) :
    Makes env (UpdateCall o start) (p.pass env o files) fun out =>
      ∀ g ∈ out.1, g ∈ start ∨ Spent (Handler.rank p) g := by
  have hturn : ∀ f, (f ∈ start ∨ Spent n f) → Makes env (UpdateCall o start) (p.turn env o f)
      (Leaves fun g => g ∈ start ∨ Spent (Handler.rank p) g) := by
    intro f hf
    by_cases hact : activeHandler f = some p
    · have hmem : f ∈ start := by
        apply hf.resolve_right
        intro hspent
        exact absurd (hspent p hact) (by omega)
      apply Makes.mono _ (fun out (hout : Leaves (Spent (Handler.rank p)) out) g hg =>
        Or.inr (hout g hg))
      apply (turn_makes (hstart f hmem) hact).widen
      rintro a c ⟨rfl, hc⟩
      exact .turn hmem hact hguard hc
    · rw [turn_idle hact]
      exact Makes.pure (leaves_some (hf.imp_right fun hs => hs.mono hn.le))
  cases p with
  | deleteFiles | createDirectories | moveFiles | files | links =>
    exact Makes.forEach hfiles hturn
  | deleteDirectories => exact Makes.forEachBackward hfiles hturn

lemma runHandlers_makes (hstart : ∀ f ∈ start, DiffOk o f) (table : List (Handler × Bool))
    (htable : ∀ e ∈ table, e.2 = true → e ∈ handlerTable o)
    (horder : (table.map fun e => Handler.rank e.1).Pairwise (· < ·))
    (hn : ∀ e ∈ table, n < Handler.rank e.1) (hfiles : ∀ f ∈ files, f ∈ start ∨ Spent n f)
    (failed : Bool) : Makes env (UpdateCall o start)
      (runHandlers o (table.map fun e => (e.1.pass env o, e.2)) failed files) fun _ => True := by
  induction table generalizing files failed n with
  | nil => exact Makes.pure trivial
  | cons e table ih =>
    obtain ⟨p, guard⟩ := e
    rw [List.map_cons, List.pairwise_cons] at horder
    have htable' : ∀ e ∈ table, e.2 = true → e ∈ handlerTable o :=
      fun e he => htable e (List.mem_cons_of_mem _ he)
    rw [List.map_cons, runHandlers]
    apply Makes.ite _ (fun _ => Makes.pure trivial)
    intro _
    apply Makes.ite
    · intro hg
      have hguard : (p, true) ∈ handlerTable o := by
        have hmem := htable (p, guard) List.mem_cons_self hg
        rwa [show guard = true from hg] at hmem
      apply (pass_makes hstart hguard (hn _ List.mem_cons_self) hfiles).bind
      intro out hout
      apply ih htable' horder.2 _ hout
      exact fun e he => horder.1 _ (List.mem_map_of_mem he)
    · intro _
      exact ih htable' horder.2 (fun e he => hn e (List.mem_cons_of_mem _ he)) hfiles failed

/-- An update makes only the calls that its list of files determines. -/
theorem updateSiteFiles_makes (hstart : ∀ f ∈ start, DiffOk o f) :
    Makes env (UpdateCall o start) (updateSiteFiles env o start) fun _ => True := by
  have hfinish : Makes env (UpdateCall o start) (protoFinish env) fun _ => True := by
    unfold protoFinish
    apply (Makes.driverErr (.session (Or.inr (Or.inr rfl)))).bind
    intro _ _
    apply (Makes.call (.session (Or.inr (Or.inl rfl)))).bind
    exact fun _ _ => Makes.pure trivial
  have hinit : Makes env (UpdateCall o start) (protoInit env) fun _ => True := by
    unfold protoInit
    apply (Makes.call (.session (Or.inl rfl))).bind
    intro ret _
    apply Makes.ite
    · intro _
      apply (Makes.driverErr (.session (Or.inr (Or.inr rfl)))).bind
      exact fun _ _ => Makes.pure trivial
    · exact fun _ => Makes.pure trivial
  unfold updateSiteFiles
  apply hinit.bind
  intro ret _
  apply Makes.ite
  · intro _
    exact hfinish.bind fun _ _ => Makes.pure trivial
  · intro _
    rw [handlers_eq]
    apply (runHandlers_makes (n := 0) hstart (handlerTable o) (fun _ he _ => he)
      (by simp [handlerTable, Handler.rank]) (by simp [handlerTable, Handler.rank])
      (fun f hf => Or.inl hf) false).bind
    intro r _
    exact hfinish.bind fun _ _ => Makes.pure trivial

/-- What these calls preserve holds after the update. -/
theorem siteUpdate_preserves {site : Site} (hdiff : ∀ f ∈ site.files, DiffOk site.opts f)
    {I : Run σ → Prop} (hI : Stable env (UpdateCall site.opts site.files) I) {sess : σ}
    (h : I { stats := site.stats, sess := sess }) :
    I { stats := (siteUpdate env site sess).site.stats
        sess := (siteUpdate env site sess).sess
        trace := (siteUpdate env site sess).trace } :=
  (updateSiteFiles_makes hdiff I hI { stats := site.stats, sess := sess } h).2

/-- All calls in the trace of an update are such calls. -/
theorem siteUpdate_calls {site : Site} (hdiff : ∀ f ∈ site.files, DiffOk site.opts f) (sess : σ) :
    ∀ a c code, Event.call a c code ∈ (siteUpdate env site sess).trace →
      UpdateCall site.opts site.files a c := by
  let I : Run σ → Prop := fun r =>
    ∀ a c code, Event.call a c code ∈ r.trace → UpdateCall site.opts site.files a c
  have hnote : ∀ (e : Event) (r : Run σ), (∀ a c code, e ≠ .call a c code) → I r →
      I { r with trace := r.trace ++ [e] } := by
    intro e r he hr a c code hm
    rcases List.mem_append.mp hm with hm | hm
    · exact hr a c code hm
    · exact absurd (List.mem_singleton.mp hm).symm (he a c code)
  have hcall : ∀ (a : Option ℕ) (c : DriverCall) (r : Run σ),
      UpdateCall site.opts site.files a c → I r → I { r with
        sess := (env.exec c r.sess).2
        trace := r.trace ++ [Event.call a c (env.exec c r.sess).1.code] } := by
    intro a c r hc hr a' c' code hm
    rcases List.mem_append.mp hm with hm | hm
    · exact hr a' c' code hm
    · obtain ⟨rfl, rfl, _⟩ := Event.call.inj (List.mem_singleton.mp hm)
      exact hc
  have hI : Stable env (UpdateCall site.opts site.files) I :=
    ⟨hcall, fun f r hr => hr, fun st r hr => hr, fun a r hr => hnote _ r (by simp) hr,
      fun a r hr => hnote _ r (by simp) hr⟩
  exact siteUpdate_preserves hdiff hI (by intro a c code hm; cases hm)

end Update

end Sitecopy.DriverCalls
