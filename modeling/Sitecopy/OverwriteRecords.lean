import Sitecopy.SetLog
import Sitecopy.UpdateRecords

/-!
# What `update_files` records, and which remote files there are

The driver holds a set of remote files on which every call answered with `SITE_OK` has
its effect. Under `nooverwrite` a changed file is deleted before it is uploaded again,
and nothing is recorded in between.
-/
namespace Sitecopy.OverwriteRecords
open SiteModel FileSet FileSetSpec StateProgram SiteStats SiteUpdate UpdateAccounting
open UpdateRecords SetLog

/-! ### The remote files -/

/-- The files that a call creates and removes when it succeeds. -/
def fileEffects : Effects Event Text where
  adds
    | .call _ c code => {p | code = SITE_OK ∧ match c with
      | .fileUpload _ remote _ | .fileUploadCond _ remote _ _ | .fileMove _ remote => p = remote
      | _ => False}
    | .uploaded _ | .removed _ => ∅
  drops
    | .call _ c code => {p | code = SITE_OK ∧ match c with
      | .fileDelete remote | .fileMove remote _ => p = remote
      | _ => False}
    | .uploaded _ | .removed _ => ∅

/-- A driver whose sessions hold a set of remote files. -/
structure Remote (σ : Type) where
  env : Env σ
  files : σ → Set Text
  exec : ∀ a c s, files (env.exec c s).2 =
    fileEffects.apply (files s) (.call a c (env.exec c s).1.code)
  ask : ∀ f s, files (env.canUpdate f s).2 = files s

variable {σ : Type} {D : Remote σ} {o : SiteOptions} {f : SiteFile} {r : Run σ} {start : Set Text}

/-- The remote files are those that the trace leaves. -/
def Followed (D : Remote σ) (start : Set Text) (r : Run σ) : Prop :=
  D.files r.sess = fileEffects.replay start r.trace

/-- A program that only changes the remote site through its calls. -/
def Follows {α : Type} (D : Remote σ) (m : StateM (Run σ) α) : Prop :=
  ∀ start r, Followed D start r → Ends m r fun _ r' => Followed D start r'

section Follows
variable {α β : Type} {m n : StateM (Run σ) α}

lemma Follows.pure {a : α} : Follows D (Pure.pure a : StateM (Run σ) α) := fun _ _ h => h

lemma Follows.bind {k : α → StateM (Run σ) β} (hm : Follows D m) (hk : ∀ a, Follows D (k a)) :
    Follows D (m >>= k) := fun start r h => (hm start r h).mono fun a r' => hk a start r'

lemma Follows.ite {c : Prop} [Decidable c] (hm : Follows D m) (hn : Follows D n) :
    Follows D (if c then m else n) := by
  split_ifs
  · exact hm
  · exact hn

lemma Follows.call (a : Option ℕ) (c : DriverCall) : Follows D (call D.env a c) := by
  intro start r h
  rw [ends_call]
  unfold Followed at h ⊢
  rw [replay_append, ← h, D.exec a c r.sess]
  rfl

lemma Follows.driverErr (a : Option ℕ) : Follows D (driverErr D.env a) :=
  (Follows.call a .error).bind fun _ => Follows.pure

lemma Follows.feCanUpdate (f : SiteFile) : Follows D (feCanUpdate D.env f) := by
  intro start r h
  exact (D.ask f r.sess).trans h

lemma Follows.setDiff (f : SiteFile) : Follows D (setDiff o f : StateM (Run σ) SiteFile) :=
  fun _ _ h => h

lemma Follows.fileUploaded (f : SiteFile) :
    Follows D (fileUploaded o f : StateM (Run σ) SiteFile) := by
  intro start r h
  rw [ends_fileUploaded]
  unfold Followed at h ⊢
  rw [replay_append, ← h]
  simp [Effects.replay, Effects.apply, fileEffects]

end Follows

lemma fileChmod_follows (f : SiteFile) : Follows D (fileChmod D.env o f) := by
  unfold fileChmod
  apply Follows.ite _ Follows.pure
  apply (Follows.call _ _).bind
  intro ret
  apply Follows.ite
  · exact (Follows.driverErr _).bind fun _ => Follows.pure
  · exact (Follows.setDiff _).bind fun _ => Follows.pure

lemma fileRetrieveServer_follows (f : SiteFile) : Follows D (fileRetrieveServer D.env o f) := by
  unfold fileRetrieveServer
  apply (Follows.call _ _).bind
  intro ret
  apply Follows.ite Follows.pure
  exact (Follows.driverErr _).bind fun _ => Follows.pure

lemma finishUpload_follows (f : SiteFile) : Follows D (finishUpload D.env o f) := by
  unfold finishUpload
  apply (fileChmod_follows f).bind
  intro out
  exact (Follows.fileUploaded _).bind fun _ => Follows.pure

lemma finishPlainUpload_follows (f : SiteFile) : Follows D (finishPlainUpload D.env o f) := by
  unfold finishPlainUpload
  dsimp only
  apply Follows.ite
  · exact (fileRetrieveServer_follows f).bind finishUpload_follows
  · exact Follows.pure.bind finishUpload_follows

lemma gaveUp_follows {a : Option ℕ} {out : Outcome} :
    Follows D (do driverErr D.env a; pure out) := (Follows.driverErr a).bind fun _ => Follows.pure

lemma uploadFile_follows (f : SiteFile) : Follows D (uploadFile D.env o f) := by
  unfold uploadFile
  apply Follows.ite
  · apply (Follows.call _ _).bind
    intro cret
    apply Follows.ite gaveUp_follows
    apply Follows.ite Follows.pure
    exact (fileRetrieveServer_follows f).bind finishUpload_follows
  · apply Follows.ite
    · apply (Follows.call _ _).bind
      intro ret
      apply Follows.ite gaveUp_follows
      apply (Follows.call _ _).bind
      intro ret
      exact Follows.ite gaveUp_follows (finishPlainUpload_follows f)
    · apply (Follows.call _ _).bind
      intro ret
      exact Follows.ite gaveUp_follows (finishPlainUpload_follows f)

lemma updateNewFile_follows (f : SiteFile) : Follows D (updateNewFile D.env o f) := by
  unfold updateNewFile
  apply (Follows.feCanUpdate f).bind
  intro ok
  apply Follows.ite _ Follows.pure
  apply Follows.ite _ (uploadFile_follows f)
  apply (Follows.call _ _).bind
  intro ret
  exact Follows.ite gaveUp_follows (uploadFile_follows f)

lemma updateFile_follows (f : SiteFile) : Follows D (updateFile D.env o f) := by
  unfold updateFile
  apply Follows.ite Follows.pure
  cases f.diff with
  | unchanged | deleted | moved => exact Follows.pure
  | new => exact updateNewFile_follows f
  | changed =>
    apply Follows.ite Follows.pure
    apply Follows.ite _ (updateNewFile_follows f)
    exact (fileChmod_follows f).bind fun _ => Follows.pure

lemma updateFiles_follows (files : List SiteFile) : Follows D (updateFiles D.env o files) := by
  intro start r h
  apply forEach_ends (I := fun _ _ _ r => Followed D start r) _ h
  intro _ f _ _ r h
  exact updateFile_follows f start r h

/-! ### The visits -/

/-- The entry may have another mode, but it records the same remote file. -/
structure Kept (f g : SiteFile) : Prop where
  addr : g.addr = f.addr
  type : g.type = f.type
  localState : g.localState = f.localState
  filename : g.storedState.filename = f.storedState.filename
  existing : g.storedState.existing = f.storedState.existing

/-- The entry records its local file. -/
structure Took (f g : SiteFile) : Prop where
  type : g.type = f.type
  filename : g.storedState.filename = f.localState.filename
  existing : g.storedState.existing = f.localState.existing

/-- A successful call for the entry put a file at its remote path. -/
def Placed (o : SiteOptions) (trace : List Event) (f : SiteFile) : Prop :=
  ∃ e ∈ trace, owner e = some f.addr ∧ fileFullRemote f.localState o ∈ fileEffects.adds e

/-- One visit of `update_files`. -/
structure FileVisit (o : SiteOptions) (f : SiteFile) (out : Outcome) (seg : List Event) : Prop where
  placed : Placed o seg f → (f.diff = .new ∨ f.diff = .changed) ∧ ∃ g, out.1 = some g ∧ Took f g
  other : ¬ Placed o seg f → ∃ g, out.1 = some g ∧ Kept f g

lemma FileVisit.idle {seg : List Event} {failed : Bool} (h : ¬ Placed o seg f) :
    FileVisit o f (some f, failed) seg :=
  ⟨fun hu => absurd hu h, fun _ => ⟨f, rfl, rfl, rfl, rfl, rfl, rfl⟩⟩

lemma not_placed_nil : ¬ Placed o [] f := by simp [Placed]

lemma not_placed_append {s t : List Event} (hs : ¬ Placed o s f) (ht : ¬ Placed o t f) :
    ¬ Placed o (s ++ t) f := by
  rintro ⟨e, he, hadd⟩
  rcases List.mem_append.mp he with he | he
  · exact hs ⟨e, he, hadd⟩
  · exact ht ⟨e, he, hadd⟩

lemma tempUploadFilename_ne (p : Text) : p ≠ tempUploadFilename p := by
  intro h
  have hlen := congrArg List.length h
  simp only [tempUploadFilename, List.length_append, List.length_take] at hlen
  have hdot : (ascii ".in.").length = 4 := by decide
  omega

variable {env : Env σ}

lemma fileChmod_visit : Adds r (fileChmod env o f) fun out seg =>
    Kept f out.1 ∧ ¬ Placed o seg f := by
  unfold Adds fileChmod
  simp only [ends_ite, ends_bind, ends_pure, ends_call, ends_driverErr, ends_setDiff]
  split_ifs
  · exact ⟨_, List.append_assoc _ _ _, ⟨rfl, rfl, rfl, rfl, rfl⟩, by simp [Placed, fileEffects]⟩
  · exact ⟨_, rfl, ⟨rfl, rfl, rfl, rfl, rfl⟩, by simp [Placed, fileEffects]⟩
  · exact ⟨[], (List.append_nil _).symm, ⟨rfl, rfl, rfl, rfl, rfl⟩, not_placed_nil⟩

lemma finishUpload_visit : Adds r (finishUpload env o f) fun out _ =>
    ∃ g, out.1 = some g ∧ Took f g := by
  unfold Adds finishUpload
  simp only [ends_bind, ends_pure, ends_fileUploaded]
  obtain ⟨seg, ht, hk, _⟩ := @fileChmod_visit σ o f r env
  refine ⟨seg ++ [.uploaded f.addr], ?_, _, rfl, hk.type, ?_, ?_⟩
  · rw [← List.append_assoc, ← ht, ← hk.addr]
  · simp [fileSetDiff, hk.localState]
  · simp [fileSetDiff, hk.localState]

/-- The end of an upload after the calls that put the file in its place. -/
lemma finishPlainUpload_visit {r' : Run σ} {seg : List Event}
    (hd : f.diff = .new ∨ f.diff = .changed) (hs : o.safemode = false)
    (hr : r'.trace = r.trace ++ seg)
    (hp : Placed o seg f) :
    Ends (finishPlainUpload env o f) r' fun out r'' =>
      ∃ seg, r''.trace = r.trace ++ seg ∧ FileVisit o f out seg := by
  have heq : finishPlainUpload env o f = finishUpload env o f := by simp [finishPlainUpload, hs]
  rw [heq]
  apply finishUpload_visit.shift hr
  intro out seg' htook
  refine ⟨fun _ => ⟨hd, htook⟩, fun hn => absurd ?_ hn⟩
  obtain ⟨e, he, hadd⟩ := hp
  exact ⟨e, List.mem_append_left _ he, hadd⟩

lemma uploadFile_visit {r' : Run σ} {seg : List Event} (hd : f.diff = .new ∨ f.diff = .changed)
    (hs : o.safemode = false) (hr : r'.trace = r.trace ++ seg) (hp : ¬ Placed o seg f) :
    Ends (uploadFile env o f) r' fun out r'' =>
      ∃ seg, r''.trace = r.trace ++ seg ∧ FileVisit o f out seg := by
  unfold uploadFile
  simp only [hs, Bool.false_eq_true, false_and, ↓reduceIte, ends_ite, ends_bind, ends_pure,
    ends_call, ends_driverErr]
  have hne := tempUploadFilename_ne (fileFullRemote f.localState o)
  split_ifs with htemp hup hmove hup
  · refine ⟨seg ++ _, by simp only [hr, List.append_assoc]; rfl, FileVisit.idle ?_⟩
    exact not_placed_append hp (by simp [Placed, fileEffects, hup])
  · refine ⟨seg ++ _, by simp only [hr, List.append_assoc]; rfl, FileVisit.idle ?_⟩
    exact not_placed_append hp (by simp [Placed, fileEffects, hne, hmove])
  · rw [ne_eq, not_not] at hmove
    apply finishPlainUpload_visit hd hs (by simp only [hr, List.append_assoc]; rfl)
    exact ⟨_, List.mem_append_right _ (List.mem_append_right _ List.mem_cons_self), rfl, hmove, rfl⟩
  · refine ⟨seg ++ _, by simp only [hr, List.append_assoc]; rfl, FileVisit.idle ?_⟩
    exact not_placed_append hp (by simp [Placed, fileEffects, hup])
  · rw [ne_eq, not_not] at hup
    apply finishPlainUpload_visit hd hs (by simp only [hr, List.append_assoc]; rfl)
    exact ⟨_, List.mem_append_right _ List.mem_cons_self, rfl, hup, rfl⟩

lemma updateNewFile_visit (hd : f.diff = .new ∨ f.diff = .changed) (hs : o.safemode = false) :
    Adds r (updateNewFile env o f) (FileVisit o f) := by
  unfold Adds updateNewFile
  simp only [ends_ite, ends_bind, ends_pure, ends_feCanUpdate, ends_call, ends_driverErr]
  split_ifs
  · exact ⟨_, List.append_assoc _ _ _, FileVisit.idle (by simp [Placed, fileEffects])⟩
  · exact uploadFile_visit hd hs rfl (by simp [Placed, fileEffects])
  · exact uploadFile_visit hd hs (List.append_nil _).symm not_placed_nil
  · exact ⟨[], (List.append_nil _).symm, FileVisit.idle not_placed_nil⟩

lemma updateFile_visit (hs : o.safemode = false) :
    Adds r (updateFile env o f) (FileVisit o f) := by
  have hidle : Adds r (pure (some f, false) : StateM (Run σ) Outcome) (FileVisit o f) :=
    ⟨[], (List.append_nil _).symm, FileVisit.idle not_placed_nil⟩
  unfold updateFile
  by_cases ht : f.type ≠ .file
  · rw [if_pos ht]
    exact hidle
  · rw [if_neg ht]
    cases hd : f.diff with
    | unchanged | deleted | moved => exact hidle
    | new => exact updateNewFile_visit (by simp [hd]) hs
    | changed =>
      dsimp only
      split_ifs
      · exact hidle
      · obtain ⟨seg, hseg, hk, hu⟩ := @fileChmod_visit σ o f r env
        exact ⟨seg, hseg, fun h => absurd h hu, fun _ => ⟨_, rfl, hk⟩⟩
      · exact updateNewFile_visit (by simp [hd]) hs

/-! ### The record after the pass -/

/-- `stored.exists` says whether the remote file at the stored path exists. A stored state
without a name has no path. -/
def Truthful (o : SiteOptions) (remote : Set Text) (f : SiteFile) : Prop :=
  f.storedState.existing = true ∨ f.storedState.filename ≠ none →
    (f.storedState.existing = true ↔ fileFullRemote f.storedState o ∈ remote)

/-- The remote paths that the list records after the calls in the trace. -/
def RecordedPath (o : SiteOptions) (files : List SiteFile) (trace : List Event) (p : Text) : Prop :=
  ∃ f ∈ files, f.type = .file ∧
    (Placed o trace f ∧ p = fileFullRemote f.localState o ∨
      ¬ Placed o trace f ∧ f.storedState.existing = true ∧ p = fileFullRemote f.storedState o)

/-- `update_files` run on a site. -/
def filePass (env : Env σ) (site : Site) (sess : σ) : (List SiteFile × Bool) × Run σ :=
  (updateFiles env site.opts site.files).run { stats := site.stats, sess := sess }

lemma placed_logged {vs : List (Visit SiteFile Event)} (h : Visit.Keyed SiteFile.addr owner vs)
    {v : Visit SiteFile Event} (hv : v ∈ vs) :
    Placed o (Visit.logged vs) v.elem ↔ Placed o v.log v.elem := by
  constructor
  · rintro ⟨e, he, ho, ha⟩
    exact ⟨e, (h.mem_log hv ho).mp he, ho, ha⟩
  · rintro ⟨e, he, ho, ha⟩
    exact ⟨e, (h.mem_log hv ho).mpr he, ho, ha⟩

/-- `nooverwrite` is refused together with `safe`. -/
lemma safemode_of_verified (h : rcfileVerify o = .ok ()) (hno : o.nooverwrite = true) :
    o.safemode = false := by
  by_contra hs
  rw [Bool.not_eq_false] at hs
  cases hp : o.protocol <;>
    simp only [rcfileVerify, hp, hs, hno, and_self, ↓reduceIte] at h <;>
    split_ifs at h <;> cases h

lemma fullRemote_congr {s t : FileState} (h : s.filename = t.filename) :
    fileFullRemote s o = fileFullRemote t o := by
  simp only [fileFullRemote, h]

/-- The record stays truthful in exactly those passes in which every successful call that
removes a recorded file is followed by one that puts it back. -/
theorem overwrite_recorded_iff (D : Remote σ) (site : Site) (wl : WellLinked site)
    (hcmp : ∀ f ∈ site.files, Compared site.opts f)
    (hclear : ∀ f ∈ site.files, f.storedState.existing = false → f.storedState.filename = none)
    (hverify : rcfileVerify site.opts = .ok ()) (hno : site.opts.nooverwrite = true) (sess : σ)
    (htrue : ∀ f ∈ site.files, f.type = .file → Truthful site.opts (D.files sess) f) :
    (∀ g ∈ (filePass D.env site sess).1.1, g.type = .file →
      Truthful site.opts (D.files (filePass D.env site sess).2.sess) g) ↔
    ∀ p, RecordedPath site.opts site.files (filePass D.env site sess).2.trace p →
      fileEffects.Restored p (filePass D.env site sess).2.trace := by
  have hs : site.opts.safemode = false := safemode_of_verified hverify hno
  obtain ⟨vs, hl, hkept, hlog, hkey, hvisit⟩ :
      ∃ vs : List (Visit SiteFile Event), vs.map Visit.elem = site.files ∧
        (filePass D.env site sess).1.1 = Visit.kept vs ∧
        (filePass D.env site sess).2.trace = Visit.logged vs ∧
        Visit.Keyed SiteFile.addr owner vs ∧
        ∀ v ∈ vs, FileVisit site.opts v.elem v.result v.log :=
    pass_visits (fun _ _ => updateFile_turn) (fun _ _ => updateFile_visit hs)
      wl.nodup site.stats sess
  have hfollow : D.files (filePass D.env site sess).2.sess =
      fileEffects.replay (D.files sess) (filePass D.env site sess).2.trace :=
    updateFiles_follows site.files _ _ rfl
  rw [hfollow, hkept, hlog]
  constructor
  · rintro hout p ⟨f, hf, ht, hp⟩
    obtain ⟨v, hv, rfl⟩ := List.mem_map.mp (hl ▸ hf)
    rw [placed_logged hkey hv] at hp
    suffices hmem : p ∈ fileEffects.replay (D.files sess) (Visit.logged vs) from
      (mem_replay.mp hmem).2
    rcases hp with ⟨hp, rfl⟩ | ⟨hp, hex, rfl⟩
    · obtain ⟨hd, g, hg, htook⟩ := (hvisit v hv).placed hp
      have hlocal := (hcmp _ hf).localExisting hd
      have hgt := hout g (Visit.mem_kept.mpr ⟨v, hv, hg⟩) (htook.type.trans ht)
      rw [← fullRemote_congr htook.filename]
      have hge := htook.existing.trans hlocal
      exact (hgt (Or.inl hge)).mp hge
    · obtain ⟨g, hg, hk⟩ := (hvisit v hv).other hp
      have hgt := hout g (Visit.mem_kept.mpr ⟨v, hv, hg⟩) (hk.type.trans ht)
      rw [← fullRemote_congr hk.filename]
      have hge := hk.existing.trans hex
      exact (hgt (Or.inl hge)).mp hge
  · intro hrest g hg ht
    obtain ⟨v, hv, hg⟩ := Visit.mem_kept.mp hg
    have hf : v.elem ∈ site.files := hl ▸ List.mem_map_of_mem hv
    by_cases hp : Placed site.opts v.log v.elem
    · obtain ⟨hd, g', hg', htook⟩ := (hvisit v hv).placed hp
      obtain rfl := Option.some.inj (hg'.symm.trans hg)
      have hlocal := (hcmp _ hf).localExisting hd
      intro _
      refine ⟨fun _ => ?_, fun _ => htook.existing.trans hlocal⟩
      rw [fullRemote_congr htook.filename]
      have hp' := (placed_logged hkey hv).mpr hp
      obtain ⟨e, he, _, hadd⟩ := hp'
      refine mem_replay.mpr ⟨Or.inr ⟨e, he, hadd⟩, hrest _ ⟨_, hf, htook.type.symm.trans ht, ?_⟩⟩
      exact Or.inl ⟨(placed_logged hkey hv).mpr hp, rfl⟩
    · obtain ⟨g', hg', hk⟩ := (hvisit v hv).other hp
      obtain rfl := Option.some.inj (hg'.symm.trans hg)
      have hft := hk.type.symm.trans ht
      intro hnamed
      rw [hk.existing, hk.filename] at hnamed
      rw [hk.existing, fullRemote_congr hk.filename]
      have hex : v.elem.storedState.existing = true := by
        by_contra hex
        have hn := hclear _ hf (Bool.eq_false_of_not_eq_true hex)
        exact hnamed.elim hex (fun h => h hn)
      refine ⟨fun _ => ?_, fun _ => hex⟩
      refine mem_replay.mpr ⟨Or.inl ((htrue _ hf hft (Or.inl hex)).mp hex), hrest _ ⟨_, hf, hft, ?_⟩⟩
      exact Or.inr ⟨fun h => hp ((placed_logged hkey hv).mp h), hex, rfl⟩

/-! ### An upload that fails after the deletion -/

/-- Remote files under a driver whose answers depend on the call only. -/
def scriptedRemote (answer : DriverCall → ℤ) : Remote (Set Text) where
  env := {
    exec := fun c s => ({ code := answer c }, fileEffects.apply s (.call none c (answer c)))
    canUpdate := fun _ s => (true, s) }
  files := id
  exec _ _ _ := rfl
  ask _ _ := rfl

/-- A server that takes no more files. -/
def noUpload : DriverCall → ℤ
  | .fileUpload _ _ _ => SITE_FAILED
  | _ => SITE_OK

/-- A changed file under `nooverwrite`. -/
def overwrittenSite : Site where
  opts := { nooverwrite := true }
  files := [{
    addr := 0
    diff := .changed
    localState := { filename := some (ascii "a"), existing := true, time := 2 }
    storedState := { filename := some (ascii "a"), existing := true, time := 1 } }]
  stats := { numchanged := 1, remoteIsDifferent := true, localIsDifferent := true }
  freshAddr := 1

lemma overwrittenSite_linked : WellLinked overwrittenSite := ⟨by decide, by decide⟩

lemma overwrittenSite_truthful :
    ∀ f ∈ overwrittenSite.files, f.type = .file →
      Truthful overwrittenSite.opts {ascii "a"} f := by
  simp [overwrittenSite, Truthful, fileFullRemote]

theorem overwrite_recorded_iff_noUpload :
    (∀ g ∈ (filePass (scriptedRemote noUpload).env overwrittenSite {ascii "a"}).1.1,
      g.type = .file → Truthful overwrittenSite.opts ((scriptedRemote noUpload).files
        (filePass (scriptedRemote noUpload).env overwrittenSite {ascii "a"}).2.sess) g) ↔
    ∀ p, RecordedPath overwrittenSite.opts overwrittenSite.files
        (filePass (scriptedRemote noUpload).env overwrittenSite {ascii "a"}).2.trace p →
      fileEffects.Restored p
        (filePass (scriptedRemote noUpload).env overwrittenSite {ascii "a"}).2.trace :=
  overwrite_recorded_iff (scriptedRemote noUpload) overwrittenSite overwrittenSite_linked
    (by simp [overwrittenSite, Compared, fileCompare, methodDiffers]) (by simp [overwrittenSite])
    rfl rfl {ascii "a"} overwrittenSite_truthful

/-- The file was deleted and not uploaded, and its stored state still exists. -/
theorem deleted_file_recorded :
    rcfileVerify overwrittenSite.opts = .ok () ∧
      (∀ f ∈ overwrittenSite.files, f.type = .file →
        Truthful overwrittenSite.opts {ascii "a"} f) ∧
      ¬ ∀ g ∈ (filePass (scriptedRemote noUpload).env overwrittenSite {ascii "a"}).1.1,
        g.type = .file → Truthful overwrittenSite.opts ((scriptedRemote noUpload).files
          (filePass (scriptedRemote noUpload).env overwrittenSite {ascii "a"}).2.sess) g := by
  refine ⟨rfl, overwrittenSite_truthful, fun h => ?_⟩
  have hout : (filePass (scriptedRemote noUpload).env overwrittenSite {ascii "a"}).1.1 =
      overwrittenSite.files := rfl
  have hsess : (filePass (scriptedRemote noUpload).env overwrittenSite {ascii "a"}).2.sess =
      fileEffects.replay {ascii "a"} [.call none (.fileDelete (ascii "a")) SITE_OK,
        .call none (.fileUpload (ascii "/a") (ascii "a") false) SITE_FAILED,
        .call none .error SITE_OK] := rfl
  rw [hout] at h
  have hgone := (h _ (List.mem_singleton.mpr rfl) rfl (Or.inl rfl)).mp rfl
  rw [hsess] at hgone
  have hrest := (mem_replay.mp hgone).2.1 ⟨rfl, rfl⟩ (by simp [fileEffects])
  simp [fileEffects, SITE_FAILED, SITE_OK] at hrest

end Sitecopy.OverwriteRecords
