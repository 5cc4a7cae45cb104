import Sitecopy.OverwriteRecords

/-!
# What a refused chmod leaves in the list

`file_chmod` ends every successful upload, and it is all that is done for a file whose
contents did not change. Only in the second case does the entry keep its stored mode when
the driver refuses.
-/
namespace Sitecopy.PermissionRecords
open SiteModel FileSet FileSetSpec StateProgram SiteStats SiteUpdate UpdateAccounting
open UpdateRecords OverwriteRecords

variable {σ : Type} {env : Env σ} {o : SiteOptions} {f : SiteFile} {r : Run σ}

/-- Only the permissions of the file are to be sent: the contents are up to date, and the
stored mode is another one. -/
def PermsOnly (o : SiteOptions) (f : SiteFile) : Prop :=
  f.diff = .changed ∧ fileContentsChanged o f = false ∧ f.storedState.mode ≠ f.localState.mode

/-- The entry is in the list, still to be updated, and its stored mode is not the local one. -/
def PermsPending (files : List SiteFile) (f : SiteFile) : Prop :=
  ∃ g ∈ files, g.addr = f.addr ∧ g.storedState.mode ≠ f.localState.mode ∧ g.diff ≠ .unchanged

/-- The entry was left with the local mode as its stored one. -/
def ModeTaken (f : SiteFile) (out : Outcome) : Prop :=
  ∃ g, out.1 = some g ∧ g.addr = f.addr ∧ g.storedState.mode = f.localState.mode

/-- One visit of `update_files` in which the driver refused the permissions. -/
structure RefusedVisit (o : SiteOptions) (f : SiteFile) (out : Outcome) (seg : List Event) :
    Prop where
  only : ChmodRefused seg f → f.diff = .changed → fileContentsChanged o f = false →
    out.1 = some f
  sent : ChmodRefused seg f → ¬ (f.diff = .changed ∧ fileContentsChanged o f = false) →
    ModeTaken f out

/-- A visit without such a refusal. -/
lemma RefusedVisit.idle {out : Outcome} {seg : List Event} (h : ¬ ChmodRefused seg f) :
    RefusedVisit o f out seg := ⟨fun hr => absurd hr h, fun hr => absurd hr h⟩

/-- The upload of a file whose contents are to be sent. -/
def UploadVisit (f : SiteFile) (out : Outcome) (seg : List Event) : Prop :=
  ChmodRefused seg f → ModeTaken f out

lemma not_refused_nil : ¬ ChmodRefused [] f := by simp [ChmodRefused, Answers]

lemma refused_append {s t : List Event} (hs : ¬ ChmodRefused s f) :
    ChmodRefused (s ++ t) f → ChmodRefused t f := by
  rintro ⟨e, he, hit⟩
  rcases List.mem_append.mp he with he | he
  · exact absurd ⟨e, he, hit⟩ hs
  · exact ⟨e, he, hit⟩

lemma UploadVisit.idle {out : Outcome} {seg : List Event} (h : ¬ ChmodRefused seg f) :
    UploadVisit f out seg := fun hr => absurd hr h

/-- Another version of the same entry. -/
structure SameLocal (f g : SiteFile) : Prop where
  addr : g.addr = f.addr
  localState : g.localState = f.localState

/-- `file_chmod` keeps the entry when it is refused. -/
lemma fileChmod_refused : Adds r (fileChmod env o f) fun out seg =>
    SameLocal f out.1 ∧ (ChmodRefused seg f → out.1 = f) := by
  unfold Adds fileChmod
  simp only [ends_ite, ends_bind, ends_pure, ends_call, ends_driverErr, ends_setDiff]
  split_ifs with hperms hcode
  · exact ⟨_, List.append_assoc _ _ _, ⟨rfl, rfl⟩, fun _ => trivial⟩
  · refine ⟨_, rfl, ⟨rfl, rfl⟩, fun h => absurd h ?_⟩
    simpa [ChmodRefused, Answers, Hit, isFileChmod] using hcode
  · exact ⟨[], (List.append_nil _).symm, ⟨rfl, rfl⟩, fun _ => trivial⟩

/-- But `file_uploaded` comes after it. -/
lemma finishUpload_mode : Adds r (finishUpload env o f) fun out _ => ModeTaken f out := by
  unfold Adds finishUpload
  simp only [ends_bind, ends_pure, ends_fileUploaded]
  obtain ⟨seg, ht, hsame, _⟩ := @fileChmod_refused _ env o f r
  refine ⟨seg ++ [.uploaded f.addr], ?_, _, rfl, hsame.addr, ?_⟩
  · rw [← List.append_assoc, ← ht, ← hsame.addr]
  · simp [fileSetDiff, hsame.localState]

lemma fileRetrieveServer_quiet : Adds r (fileRetrieveServer env o f) fun g seg =>
    SameLocal f g ∧ ¬ ChmodRefused seg f := by
  unfold Adds fileRetrieveServer
  simp only [ends_ite, ends_bind, ends_pure, ends_call, ends_driverErr]
  split_ifs
  · exact ⟨_, rfl, ⟨rfl, rfl⟩, by simp [ChmodRefused, Answers, Hit, isFileChmod]⟩
  · exact ⟨_, List.append_assoc _ _ _, ⟨rfl, rfl⟩,
      by simp [ChmodRefused, Answers, Hit, isFileChmod]⟩

lemma retrieve_finishUpload_mode :
    Adds r (fileRetrieveServer env o f >>= finishUpload env o) fun out _ => ModeTaken f out := by
  rw [Adds, ends_bind]
  apply fileRetrieveServer_quiet.mono
  rintro g r' ⟨seg, ht, hsame, _⟩
  apply finishUpload_mode.shift ht
  rintro out _ ⟨g', hg', ha, hm⟩
  exact ⟨g', hg', ha.trans hsame.addr, hm.trans (congrArg FileState.mode hsame.localState)⟩

lemma finishPlainUpload_mode :
    Adds r (finishPlainUpload env o f) fun out _ => ModeTaken f out := by
  by_cases hs : o.safemode = true
  · have hm : finishPlainUpload env o f = fileRetrieveServer env o f >>= finishUpload env o := by
      simp [finishPlainUpload, hs]
    rw [hm]
    exact retrieve_finishUpload_mode
  · have hm : finishPlainUpload env o f = finishUpload env o f := by
      simp [finishPlainUpload, hs]
    rw [hm]
    exact finishUpload_mode

/-- Whatever the way of uploading, only an upload that is recorded comes to the permissions. -/
lemma uploadFile_upload : Adds r (uploadFile env o f) (UploadVisit f) := by
  unfold Adds uploadFile
  simp only [ends_ite, ends_bind, ends_pure, ends_call, ends_driverErr]
  split_ifs
  · exact ⟨_, List.append_assoc _ _ _,
      UploadVisit.idle (by simp [ChmodRefused, Answers, Hit, isFileChmod])⟩
  · exact ⟨_, rfl, UploadVisit.idle (by simp [ChmodRefused, Answers, Hit, isFileChmod])⟩
  · apply (ends_bind _ _ _ _).mp
    exact retrieve_finishUpload_mode.shift rfl fun out _ hmode _ => hmode
  · exact ⟨_, List.append_assoc _ _ _,
      UploadVisit.idle (by simp [ChmodRefused, Answers, Hit, isFileChmod])⟩
  · exact ⟨_, by rw [List.append_assoc, List.append_assoc],
      UploadVisit.idle (by simp [ChmodRefused, Answers, Hit, isFileChmod])⟩
  · exact finishPlainUpload_mode.shift (List.append_assoc _ _ _) fun out _ hmode _ => hmode
  · exact ⟨_, List.append_assoc _ _ _,
      UploadVisit.idle (by simp [ChmodRefused, Answers, Hit, isFileChmod])⟩
  · exact finishPlainUpload_mode.shift rfl fun out _ hmode _ => hmode

lemma updateNewFile_upload : Adds r (updateNewFile env o f) (UploadVisit f) := by
  unfold Adds updateNewFile
  simp only [ends_ite, ends_bind, ends_pure, ends_feCanUpdate, ends_call, ends_driverErr]
  split_ifs
  · exact ⟨_, List.append_assoc _ _ _,
      UploadVisit.idle (by simp [ChmodRefused, Answers, Hit, isFileChmod])⟩
  · apply uploadFile_upload.shift rfl
    intro out seg hv h
    exact hv (refused_append (by simp [ChmodRefused, Answers, Hit, isFileChmod]) h)
  · exact uploadFile_upload
  · exact ⟨[], (List.append_nil _).symm, UploadVisit.idle not_refused_nil⟩

lemma UploadVisit.refused {out : Outcome} {seg : List Event} (h : UploadVisit f out seg)
    (hsent : ¬ (f.diff = .changed ∧ fileContentsChanged o f = false)) :
    RefusedVisit o f out seg := ⟨fun _ hd hc => absurd ⟨hd, hc⟩ hsent, fun hr _ => h hr⟩

lemma updateFile_refused : Adds r (updateFile env o f) (RefusedVisit o f) := by
  have hidle : Adds r (pure (some f, false) : StateM (Run σ) Outcome) (RefusedVisit o f) :=
    ⟨[], (List.append_nil _).symm, RefusedVisit.idle not_refused_nil⟩
  unfold updateFile
  by_cases ht : f.type ≠ .file
  · rw [if_pos ht]
    exact hidle
  · rw [if_neg ht]
    cases hd : f.diff with
    | unchanged | deleted | moved => exact hidle
    | new => exact updateNewFile_upload.mono fun out _ ⟨seg, hseg, hv⟩ =>
        ⟨seg, hseg, hv.refused (by simp [hd])⟩
    | changed =>
      dsimp only
      split_ifs with hi hc
      · exact hidle
      · -- the sibling path, in which nothing follows
        rw [Bool.not_eq_true'] at hc
        obtain ⟨seg, hseg, _, hkept⟩ := @fileChmod_refused _ env o f r
        refine ⟨seg, hseg, fun hr _ _ => congrArg some (hkept hr), fun _ hsent => ?_⟩
        exact absurd ⟨hd, hc⟩ hsent
      · exact updateNewFile_upload.mono fun out _ ⟨seg, hseg, hv⟩ =>
          ⟨seg, hseg, hv.refused (by simpa [hd] using hc)⟩

/-- A refused chmod is retried by the next update exactly when it was made for a file of which
only the permissions were to be sent. -/
theorem refused_pending_iff (env : Env σ) (site : Site) (wl : WellLinked site) (sess : σ) :
    (∀ f ∈ site.files, f.type = .file → ChmodRefused (filePass env site sess).2.trace f →
      PermsPending (filePass env site sess).1.1 f) ↔
    ∀ f ∈ site.files, f.type = .file → ChmodRefused (filePass env site sess).2.trace f →
      PermsOnly site.opts f := by
  obtain ⟨vs, hl, hkept, hlog, hkey, hvisit⟩ :
      ∃ vs : List (Visit SiteFile Event), vs.map Visit.elem = site.files ∧
        (filePass env site sess).1.1 = Visit.kept vs ∧
        (filePass env site sess).2.trace = Visit.logged vs ∧
        Visit.Keyed SiteFile.addr owner vs ∧
        ∀ v ∈ vs, RefusedVisit site.opts v.elem v.result v.log :=
    pass_visits (fun _ _ => updateFile_turn) (fun _ _ => updateFile_refused)
      wl.nodup site.stats sess
  rw [hkept, hlog]
  simp only [← hl, List.forall_mem_map]
  apply forall₂_congr
  intro v hv
  apply forall_congr'
  intro _
  rw [ChmodRefused, answers_logged hkey hv]
  apply forall_congr'
  intro href
  constructor
  · rintro ⟨g, hg, ha, hmode, hd⟩
    rw [hkey.mem_kept hv ha] at hg
    by_cases honly : v.elem.diff = .changed ∧ fileContentsChanged site.opts v.elem = false
    · have hout := (hvisit v hv).only href honly.1 honly.2
      obtain rfl := Option.some.inj (hg.symm.trans hout)
      exact ⟨honly.1, honly.2, hmode⟩
    · obtain ⟨g', hg', _, htaken⟩ := (hvisit v hv).sent href honly
      obtain rfl := Option.some.inj (hg'.symm.trans hg)
      exact absurd htaken hmode
  · rintro ⟨hd, hc, hmode⟩
    refine ⟨v.elem, (hkey.mem_kept hv rfl).mpr ((hvisit v hv).only href hd hc), rfl, hmode, ?_⟩
    rw [hd]
    exact FileDiff.noConfusion

/-! ### A new file on a server that takes no modes -/

/-- A new file under `permissions all`. -/
def newFileSite : Site where
  opts := { perms := .all }
  files := [{
    addr := 0
    diff := .new
    localState := { filename := some (ascii "a"), existing := true, mode := 0o600 } }]
  stats := { numnew := 1, remoteIsDifferent := true, localIsDifferent := true }
  freshAddr := 1

lemma newFileSite_linked : WellLinked newFileSite := ⟨by decide, by decide⟩

theorem refused_pending_iff_noChmod :
    (∀ f ∈ newFileSite.files, f.type = .file →
      ChmodRefused (filePass (scriptedEnv noChmod) newFileSite ⟨⟩).2.trace f →
        PermsPending (filePass (scriptedEnv noChmod) newFileSite ⟨⟩).1.1 f) ↔
    ∀ f ∈ newFileSite.files, f.type = .file →
      ChmodRefused (filePass (scriptedEnv noChmod) newFileSite ⟨⟩).2.trace f →
        PermsOnly newFileSite.opts f :=
  refused_pending_iff (scriptedEnv noChmod) newFileSite newFileSite_linked ⟨⟩

/-- The mode was refused, and yet the file counts as up to date. -/
theorem refused_mode_recorded :
    rcfileVerify newFileSite.opts = .ok () ∧
      ¬ ∀ f ∈ newFileSite.files, f.type = .file →
        ChmodRefused (filePass (scriptedEnv noChmod) newFileSite ⟨⟩).2.trace f →
          PermsPending (filePass (scriptedEnv noChmod) newFileSite ⟨⟩).1.1 f := by
  refine ⟨rfl, fun h => ?_⟩
  have htrace : (filePass (scriptedEnv noChmod) newFileSite ⟨⟩).2.trace =
      [.call (some 0) (.fileUpload (ascii "/a") (ascii "a") false) SITE_OK,
        .call (some 0) (.fileChmod (ascii "a") 0o600) SITE_ERRORS,
        .call (some 0) .error SITE_OK, .uploaded 0] := rfl
  have hmodes : ∀ g ∈ (filePass (scriptedEnv noChmod) newFileSite ⟨⟩).1.1,
      g.storedState.mode = 0o600 ∧ g.diff = .unchanged := by decide
  rw [htrace] at h
  obtain ⟨g, hg, _, _, hd⟩ := h _ (List.mem_singleton.mpr rfl) rfl
    ⟨_, List.mem_cons_of_mem _ List.mem_cons_self, rfl, trivial, by decide⟩
  exact hd (hmodes g hg).2

end Sitecopy.PermissionRecords
