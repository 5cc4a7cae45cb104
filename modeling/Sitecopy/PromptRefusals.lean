import Sitecopy.UpdateRecords

/-!
# Refused prompts

The user is asked before an entry is updated, with two exceptions: a file of which only the
permissions changed, and links. An entry that the user refuses is left alone if and only if it
is none of these.
-/
namespace Sitecopy.PromptRefusals
open SiteModel FileSet FileSetSpec StateProgram SiteUpdate UpdateAccounting UpdateRecords

variable {σ : Type} {env : Env σ} {o : SiteOptions} {f : SiteFile} {r : Run σ}
  {answer : SiteFile → Bool} {files : List SiteFile} {p : Handler}

/-- The answers to `fe_can_update` depend on the entry only. -/
def Answers (env : Env σ) (answer : SiteFile → Bool) : Prop :=
  ∀ f s, (env.canUpdate f s).1 = answer f

/-- The update acts on the entry without asking: it sends the permissions of a file, or it
creates, changes or deletes a link. -/
def Unasked (o : SiteOptions) (f : SiteFile) : Prop :=
  f.type = .file ∧ f.diff = .changed ∧ f.ignore = false ∧ fileContentsChanged o f = false ∧
      filePermsChanged o f = true ∨
    f.type = .link ∧ o.symlinks = .maintain ∧
      (f.diff = .new ∨ f.diff = .changed ∨ f.diff = .deleted)

instance : Decidable (Unasked o f) := by
  unfold Unasked
  infer_instance

/-- The entry is as it was, and the update did nothing for it. -/
structure Spared (env : Env σ) (site : Site) (sess : σ) (f : SiteFile) : Prop where
  kept : f ∈ (siteUpdate env site sess).site.files
  quiet : ∀ e ∈ (siteUpdate env site sess).trace, owner e ≠ some f.addr

/-! ### Turns -/

/-- What stands behind a prompt is not done. -/
lemma refused_prompt (hanswer : Answers env answer) (hf : answer f = false)
    (m : StateM (Run σ) Outcome) :
    Ends (do
        let ok ← feCanUpdate env f
        if ok then m else pure (some f, false)) r fun out r' =>
      out = (some f, false) ∧ r'.trace = r.trace := by
  simp only [ends_bind, ends_feCanUpdate, hanswer f, hf]
  exact ⟨rfl, rfl⟩

/-- The turn of a refused entry, if the user is asked. -/
lemma refused_idle (hanswer : Answers env answer) (hf : answer f = false)
    (hasked : ¬ Unasked o f) (hguard : (p, true) ∈ handlerTable o) :
    Ends (p.turn env o f) r fun out r' => out = (some f, false) ∧ r'.trace = r.trace := by
  cases p with
  | deleteFiles =>
    rw [Handler.turn, updateDeleteFile, ends_ite]
    split_ifs
    · exact refused_prompt hanswer hf _
    · exact ⟨rfl, rfl⟩
  | createDirectories =>
    rw [Handler.turn, updateCreateDirectory, ends_ite]
    split
    · exact refused_prompt hanswer hf _
    · exact ⟨rfl, rfl⟩
  | moveFiles =>
    rw [Handler.turn, updateMoveFile, ends_ite]
    split_ifs
    · exact refused_prompt hanswer hf _
    · exact ⟨rfl, rfl⟩
  | deleteDirectories =>
    rw [Handler.turn, updateDeleteDirectory, ends_ite]
    split_ifs
    · exact refused_prompt hanswer hf _
    · exact ⟨rfl, rfl⟩
  | files =>
    rw [Handler.turn, updateFile]
    by_cases ht : f.type ≠ .file
    · rw [if_pos ht]
      exact ⟨rfl, rfl⟩
    rw [if_neg ht]
    rw [not_not] at ht
    cases hd : f.diff with
    | unchanged | deleted | moved => exact ⟨rfl, rfl⟩
    | new => exact refused_prompt hanswer hf _
    | changed =>
      dsimp only
      simp only [ends_ite]
      split_ifs with hignore hcontents
      · exact ⟨rfl, rfl⟩
      · have hperms : ¬ filePermsChanged o f = true := fun h =>
          hasked (.inl ⟨ht, hd, by simpa using hignore, by simpa using hcontents, h⟩)
        simp only [fileChmod, if_neg hperms]
        exact ⟨rfl, rfl⟩
      · exact refused_prompt hanswer hf _
  | links =>
    have hmaintain : o.symlinks = .maintain := by simpa [handlerTable] using hguard
    rw [Handler.turn, updateLink]
    by_cases ht : f.type ≠ .link
    · rw [if_pos ht]
      exact ⟨rfl, rfl⟩
    rw [if_neg ht]
    rw [not_not] at ht
    cases hd : f.diff with
    | unchanged | moved => exact ⟨rfl, rfl⟩
    | new => exact absurd (.inr ⟨ht, hmaintain, .inl hd⟩) hasked
    | changed => exact absurd (.inr ⟨ht, hmaintain, .inr (.inl hd)⟩) hasked
    | deleted => exact absurd (.inr ⟨ht, hmaintain, .inr (.inr hd)⟩) hasked

/-! ### Passes -/

/-- The entry is in the list, once. -/
structure Single (f : SiteFile) (files : List SiteFile) : Prop where
  mem : f ∈ files
  unique : ∀ g ∈ files, g.addr = f.addr → g = f

/-- A pass over the entries, whichever way it goes, is described by its visits. -/
lemma handler_visits {T : SiteFile → Outcome → List Event → Prop}
    (hT : ∀ g ∈ files, ∀ r, Adds r (p.turn env o g) (T g)) (r : Run σ) :
    Ends (p.pass env o files) r fun out r' => ∃ vs : List (Visit SiteFile Event),
      vs.map Visit.elem = files ∧ out = (Visit.kept vs, Visit.failed vs) ∧
        (∃ seg, r'.trace = r.trace ++ seg ∧ ∀ e, e ∈ seg ↔ e ∈ Visit.logged vs) ∧
          ∀ v ∈ vs, T v.elem v.result v.log := by
  have hforward : Ends (forEach (p.turn env o) files) r fun out r' =>
      ∃ vs : List (Visit SiteFile Event),
      vs.map Visit.elem = files ∧ out = (Visit.kept vs, Visit.failed vs) ∧
        (∃ seg, r'.trace = r.trace ++ seg ∧ ∀ e, e ∈ seg ↔ e ∈ Visit.logged vs) ∧
          ∀ v ∈ vs, T v.elem v.result v.log := by
    apply (forEach_visits Run.trace files hT r).mono
    rintro out r' ⟨vs, hl, hout, ht, hv⟩
    exact ⟨vs, hl, hout, ⟨_, ht, fun e => Iff.rfl⟩, hv⟩
  cases p with
  | deleteFiles | createDirectories | moveFiles | files | links => exact hforward
  | deleteDirectories =>
    apply (forEachBackward_visits Run.trace files hT r).mono
    rintro out r' ⟨vs, hl, hout, ht, hv⟩
    refine ⟨vs, hl, hout, ⟨_, ht, fun e => ?_⟩, hv⟩
    simp only [Visit.mem_logged, List.mem_reverse]

/-- A pass whose turn leaves the entry alone. -/
lemma pass_spares (hidle : ∀ r, Ends (p.turn env o f) r fun out r' =>
      out = (some f, false) ∧ r'.trace = r.trace) (h : Single f files) (r : Run σ) :
    Ends (p.pass env o files) r fun out r' => Single f out.1 ∧
      ∃ seg, r'.trace = r.trace ++ seg ∧ ∀ e ∈ seg, owner e ≠ some f.addr := by
  have hturn : ∀ g ∈ files, ∀ r, Adds r (p.turn env o g) fun out seg =>
      Turn g out seg ∧ (g = f → out.1 = some f ∧ seg = []) := by
    intro g _ r
    by_cases hg : g = f
    · obtain ⟨hout, htrace⟩ := hidle r
      rw [hg, Adds]
      refine ⟨[], by rw [htrace, List.append_nil], ?_, fun _ => ⟨?_, rfl⟩⟩
      · rw [hout]
        exact Turn.idle
      · rw [hout]
    · exact (handler_turn p).mono fun out r' ⟨seg, ht, hseg⟩ => ⟨seg, ht, hseg, fun h => absurd h hg⟩
  apply (handler_visits hturn r).mono
  rintro out r' ⟨vs, rfl, rfl, ⟨seg, ht, hmem⟩, hv⟩
  obtain ⟨v, hvs, hve⟩ := List.mem_map.mp h.mem
  have hsame : ∀ v ∈ vs, v.elem.addr = f.addr → v.elem = f := fun v hv ha =>
    h.unique _ (List.mem_map_of_mem hv) ha
  refine ⟨⟨?_, ?_⟩, seg, ht, ?_⟩
  · exact Visit.mem_kept.mpr ⟨v, hvs, ((hv v hvs).2 hve).1⟩
  · intro g hg ha
    obtain ⟨w, hw, hout⟩ := Visit.mem_kept.mp hg
    have hw' := hsame w hw (((hv w hw).1.same g hout).symm.trans ha)
    exact Option.some.inj (hout.symm.trans ((hv w hw).2 hw').1)
  · intro e he ho
    obtain ⟨w, hw, hlog⟩ := Visit.mem_logged.mp ((hmem e).mp he)
    have hown := (hv w hw).1.owned e hlog
    have hw' := hsame w hw (Option.some.inj (hown.symm.trans ho))
    rw [((hv w hw).2 hw').2] at hlog
    exact absurd hlog List.not_mem_nil

/-! ### The whole update -/

lemma runHandlers_spares (table : List (Handler × Bool))
    (hidle : ∀ p, (p, true) ∈ table → ∀ r, Ends (p.turn env o f) r fun out r' =>
      out = (some f, false) ∧ r'.trace = r.trace)
    (h : Single f files) (hr : ∀ e ∈ r.trace, owner e ≠ some f.addr) (failed : Bool) :
    Ends (runHandlers o (table.map fun e => (e.1.pass env o, e.2)) failed files) r fun out r' =>
      f ∈ out.1 ∧ ∀ e ∈ r'.trace, owner e ≠ some f.addr := by
  induction table generalizing files r failed with
  | nil => exact ⟨h.mem, hr⟩
  | cons e table ih =>
    obtain ⟨p, guard⟩ := e
    have hrest := fun p hp => hidle p (List.mem_cons_of_mem _ hp)
    rw [List.map_cons, runHandlers]
    simp only [ends_ite, ends_bind, ends_pure]
    split_ifs with hgo hg
    · obtain rfl : guard = true := hg
      apply (pass_spares (hidle p List.mem_cons_self) h r).mono
      intro out r' hout
      obtain ⟨hsingle, seg, ht, hseg⟩ := hout
      apply ih hrest hsingle
      rw [ht]
      intro e he
      exact (List.mem_append.mp he).elim (hr e) (hseg e)
    · exact ih hrest h hr failed
    · exact ⟨h.mem, hr⟩

/-- Opening and closing the session is done for no entry. -/
lemma updateSiteFiles_spares (hidle : ∀ p, (p, true) ∈ handlerTable o → ∀ r,
      Ends (p.turn env o f) r fun out r' => out = (some f, false) ∧ r'.trace = r.trace)
    (h : Single f files) (hr : ∀ e ∈ r.trace, owner e ≠ some f.addr) :
    Ends (updateSiteFiles env o files) r fun out r' =>
      f ∈ out.1 ∧ ∀ e ∈ r'.trace, owner e ≠ some f.addr := by
  have hcall : ∀ c code, owner (.call none c code) ≠ some f.addr := fun _ _ => nofun
  have hfinish : ∀ r : Run σ, (∀ e ∈ r.trace, owner e ≠ some f.addr) →
      Ends (protoFinish env) r fun _ r' => ∀ e ∈ r'.trace, owner e ≠ some f.addr := by
    intro r hr
    simp only [protoFinish, ends_bind, ends_driverErr, ends_call, ends_pure, List.mem_append,
      List.mem_singleton]
    rintro e ((he | rfl) | rfl)
    · exact hr e he
    · exact hcall _ _
    · exact hcall _ _
  have hinit : Ends (protoInit env) r fun _ r' => ∀ e ∈ r'.trace, owner e ≠ some f.addr := by
    simp only [protoInit, ends_bind, ends_call, ends_ite, ends_driverErr, ends_pure]
    split_ifs
    · simp only [List.mem_append, List.mem_singleton]
      rintro e ((he | rfl) | rfl)
      · exact hr e he
      · exact hcall _ _
      · exact hcall _ _
    · simp only [List.mem_append, List.mem_singleton]
      rintro e (he | rfl)
      · exact hr e he
      · exact hcall _ _
  rw [updateSiteFiles, ends_bind]
  apply hinit.mono
  intro ret r₁ hr₁
  rw [ends_ite]
  split_ifs
  · rw [ends_bind]
    exact (hfinish r₁ hr₁).mono fun _ _ hr₂ => ⟨h.mem, hr₂⟩
  · rw [ends_bind, handlers_eq]
    apply (runHandlers_spares (handlerTable o) hidle h hr₁ false).mono
    intro out r₂ hout
    rw [ends_bind]
    exact (hfinish r₂ hout.2).mono fun _ _ hr₃ => ⟨hout.1, hr₃⟩

/-! ### Drivers that never fail -/

/-- A driver on which every call succeeds, and a user with these answers. -/
def willingEnv (answer : SiteFile → Bool) : Env PUnit where
  exec _ s := ({ code := SITE_OK }, s)
  canUpdate f s := (answer f, s)

/-- Something was done for the entry. -/
def Touched (f : SiteFile) (trace : List Event) : Prop := ∃ e ∈ trace, owner e = some f.addr

section Willing
variable {r : Run PUnit}

lemma fileChmod_ok : Ends (fileChmod (willingEnv answer) o f) r fun out _ => out.2 = false := by
  rw [fileChmod, ends_ite]
  split_ifs <;> trivial

lemma finishUpload_ok : Ends (finishUpload (willingEnv answer) o f) r fun out _ => out.2 = false := by
  rw [finishUpload, ends_bind]
  exact fileChmod_ok.mono fun out _ h => h

lemma finishPlainUpload_ok :
    Ends (finishPlainUpload (willingEnv answer) o f) r fun out _ => out.2 = false := by
  simp only [finishPlainUpload, ends_ite, ends_bind, ends_pure]
  split_ifs
  · exact finishUpload_ok
  · exact finishUpload_ok

lemma uploadFile_ok : Ends (uploadFile (willingEnv answer) o f) r fun out _ => out.2 = false := by
  rw [uploadFile, ends_ite]
  split
  · exact finishUpload_ok
  · rw [ends_ite]
    split
    · exact finishPlainUpload_ok
    · exact finishPlainUpload_ok

lemma updateNewFile_ok : Ends (updateNewFile (willingEnv answer) o f) r fun out _ => out.2 = false := by
  rw [updateNewFile, ends_bind, ends_feCanUpdate, ends_ite]
  split
  · rw [ends_ite]
    split
    · exact uploadFile_ok
    · exact uploadFile_ok
  · exact rfl

/-- No turn fails. -/
lemma handler_ok : Ends (p.turn (willingEnv answer) o f) r fun out _ => out.2 = false := by
  cases p with
  | deleteFiles =>
    rw [Handler.turn, updateDeleteFile, ends_ite]
    split
    · rw [ends_bind, ends_feCanUpdate, ends_ite]
      split <;> exact rfl
    · exact rfl
  | createDirectories =>
    rw [Handler.turn, updateCreateDirectory, ends_ite]
    split
    · have hcode : ∀ c s, ((willingEnv answer).exec c s).1.code = SITE_OK := fun _ _ => rfl
      simp only [ends_bind, ends_feCanUpdate, ends_ite, ends_call, ends_pure, ends_driverErr, hcode,
        finishDirectory]
      split_ifs <;> trivial
    · exact rfl
  | moveFiles =>
    rw [Handler.turn, updateMoveFile, ends_ite]
    split
    · rw [ends_bind, ends_feCanUpdate, ends_ite]
      split <;> exact rfl
    · exact rfl
  | deleteDirectories =>
    rw [Handler.turn, updateDeleteDirectory, ends_ite]
    split
    · rw [ends_bind, ends_feCanUpdate, ends_ite]
      split <;> exact rfl
    · exact rfl
  | files =>
    rw [Handler.turn, updateFile, ends_ite]
    split
    · exact rfl
    · cases f.diff with
      | unchanged | deleted | moved => exact rfl
      | new => exact updateNewFile_ok
      | changed =>
        simp only [ends_ite, ends_bind]
        split_ifs
        · exact rfl
        · exact fileChmod_ok.mono fun out _ h => h
        · exact updateNewFile_ok
  | links =>
    rw [Handler.turn, updateLink, ends_ite]
    split
    · exact rfl
    · cases f.diff <;> exact rfl

/-- The turn that does not ask. -/
lemma unasked_touched (answer : SiteFile → Bool) (h : Unasked o f) :
    ∃ p, activeHandler f = some p ∧ (p, true) ∈ handlerTable o ∧
      ∀ r, Adds r (p.turn (willingEnv answer) o f) fun _ seg => Touched f seg := by
  rcases h with ⟨ht, hd, hignore, hcontents, hperms⟩ | ⟨ht, hmaintain, hd⟩
  · refine ⟨.files, by simp [activeHandler, hd, ht], by simp [handlerTable], fun r => ?_⟩
    rw [Handler.turn, updateFile, if_neg (by simp [ht]), hd]
    simp only [hignore, hcontents, Bool.false_eq_true, if_false, Bool.not_false, if_true, fileChmod,
      hperms]
    exact ⟨_, rfl, _, List.mem_singleton_self _, rfl⟩
  · refine ⟨.links, ?_, by simp [handlerTable, hmaintain], fun r => ?_⟩
    · rcases hd with hd | hd | hd <;> simp [activeHandler, hd, ht]
    · rw [Handler.turn, updateLink, if_neg (by simp [ht])]
      rcases hd with hd | hd | hd
      · rw [hd]
        exact ⟨_, rfl, _, List.mem_singleton_self _, rfl⟩
      · rw [hd]
        exact ⟨_, rfl, _, List.mem_singleton_self _, rfl⟩
      · rw [hd]
        exact ⟨_, List.append_assoc _ _ _, _, List.mem_cons_self, rfl⟩

/-- A pass does not fail, and in the right one something is done for the entry. -/
lemma pass_touches (h : Single f files) (htouch : activeHandler f = some p →
      ∀ r, Adds r (p.turn (willingEnv answer) o f) fun _ seg => Touched f seg) :
    Ends (p.pass (willingEnv answer) o files) r fun out r' => out.2 = false ∧
      (activeHandler f ≠ some p → Single f out.1) ∧
        (activeHandler f = some p → Touched f r'.trace) := by
  have hturn : ∀ g ∈ files, ∀ r, Adds r (p.turn (willingEnv answer) o g) fun out seg =>
      out.2 = false ∧ (g = f → activeHandler f = some p → Touched f seg) := by
    intro g _ r
    obtain ⟨seg, ht, -⟩ := @handler_turn PUnit (willingEnv answer) o g r p
    refine ⟨seg, ht, handler_ok, fun hg hact => ?_⟩
    subst hg
    obtain ⟨seg', ht', htouched⟩ := htouch hact r
    obtain rfl := List.append_cancel_left (ht.symm.trans ht')
    exact htouched
  have hsingle : activeHandler f ≠ some p →
      Ends (p.pass (willingEnv answer) o files) r fun out _ => Single f out.1 := fun hact =>
    (pass_spares (fun r => by rw [turn_idle hact]; exact ⟨rfl, rfl⟩) h r).mono fun _ _ hout => hout.1
  obtain ⟨vs, hl, hout, ⟨seg, ht, hmem⟩, hv⟩ := handler_visits hturn r
  refine ⟨?_, hsingle, fun hact => ?_⟩
  · rw [hout]
    exact Visit.failed_eq_false.mpr fun v hvs => (hv v hvs).1
  · obtain ⟨v, hvs, hve⟩ := List.mem_map.mp (hl ▸ h.mem)
    obtain ⟨e, he, ho⟩ := (hv v hvs).2 hve hact
    exact ⟨e, by rw [ht]; exact List.mem_append_right _ ((hmem e).mpr (Visit.mem_logged.mpr
      ⟨v, hvs, he⟩)), ho⟩

lemma Touched.append {trace seg : List Event} (h : Touched f trace) : Touched f (trace ++ seg) := by
  obtain ⟨e, he, ho⟩ := h
  exact ⟨e, List.mem_append_left _ he, ho⟩

lemma pass_grows (h : Touched f r.trace) :
    Ends (p.pass (willingEnv answer) o files) r fun _ r' => Touched f r'.trace := by
  apply (handler_visits (fun g _ r => @handler_turn PUnit (willingEnv answer) o g r p) r).mono
  rintro out r' ⟨vs, -, -, ⟨seg, ht, -⟩, -⟩
  rw [ht]
  exact h.append

/-- The handlers come to the one that acts on the entry, and what it does stays on record. -/
lemma runHandlers_touches {q : Handler} (hact : activeHandler f = some q)
    (htouch : ∀ r, Adds r (q.turn (willingEnv answer) o f) fun _ seg => Touched f seg)
    (table : List (Handler × Bool))
    (h : Touched f r.trace ∨ Single f files ∧ (q, true) ∈ table) :
    Ends (runHandlers o (table.map fun e => (e.1.pass (willingEnv answer) o, e.2)) false files) r
      fun _ r' => Touched f r'.trace := by
  induction table generalizing files r with
  | nil => exact h.resolve_right fun hin => absurd hin.2 List.not_mem_nil
  | cons e table ih =>
    obtain ⟨p, guard⟩ := e
    rw [List.map_cons, runHandlers]
    simp only [ends_ite, ends_bind, Bool.not_false, Bool.true_or, if_true]
    split_ifs with hg
    · obtain rfl : guard = true := hg
      have hok : Ends (p.pass (willingEnv answer) o files) r fun out _ => out.2 = false := by
        apply (handler_visits (T := fun _ out _ => out.2 = false) (fun g _ r => ?_) r).mono
        · rintro out r' ⟨vs, -, rfl, -, hv⟩
          exact Visit.failed_eq_false.mpr hv
        · obtain ⟨seg, ht, -⟩ := @handler_turn PUnit (willingEnv answer) o g r p
          exact ⟨seg, ht, handler_ok⟩
      have hnext : Ends (p.pass (willingEnv answer) o files) r fun out r' =>
          Touched f r'.trace ∨ Single f out.1 ∧ (q, true) ∈ table := by
        rcases h with htouched | ⟨hsingle, hin⟩
        · exact (pass_grows htouched).mono fun _ _ h => .inl h
        · by_cases hp : p = q
          · subst hp
            exact (pass_touches hsingle fun _ => htouch).mono fun _ _ h => .inl (h.2.2 hact)
          · have hne : activeHandler f ≠ some p := by
              rw [hact]
              exact fun h => hp (Option.some.inj h).symm
            have hin' : (q, true) ∈ table := by
              rcases List.mem_cons.mp hin with h | h
              · exact absurd (Prod.mk.inj h).1.symm hp
              · exact h
            exact (pass_touches hsingle fun h => absurd h hne).mono fun _ _ h =>
              .inr ⟨h.2.1 hne, hin'⟩
      apply (hok.and hnext).mono
      rintro out r' ⟨hfail, hout⟩
      rw [hfail]
      exact ih hout
    · apply ih
      apply h.imp_right
      intro hin
      refine ⟨hin.1, ?_⟩
      rcases List.mem_cons.mp hin.2 with h | h
      · exact absurd (Prod.mk.inj h).2.symm hg
      · exact h

lemma updateSiteFiles_touches (h : Single f files) (hun : Unasked o f) :
    Ends (updateSiteFiles (willingEnv answer) o files) r fun _ r' => Touched f r'.trace := by
  obtain ⟨q, hact, hin, htouch⟩ := unasked_touched answer hun
  have hinit : Ends (protoInit (willingEnv answer)) r fun ret _ => ret = SITE_OK := rfl
  rw [updateSiteFiles, ends_bind]
  apply hinit.mono
  intro ret r₁ hret
  rw [ends_ite, if_neg (not_not_intro hret), ends_bind, handlers_eq]
  apply (runHandlers_touches hact htouch (handlerTable o) (.inr ⟨h, hin⟩)).mono
  intro out r₂ htouched
  simp only [protoFinish, ends_bind, ends_driverErr, ends_call, ends_pure]
  exact htouched.append.append

end Willing

/-! ### The update -/

/-- A file of which only the mode has changed. -/
def modeChanged : SiteFile where
  addr := 0
  diff := .changed
  type := .file
  localState := { filename := some (ascii "f"), existing := true, mode := 0o600 }
  storedState := { filename := some (ascii "f"), existing := true, mode := 0o644 }

def modeChangedSite : Site where
  opts := { perms := .all }
  files := [modeChanged]
  freshAddr := 1

end Sitecopy.PromptRefusals
