import Sitecopy.UpdateAccounting
import Sitecopy.SiteInvariants

/-!
# What an update records about directories and links

Creating a directory and setting its permissions are two calls behind one result, and
links do their own bookkeeping. Each pass is described by its visits: which calls an entry
got, and what the entry became.
-/
namespace Sitecopy.UpdateRecords
open SiteModel FileSet FileSetSpec StateProgram SiteStats SiteUpdate UpdateStats SiteInvariants
open UpdateAccounting

variable {σ : Type} {env : Env σ} {o : SiteOptions} {f : SiteFile} {r : Run σ}

/-- The event is a call for the entry, one of those in `c`, with an answer that satisfies `P`. -/
def Hit (f : SiteFile) (c : DriverCall → Prop) (P : ℤ → Prop) : Event → Prop
  | .call a call code => a = some f.addr ∧ c call ∧ P code
  | .uploaded _ | .removed _ => False

def Answers (trace : List Event) (f : SiteFile) (c : DriverCall → Prop) (P : ℤ → Prop) : Prop :=
  ∃ e ∈ trace, Hit f c P e

lemma Hit.owner {c : DriverCall → Prop} {P : ℤ → Prop} {e : Event} (h : Hit f c P e) :
    owner e = some f.addr := by
  cases e with
  | call a call code => exact h.1
  | uploaded a => exact h.elim
  | removed a => exact h.elim

/-- A pass over distinct nodes, described by its visits. -/
lemma pass_visits {body : SiteFile → StateM (Run σ) Outcome}
    {T : SiteFile → Outcome → List Event → Prop} (hturn : ∀ f r, Adds r (body f) (Turn f))
    (hT : ∀ f r, Adds r (body f) (T f)) {files : List SiteFile}
    (hnd : (files.map SiteFile.addr).Nodup) (st : Stats) (sess : σ) :
    Ends (forEach body files) { stats := st, sess := sess } fun out r =>
      ∃ vs : List (Visit SiteFile Event), vs.map Visit.elem = files ∧ out.1 = Visit.kept vs ∧
        r.trace = Visit.logged vs ∧ Visit.Keyed SiteFile.addr owner vs ∧
          ∀ v ∈ vs, T v.elem v.result v.log := by
  have hboth : ∀ f r, Adds r (body f) fun out seg => Turn f out seg ∧ T f out seg :=
    fun f r => (hturn f r).and (hT f r)
  apply (forEach_visits Run.trace files (fun f _ => hboth f) { stats := st, sess := sess }).mono
  rintro out r ⟨vs, hl, rfl, ht, hv⟩
  refine ⟨vs, hl, rfl, ht, ⟨?_, ?_, ?_⟩, fun v hm => (hv v hm).2⟩
  · rw [← hl, List.map_map] at hnd
    exact hnd
  · exact fun v hm => (hv v hm).1.owned
  · exact fun v hm g hg => (hv v hm).1.same g hg

lemma answers_logged {vs : List (Visit SiteFile Event)} (h : Visit.Keyed SiteFile.addr owner vs)
    {v : Visit SiteFile Event} (hv : v ∈ vs) {c : DriverCall → Prop} {P : ℤ → Prop} :
    Answers (Visit.logged vs) v.elem c P ↔ Answers v.log v.elem c P := by
  constructor
  · rintro ⟨e, he, hit⟩
    exact ⟨e, (h.mem_log hv hit.owner).mp he, hit⟩
  · rintro ⟨e, he, hit⟩
    exact ⟨e, (h.mem_log hv hit.owner).mpr he, hit⟩

/-! ### Directories -/

def isDirCreate : DriverCall → Prop
  | .dirCreate _ => True
  | _ => False

def isFileChmod : DriverCall → Prop
  | .fileChmod _ _ => True
  | _ => False

/-- `dir_create` for the entry returned `SITE_OK`. -/
def Created (trace : List Event) (f : SiteFile) : Prop := Answers trace f isDirCreate (· = SITE_OK)

/-- `file_chmod` for the entry did not. -/
def ChmodRefused (trace : List Event) (f : SiteFile) : Prop :=
  Answers trace f isFileChmod (· ≠ SITE_OK)

/-- The entry is in the list as a directory that exists remotely and is not to be created. -/
def DirRecorded (files : List SiteFile) (f : SiteFile) : Prop :=
  ∃ g ∈ files, g.addr = f.addr ∧ g.type = .dir ∧ g.storedState.existing = true ∧ g.diff ≠ .new

/-- One visit of `update_create_directories`. -/
structure DirVisit (o : SiteOptions) (f : SiteFile) (out : Outcome) (seg : List Event) : Prop where
  new : Created seg f → f.diff = .new
  refused : Created seg f → ChmodRefused seg f → out.1 = some f
  recorded : Created seg f → ¬ ChmodRefused seg f → ∃ g, out.1 = some g ∧ g.addr = f.addr ∧
    g.type = f.type ∧ g.storedState.existing = f.localState.existing ∧
      g.diff = fileCompare g.type g.localState g.storedState o

lemma DirVisit.idle {out : Outcome} {seg : List Event} (h : ¬ Created seg f) :
    DirVisit o f out seg := ⟨fun hc => absurd hc h, fun hc => absurd hc h, fun hc => absurd hc h⟩

lemma finishDirectory_visit {r' : Run σ} {oret : ℤ} {seg : List Event}
    (hr : r'.trace = r.trace ++ seg) (hnew : Created seg f → f.diff = .new)
    (hret : Created seg f → (ChmodRefused seg f ↔ oret ≠ SITE_OK)) :
    Ends (finishDirectory o f oret) r' fun out r'' =>
      ∃ seg, r''.trace = r.trace ++ seg ∧ DirVisit o f out seg := by
  unfold finishDirectory
  simp only [ends_ite, ends_bind, ends_pure, ends_fileUploaded]
  split_ifs with hok
  · refine ⟨seg, hr, hnew, fun _ _ => rfl, fun hc hn => ?_⟩
    exact absurd ((hret hc).mpr hok) hn
  · have hcreated : Created (seg ++ [.uploaded f.addr]) f → Created seg f := by
      simp [Created, Answers, Hit]
    refine ⟨seg ++ [.uploaded f.addr], by rw [hr, List.append_assoc], fun hc => hnew (hcreated hc),
      fun hc hn => ?_, fun _ _ => ⟨_, rfl, rfl, rfl, rfl, rfl⟩⟩
    have hn' : ChmodRefused seg f := by simpa [ChmodRefused, Answers, Hit] using hn
    exact absurd ((hret (hcreated hc)).mp hn') hok

lemma updateCreateDirectory_visit :
    Adds r (updateCreateDirectory env o f) (DirVisit o f) := by
  unfold Adds updateCreateDirectory
  simp only [ends_ite, ends_bind, ends_pure, ends_feCanUpdate, ends_call, ends_driverErr]
  split_ifs
  all_goals first
    | exact ⟨[], (List.append_nil _).symm, DirVisit.idle (by simp [Created, Answers])⟩
    | refine finishDirectory_visit (List.append_nil _).symm ?_ ?_
      · simp [Created, Answers]
      · simp [Created, Answers]
    | refine finishDirectory_visit (by simp only [List.append_assoc]; rfl) ?_ ?_
      all_goals simp_all [Created, ChmodRefused, Answers, Hit, isDirCreate, isFileChmod]

/-- `update_create_directories` run on a site. -/
def directoryPass (env : Env σ) (site : Site) (sess : σ) : (List SiteFile × Bool) × Run σ :=
  (updateCreateDirectories env site.opts site.files).run { stats := site.stats, sess := sess }

/-- A created directory is recorded in exactly those passes in which the permissions of no
created directory are refused. -/
theorem created_recorded_iff (env : Env σ) (site : Site) (wl : WellLinked site)
    (hcmp : ∀ f ∈ site.files, Compared site.opts f) (sess : σ) :
    (∀ f ∈ site.files, f.type = .dir → Created (directoryPass env site sess).2.trace f →
      DirRecorded (directoryPass env site sess).1.1 f) ↔
    ∀ f ∈ site.files, f.type = .dir → Created (directoryPass env site sess).2.trace f →
      ¬ ChmodRefused (directoryPass env site sess).2.trace f := by
  obtain ⟨vs, hl, hkept, hlog, hkey, hvisit⟩ :
      ∃ vs : List (Visit SiteFile Event), vs.map Visit.elem = site.files ∧
        (directoryPass env site sess).1.1 = Visit.kept vs ∧
        (directoryPass env site sess).2.trace = Visit.logged vs ∧
        Visit.Keyed SiteFile.addr owner vs ∧
        ∀ v ∈ vs, DirVisit site.opts v.elem v.result v.log :=
    pass_visits (fun _ _ => updateCreateDirectory_turn) (fun _ _ => updateCreateDirectory_visit)
      wl.nodup site.stats sess
  rw [hkept, hlog]
  simp only [← hl, List.forall_mem_map]
  apply forall₂_congr
  intro v hv
  have hv' := hvisit v hv
  apply forall_congr'
  intro ht
  rw [Created, ChmodRefused, answers_logged hkey hv, answers_logged hkey hv]
  apply forall_congr'
  intro hc
  constructor
  · rintro ⟨g, hg, ha, _, _, hnew⟩ href
    rw [hkey.mem_kept hv ha, hv'.refused hc href] at hg
    obtain rfl := Option.some.inj hg
    exact hnew (hv'.new hc)
  · intro href
    obtain ⟨g, hout, ha, hgt, hex, hd⟩ := hv'.recorded hc href
    have hnew : fileCompare v.elem.type v.elem.localState v.elem.storedState site.opts = .new := by
      rw [← hcmp v.elem (hl ▸ List.mem_map_of_mem hv)]
      exact hv'.new hc
    have hlocal := (fileCompare_new_iff.mp hnew).1
    refine ⟨g, (hkey.mem_kept hv ha).mpr hout, ha, hgt.trans ht, hex.trans hlocal, ?_⟩
    rw [hd]
    intro h
    rw [(fileCompare_new_iff.mp h).2, hlocal] at hex
    exact Bool.noConfusion hex

/-- A driver whose answers depend on the call only. -/
def scriptedEnv (answer : DriverCall → ℤ) : Env PUnit where
  exec c s := ({ code := answer c }, s)
  canUpdate _ s := (true, s)

/-- A server on which permissions cannot be set. -/
def noChmod : DriverCall → ℤ
  | .fileChmod _ _ => SITE_ERRORS
  | _ => SITE_OK

/-- A new directory under `permissions dir`. -/
def newDirSite : Site where
  opts := { dirperms := true }
  files := [{
    addr := 0
    diff := .new
    type := .dir
    localState := { filename := some (ascii "d"), existing := true, mode := 0o755 } }]
  stats := { numnew := 1, remoteIsDifferent := true, localIsDifferent := true }
  freshAddr := 1

lemma newDirSite_linked : WellLinked newDirSite := ⟨by decide, by decide⟩

theorem created_recorded_iff_noChmod :
    (∀ f ∈ newDirSite.files, f.type = .dir →
      Created (directoryPass (scriptedEnv noChmod) newDirSite ⟨⟩).2.trace f →
        DirRecorded (directoryPass (scriptedEnv noChmod) newDirSite ⟨⟩).1.1 f) ↔
    ∀ f ∈ newDirSite.files, f.type = .dir →
      Created (directoryPass (scriptedEnv noChmod) newDirSite ⟨⟩).2.trace f →
        ¬ ChmodRefused (directoryPass (scriptedEnv noChmod) newDirSite ⟨⟩).2.trace f :=
  created_recorded_iff (scriptedEnv noChmod) newDirSite newDirSite_linked
    (by simp [newDirSite, Compared, fileCompare]) ⟨⟩

/-- The directory exists on the server, and yet the entry still is a new one. -/
theorem created_not_recorded :
    rcfileVerify newDirSite.opts = .ok () ∧
      ¬ ∀ f ∈ newDirSite.files, f.type = .dir →
        Created (directoryPass (scriptedEnv noChmod) newDirSite ⟨⟩).2.trace f →
          DirRecorded (directoryPass (scriptedEnv noChmod) newDirSite ⟨⟩).1.1 f := by
  refine ⟨rfl, fun h => ?_⟩
  have hlist : (directoryPass (scriptedEnv noChmod) newDirSite ⟨⟩).1.1 = newDirSite.files := rfl
  have htrace : (directoryPass (scriptedEnv noChmod) newDirSite ⟨⟩).2.trace =
      [.call (some 0) (.dirCreate (ascii "d")) SITE_OK,
        .call (some 0) (.fileChmod (ascii "d") 0o755) SITE_ERRORS,
        .call (some 0) .error SITE_OK] := rfl
  rw [hlist, htrace] at h
  obtain ⟨g, hg, _, _, hex, _⟩ := h _ (List.mem_singleton.mpr rfl) rfl
    ⟨_, List.mem_cons_self, rfl, trivial, rfl⟩
  rw [List.mem_singleton.mp hg] at hex
  exact Bool.noConfusion hex

/-! ### Links -/

def isLinkWrite : DriverCall → Prop
  | .linkCreate _ _ | .linkChange _ _ => True
  | _ => False

def isLinkDelete : DriverCall → Prop
  | .linkDelete _ => True
  | _ => False

/-- `link_create` or `link_change` for the entry returned `SITE_OK`. -/
def Linked (trace : List Event) (f : SiteFile) : Prop := Answers trace f isLinkWrite (· = SITE_OK)

/-- `link_delete` for the entry did. -/
def Unlinked (trace : List Event) (f : SiteFile) : Prop :=
  Answers trace f isLinkDelete (· = SITE_OK)

/-- The files and statistics after `update_links` tell what the calls in the trace did. -/
structure LinksRecorded (o : SiteOptions) (files : List SiteFile) (trace : List Event)
    (out : List SiteFile) (st : Stats) : Prop where
  linked : ∀ f ∈ files, f.type = .link → Linked trace f →
    ∃ g ∈ out, g.addr = f.addr ∧ g.localState = f.localState ∧ g.storedState.existing = true ∧
      g.storedState.filename = g.localState.filename ∧
      g.storedState.linktarget = g.localState.linktarget
  deleted : ∀ f ∈ files, f.type = .link → Unlinked trace f → ∀ g ∈ out, g.addr ≠ f.addr
  others : ∀ f ∈ files, f.type = .link → ¬ Linked trace f → ¬ Unlinked trace f →
    ∃ g ∈ out, g.addr = f.addr ∧ g.localState = f.localState ∧ g.storedState = f.storedState ∧
      g.serverState = f.serverState
  exact : Exact o out st

lemma fileCompare_changed_link {type : FileType} {s t : FileState} (ht : type = .link)
    (h : fileCompare type s t o = .changed) : s.linktarget ≠ t.linktarget := by
  obtain ⟨hs, hex⟩ := fileCompare_both h (by decide) (by decide)
  subst ht
  rw [fileCompare_link hs hex] at h
  split_ifs at h with hne
  exact hne

/-- One visit of `update_links`. -/
structure LinkVisit (f : SiteFile) (out : Outcome) (seg : List Event) : Prop where
  linked : Linked seg f → f.type = .link ∧ (f.diff = .new ∨ f.diff = .changed) ∧
    out.1 = some { f with diff := .unchanged }
  deleted : Unlinked seg f → out.1 = none
  others : ¬ Linked seg f → ¬ Unlinked seg f → out.1 = some f

lemma LinkVisit.idle {seg : List Event} {failed : Bool} (hl : ¬ Linked seg f)
    (hd : ¬ Unlinked seg f) : LinkVisit f (some f, failed) seg :=
  ⟨fun h => absurd h hl, fun h => absurd h hd, fun _ _ => rfl⟩

lemma updateLink_visit : Adds r (updateLink env o f) (LinkVisit f) := by
  have hidle : Adds r (pure (some f, false) : StateM (Run σ) Outcome) (LinkVisit f) :=
    ⟨[], (List.append_nil _).symm,
      LinkVisit.idle (by simp [Linked, Answers]) (by simp [Unlinked, Answers])⟩
  unfold updateLink
  by_cases ht : f.type ≠ .link
  · rw [if_pos ht]
    exact hidle
  · rw [if_neg ht]
    cases hd : f.diff with
    | unchanged | moved => exact hidle
    | new | changed =>
      unfold Adds
      simp only [ends_ite, ends_bind, ends_pure, ends_call, ends_driverErr]
      split_ifs with hcode
      · refine ⟨_, List.append_assoc _ _ _, LinkVisit.idle ?_ ?_⟩
        · simp [Linked, Answers, Hit, isLinkWrite, hcode]
        · simp [Unlinked, Answers, Hit, isLinkDelete]
      · rw [ne_eq, not_not] at hcode
        refine ⟨_, rfl, ⟨fun _ => ⟨not_not.mp ht, by simp [hd], rfl⟩, ?_, ?_⟩⟩
        · simp [Unlinked, Answers, Hit, isLinkDelete]
        · simp [Linked, Answers, Hit, isLinkWrite, hcode]
    | deleted =>
      unfold Adds
      simp only [ends_ite, ends_bind, ends_pure, ends_call, ends_driverErr, ends_deleteEntry]
      split_ifs with hcode
      · refine ⟨_, List.append_assoc _ _ _, LinkVisit.idle ?_ ?_⟩
        · simp [Linked, Answers, Hit, isLinkWrite]
        · simp [Unlinked, Answers, Hit, isLinkDelete, hcode]
      · rw [ne_eq, not_not] at hcode
        refine ⟨_, List.append_assoc _ _ _, ⟨?_, fun _ => rfl, ?_⟩⟩
        · simp [Linked, Answers, Hit, isLinkWrite]
        · simp [Unlinked, Answers, Hit, isLinkDelete, hcode]

/-- Unless a link is created or changed, the turn keeps the statistics exact. -/
lemma updateLink_balanced (hc : Compared o f) (hf : siteStatsUpdate o r.stats = r.stats) :
    Ends (updateLink env o f) r fun out r' =>
      Linked r'.trace f ∨ Balanced o f r.stats out.1 r'.stats := by
  have hidle : Ends (pure (some f, false) : StateM (Run σ) Outcome) r fun out r' =>
      Linked r'.trace f ∨ Balanced o f r.stats out.1 r'.stats := Or.inr (Balanced.keep hc hf)
  unfold updateLink
  by_cases ht : f.type ≠ .link
  · rw [if_pos ht]
    exact hidle
  · rw [if_neg ht]
    cases hd : f.diff with
    | unchanged | moved => exact hidle
    | new | changed =>
      simp only [ends_ite, ends_bind, ends_pure, ends_call, ends_driverErr]
      split_ifs with hcode
      · exact Or.inr (Balanced.keep hc hf)
      · rw [ne_eq, not_not] at hcode
        exact Or.inl ⟨_, List.mem_append_right _ (List.mem_singleton_self _), rfl, trivial, hcode⟩
    | deleted =>
      simp only [ends_ite, ends_bind, ends_pure, ends_call, ends_driverErr, ends_deleteEntry]
      split_ifs
      · exact Or.inr (Balanced.keep hc hf)
      · exact Or.inr Balanced.fileDelete

/-- `update_links` run on a site. -/
def linkPass (env : Env σ) (site : Site) (sess : σ) : (List SiteFile × Bool) × Run σ :=
  (updateLinks env site.opts site.files).run { stats := site.stats, sess := sess }

lemma linkPass_exact (site : Site) (h : ExactSite site) (sess : σ) :
    (∃ f ∈ site.files, Linked (linkPass env site sess).2.trace f) ∨
      Exact site.opts (linkPass env site sess).1.1 (linkPass env site sess).2.stats := by
  have hrun : Ends (updateLinks env site.opts site.files) { stats := site.stats, sess := sess }
      fun out r => (∃ f ∈ site.files, Linked r.trace f) ∨
        ExactList site.opts (site.files.map SiteFile.addr) out.1 r.stats := by
    refine (forEach_ends (I := fun done rest _ (r : Run σ) => (∃ pre, pre ++ rest = site.files) ∧
      ((∃ f ∈ site.files, Linked r.trace f) ∨
        ExactList site.opts (site.files.map SiteFile.addr) (done ++ rest) r.stats))
      ?_ ?_).mono fun out r hI => by simpa using hI.2
    swap
    · exact ⟨⟨[], rfl⟩, Or.inr h.list⟩
    rintro done f rest failed r ⟨⟨pre, hpre⟩, hI⟩
    obtain ⟨seg, hseg, _⟩ := @updateLink_turn _ env site.opts f r
    have hkeep : ∀ g, Linked r.trace g →
        Linked ((updateLink env site.opts f).run r).2.trace g := by
      rintro g ⟨e, he, hit⟩
      exact ⟨e, hseg ▸ List.mem_append_left seg he, hit⟩
    refine ⟨⟨pre ++ [f], by simpa using hpre⟩, ?_⟩
    rcases hI with ⟨g, hg, hl⟩ | hI
    · exact Or.inl ⟨g, hg, hkeep g hl⟩
    · rcases updateLink_balanced (hI.exact.compared f (by simp)) hI.exact.flags
        with hl | hb
      · exact Or.inl ⟨f, by simp [← hpre], hl⟩
      · exact Or.inr (by simpa using hI.replace hb.exchanged)
  exact hrun.imp_right ExactList.exact

lemma linkPass_recorded_iff (env : Env σ) (site : Site) (h : ExactSite site) (sess : σ) :
    LinksRecorded site.opts site.files (linkPass env site sess).2.trace
        (linkPass env site sess).1.1 (linkPass env site sess).2.stats ↔
      ∀ f ∈ site.files, f.type = .link → ¬ Linked (linkPass env site sess).2.trace f := by
  obtain ⟨vs, hl, hkept, hlog, hkey, hvisit⟩ :
      ∃ vs : List (Visit SiteFile Event), vs.map Visit.elem = site.files ∧
        (linkPass env site sess).1.1 = Visit.kept vs ∧
        (linkPass env site sess).2.trace = Visit.logged vs ∧
        Visit.Keyed SiteFile.addr owner vs ∧
        ∀ v ∈ vs, LinkVisit v.elem v.result v.log :=
    pass_visits (fun _ _ => updateLink_turn) (fun _ _ => updateLink_visit)
      h.linked.nodup site.stats sess
  have hexact := @linkPass_exact σ env site h sess
  rw [hlog] at hexact
  rw [hkept, hlog] at *
  constructor
  · intro hrec f hf ht hlinked
    obtain ⟨v, hv, rfl⟩ := List.mem_map.mp (hl ▸ hf)
    obtain ⟨_, hd, hout⟩ := (hvisit v hv).linked ((answers_logged hkey hv).mp hlinked)
    obtain ⟨g, hg, ha, _, hex, _, htarget⟩ := hrec.linked v.elem hf ht hlinked
    rw [hkey.mem_kept hv ha, hout] at hg
    obtain rfl := Option.some.inj hg
    have hc := h.exact.compared v.elem hf
    rcases hd with hd | hd
    · have hnew := (fileCompare_new_iff.mp (hc.symm.trans hd)).2
      exact Bool.noConfusion (hnew.symm.trans hex)
    · have hne := fileCompare_changed_link ht (hc.symm.trans hd)
      exact hne htarget.symm
  · intro hnone
    have hnot : ∀ f ∈ site.files, ¬ Linked (Visit.logged vs) f := by
      intro f hf hlinked
      obtain ⟨v, hv, rfl⟩ := List.mem_map.mp (hl ▸ hf)
      have hvl := (hvisit v hv).linked ((answers_logged hkey hv).mp hlinked)
      exact hnone _ hf hvl.1 hlinked
    refine ⟨fun f hf _ hlinked => absurd hlinked (hnot f hf), ?_, ?_, ?_⟩
    · intro f hf _ hdel g hg ha
      obtain ⟨v, hv, rfl⟩ := List.mem_map.mp (hl ▸ hf)
      rw [hkey.mem_kept hv ha, (hvisit v hv).deleted ((answers_logged hkey hv).mp hdel)] at hg
      cases hg
    · intro f hf _ hlinked hdel
      obtain ⟨v, hv, rfl⟩ := List.mem_map.mp (hl ▸ hf)
      have hout := (hvisit v hv).others (fun h => hlinked ((answers_logged hkey hv).mpr h))
        (fun h => hdel ((answers_logged hkey hv).mpr h))
      exact ⟨v.elem, (hkey.mem_kept hv rfl).mpr hout, rfl, rfl, rfl, rfl⟩
    · apply hexact.resolve_left
      rintro ⟨f, hf, hlinked⟩
      exact hnot f hf hlinked

/-- A state has a name exactly when it exists. -/
def Named (s : FileState) : Prop := s.filename = none ↔ s.existing = false

/-- `update_links` builds the remote name of every link from its local filename, and
follows a null pointer where there is none. -/
def LocallyNamed (files : List SiteFile) : Prop :=
  ∀ f ∈ files, f.type = .link → f.localState.filename ≠ none

lemma locallyNamed_iff {files : List SiteFile} (hcmp : ∀ f ∈ files, Compared o f)
    (hn : ∀ f ∈ files, Named f.localState) :
    LocallyNamed files ↔ ∀ f ∈ files, f.type = .link → f.diff ≠ .deleted := by
  apply forall₂_congr
  intro f hf
  have hname : f.localState.filename = none ↔ f.localState.existing = false := hn f hf
  rw [hcmp f hf, ne_eq, ne_eq, fileCompare_deleted_iff, hname]

/-- The bookkeeping of `update_links` is right in exactly those passes over lists without
deleted links in which no link is created or changed. -/
theorem links_recorded_iff (env : Env σ) (site : Site) (h : ExactSite site)
    (hn : ∀ f ∈ site.files, Named f.localState) (sess : σ) :
    LocallyNamed site.files ∧ LinksRecorded site.opts site.files (linkPass env site sess).2.trace
        (linkPass env site sess).1.1 (linkPass env site sess).2.stats ↔
      ∀ f ∈ site.files, f.type = .link →
        f.diff ≠ .deleted ∧ ¬ Linked (linkPass env site sess).2.trace f := by
  rw [locallyNamed_iff h.exact.compared hn, linkPass_recorded_iff env site h sess]
  constructor
  · exact fun ⟨hdel, hlink⟩ f hf ht => ⟨hdel f hf ht, hlink f hf ht⟩
  · exact fun hall => ⟨fun f hf ht => (hall f hf ht).1, fun f hf ht => (hall f hf ht).2⟩

/-- A new link. -/
def newLinkSite : Site where
  opts := { protocol := .sftp, symlinks := .maintain }
  files := [{
    addr := 0
    diff := .new
    type := .link
    localState := { filename := some (ascii "l"), existing := true, linktarget := some (ascii "t") } }]
  stats := { numnew := 1, remoteIsDifferent := true, localIsDifferent := true }
  freshAddr := 1

lemma newLinkSite_exact : ExactSite newLinkSite where
  linked := ⟨by decide, by decide⟩
  exact := ⟨by simp [newLinkSite, Compared, fileCompare], fun c => by cases c <;> rfl, rfl⟩

theorem links_recorded_iff_created :
    LocallyNamed newLinkSite.files ∧ LinksRecorded newLinkSite.opts newLinkSite.files
        (linkPass (scriptedEnv fun _ => SITE_OK) newLinkSite ⟨⟩).2.trace
        (linkPass (scriptedEnv fun _ => SITE_OK) newLinkSite ⟨⟩).1.1
        (linkPass (scriptedEnv fun _ => SITE_OK) newLinkSite ⟨⟩).2.stats ↔
      ∀ f ∈ newLinkSite.files, f.type = .link → f.diff ≠ .deleted ∧
        ¬ Linked (linkPass (scriptedEnv fun _ => SITE_OK) newLinkSite ⟨⟩).2.trace f :=
  links_recorded_iff (scriptedEnv fun _ => SITE_OK) newLinkSite newLinkSite_exact
    (by simp [newLinkSite, Named]) ⟨⟩

/-- The link was created, and its stored state still does not exist. -/
theorem created_link_not_recorded :
    rcfileVerify newLinkSite.opts = .ok () ∧
      ¬ LinksRecorded newLinkSite.opts newLinkSite.files
        (linkPass (scriptedEnv fun _ => SITE_OK) newLinkSite ⟨⟩).2.trace
        (linkPass (scriptedEnv fun _ => SITE_OK) newLinkSite ⟨⟩).1.1
        (linkPass (scriptedEnv fun _ => SITE_OK) newLinkSite ⟨⟩).2.stats := by
  refine ⟨rfl, fun h => ?_⟩
  have htrace : (linkPass (scriptedEnv fun _ => SITE_OK) newLinkSite ⟨⟩).2.trace =
      [.call (some 0) (.linkCreate (ascii "l") (ascii "t")) SITE_OK] := rfl
  obtain ⟨g, hg, _, _, hex, _⟩ := h.linked _ (List.mem_singleton.mpr rfl) rfl
    ⟨.call (some 0) (.linkCreate (ascii "l") (ascii "t")) SITE_OK,
      by rw [htrace]; exact List.mem_cons_self, rfl, trivial, rfl⟩
  rw [List.mem_singleton.mp hg] at hex
  exact Bool.noConfusion hex

end Sitecopy.UpdateRecords
