import Sitecopy.SiteInvariants

/-!
# Matching local and stored states

The states held on each side form a multiset that `file_set` extends by exactly the
state it is given, whatever it moves around. Two unchanged states of one name therefore
meet in one entry in every order of calls, and are not separated again.
-/
namespace Sitecopy.FileMatching
open SiteModel FileSet FileSetSpec SiteStats SiteInvariants

/-- What an entry holds on one side: nothing, or its type and state. -/
def holds (s : Slot) (f : SiteFile) : Multiset (FileType × FileState) :=
  if (s.get f).existing then {(f.type, s.get f)} else 0

/-- The existing states on one side of a files list, with their types. -/
def held (s : Slot) (files : List SiteFile) : Multiset (FileType × FileState) :=
  (files.map (holds s)).sum

@[simp] lemma held_nil (s : Slot) : held s [] = 0 := rfl

@[simp] lemma held_cons (s : Slot) (f : SiteFile) (files : List SiteFile) :
    held s (f :: files) = holds s f + held s files := by simp [held]

@[simp] lemma held_append (s : Slot) (l l' : List SiteFile) :
    held s (l ++ l') = held s l + held s l' := by simp [held]

lemma held_perm {s : Slot} {l l' : List SiteFile} (h : l.Perm l') : held s l = held s l' :=
  (h.map (holds s)).sum_eq

lemma mem_held {s : Slot} {files : List SiteFile} {p : FileType × FileState} :
    p ∈ held s files ↔
      ∃ f ∈ files, (s.get f).existing = true ∧ f.type = p.1 ∧ s.get f = p.2 := by
  induction files with
  | nil => simp
  | cons f files ih =>
    rw [held_cons, Multiset.mem_add, ih]
    have hf : p ∈ holds s f ↔ (s.get f).existing = true ∧ f.type = p.1 ∧ s.get f = p.2 := by
      unfold holds
      split_ifs with he
      · rw [Multiset.mem_singleton, Prod.ext_iff]
        simp only [he, true_and]
        tauto
      · simp [he]
    rw [hf]
    simp

section Conservation
variable {type : FileType} {state : FileState} {site : Site} {alpha : Slot}

lemma holds_newEntry (hs : state.existing = true) (d : FileDiff) :
    holds alpha (newEntry type state site alpha d) = {(type, state)} := by
  simp [holds, newEntry, hs]

lemma holds_other_newEntry (d : FileDiff) :
    holds alpha.other (newEntry type state site alpha d) = 0 := by
  cases alpha <;> simp [holds, newEntry, fresh, Slot.get, Slot.put, Slot.other]

lemma holds_other_shovedEntry (old : SiteFile) (d : FileDiff) :
    holds alpha.other (shovedEntry old site alpha d) = 0 := by
  cases alpha <;> simp [holds, shovedEntry, fresh, Slot.get, Slot.put, Slot.other]

/-- What the reused entry held on the side being set goes to the shoved entry, if there is one. -/
lemma held_shoved (old : SiteFile) (d : FileDiff) :
    held alpha (if (alpha.get old).existing then [shovedEntry old site alpha d] else []) =
      holds alpha old := by
  unfold holds
  split_ifs with he
  · rw [held_cons, held_nil, add_zero]
    simp [holds, shovedEntry, he]
  · rfl

/-- `file_set` adds exactly its state on its own side, and leaves the other side alone. -/
theorem setSlot_held (wl : WellLinked site) (hs : state.existing = true) :
    held alpha (setSlot alpha type state site).1.files = (type, state) ::ₘ held alpha site.files ∧
      held alpha.other (setSlot alpha type state site).1.files = held alpha.other site.files := by
  cases hp : choosePlacement type state site alpha.other with
  | create =>
    have hfiles : (setSlot alpha type state site).1.files =
        insertFile type (newEntry type state site alpha alpha.defaultDiff) site.files :=
      fileSet_create hp
    rw [hfiles, held_perm (insertFile_perm _ _ _), held_perm (insertFile_perm _ _ _), held_cons,
      held_cons, holds_newEntry hs, holds_other_newEntry]
    exact ⟨by simp, by simp⟩
  | reuse old diff =>
    have hr := choosePlacement_reuse hp
    obtain ⟨pre, post, hf⟩ := List.append_of_mem hr.mem
    have hfiles : (setSlot alpha type state site).1.files =
        reusedFiles state site alpha alpha.defaultDiff pre old diff post :=
      fileSet_reuse wl hf hp
    have hperm := reusedFiles_perm state site alpha alpha.defaultDiff pre old diff post
    have hown : holds alpha (reusedEntry state alpha old diff) = {(type, state)} := by
      simp [holds, reusedEntry, hs, hr.type_eq]
    have hother : holds alpha.other (reusedEntry state alpha old diff) = holds alpha.other old := by
      cases alpha <;> rfl
    have hshoved : held alpha.other (if (alpha.get old).existing then
        [shovedEntry old site alpha alpha.defaultDiff] else []) = 0 := by
      split_ifs
      · rw [held_cons, held_nil, holds_other_shovedEntry, add_zero]
      · rfl
    rw [hfiles, held_perm hperm, held_perm hperm, hf]
    simp only [held_append, held_cons, held_shoved, hown, hother, hshoved,
      ← Multiset.singleton_add]
    constructor
    · ac_rfl
    · rw [zero_add]
      ac_rfl

end Conservation

/-! ### Sequences of calls -/

/-- One call of `file_set_local` or `file_set_stored`, always with an existing state. -/
structure SetCall where
  side : Slot
  type : FileType
  state : FileState
  existing : state.existing = true

def runCalls (calls : List SetCall) (site : Site) : Site :=
  calls.foldl (fun site c => (setSlot c.side c.type c.state site).1) site

@[simp] lemma runCalls_nil (site : Site) : runCalls [] site = site := rfl

@[simp] lemma runCalls_append_singleton (calls : List SetCall) (c : SetCall) (site : Site) :
    runCalls (calls ++ [c]) site = (setSlot c.side c.type c.state (runCalls calls site)).1 := by
  simp [runCalls, List.foldl_append]

lemma runCalls_opts (calls : List SetCall) (site : Site) :
    (runCalls calls site).opts = site.opts := by
  induction calls using List.reverseRecOn with
  | nil => rfl
  | append_singleton calls c ih =>
    rw [runCalls_append_singleton]
    exact fileSet_opts.trans ih

theorem runCalls_exact {site : Site} (h : ExactSite site) (calls : List SetCall) :
    ExactSite (runCalls calls site) := by
  induction calls using List.reverseRecOn with
  | nil => exact h
  | append_singleton calls c ih =>
    rw [runCalls_append_singleton]
    exact setSlot_exact ih c.existing

/-- The states given on one side, with their types. -/
def placed (s : Slot) (calls : List SetCall) : Multiset (FileType × FileState) :=
  ((calls.filter (·.side = s)).map fun c => (c.type, c.state) : List (FileType × FileState))

lemma mem_placed {s : Slot} {calls : List SetCall} {p : FileType × FileState} :
    p ∈ placed s calls ↔ ∃ c ∈ calls, c.side = s ∧ (c.type, c.state) = p := by
  simp [placed, and_assoc]

theorem runCalls_held (s : Slot) {site : Site} (h : ExactSite site) (calls : List SetCall) :
    held s (runCalls calls site).files = placed s calls + held s site.files := by
  induction calls using List.reverseRecOn with
  | nil => simp [placed]
  | append_singleton calls c ih =>
    rw [runCalls_append_singleton]
    have hstep := @setSlot_held c.type c.state _ c.side (runCalls_exact h calls).linked c.existing
    have hplaced : placed s (calls ++ [c]) =
        placed s calls + if c.side = s then {(c.type, c.state)} else 0 := by
      unfold placed
      rw [List.filter_append, List.map_append]
      split_ifs with hc
      · simp [hc, ← Multiset.coe_add]
      · simp [hc]
    rw [hplaced]
    by_cases hc : c.side = s
    · subst hc
      rw [hstep.1, ih, if_pos rfl, ← Multiset.singleton_add]
      ac_rfl
    · have ho : s = c.side.other := (s.eq_or_other c.side).resolve_left (Ne.symm hc)
      rw [if_neg hc, add_zero, ← ih]
      rw [ho]
      exact hstep.2

/-- No state is lost or duplicated by matching: a call adds exactly its own state on its
side, so after any calls each side holds exactly the states it was given. -/
theorem file_set_conserves {o : SiteOptions} {site : Site} (h : Reachable o site)
    (type : FileType) {state : FileState} (hs : state.existing = true) :
    (held .localSlot (fileSetLocal type state site).1.files =
        (type, state) ::ₘ held .localSlot site.files ∧
      held .storedSlot (fileSetLocal type state site).1.files = held .storedSlot site.files) ∧
    (held .storedSlot (fileSetStored type state site).1.files =
        (type, state) ::ₘ held .storedSlot site.files ∧
      held .localSlot (fileSetStored type state site).1.files = held .localSlot site.files) ∧
    ∀ (calls : List SetCall) (s : Slot),
      held s (runCalls calls { opts := o }).files = placed s calls := by
  have wl := h.exactSite.linked
  refine ⟨@setSlot_held _ _ _ .localSlot wl hs, @setSlot_held _ _ _ .storedSlot wl hs, ?_⟩
  intro calls s
  rw [runCalls_held s (ExactSite.empty o) calls, held_nil, add_zero]

theorem file_set_conserves_sample :
    (held .localSlot (fileSetLocal .file { existing := true } sampleSite).1.files =
        (FileType.file, { existing := true }) ::ₘ held .localSlot sampleSite.files ∧
      held .storedSlot (fileSetLocal .file { existing := true } sampleSite).1.files =
        held .storedSlot sampleSite.files) ∧
    (held .storedSlot (fileSetStored .file { existing := true } sampleSite).1.files =
        (FileType.file, { existing := true }) ::ₘ held .storedSlot sampleSite.files ∧
      held .localSlot (fileSetStored .file { existing := true } sampleSite).1.files =
        held .localSlot sampleSite.files) ∧
    ∀ (calls : List SetCall) (s : Slot),
      held s (runCalls calls { opts := {} }).files = placed s calls :=
  file_set_conserves (.setStored _ _ (.setLocal _ _ .empty rfl) rfl) .file rfl

/-! ### Unchanged pairs -/

/-- The type and name under which an entry is found on one side. -/
def key (s : Slot) (f : SiteFile) : Option (FileType × Option Text) :=
  if (s.get f).existing then some (f.type, (s.get f).filename) else none

/-- The name a call sets. -/
def SetCall.name (c : SetCall) : FileType × Option Text := (c.type, c.state.filename)

/-- On each side, at most one state per type and filename. -/
def UniqueNames (calls : List SetCall) : Prop :=
  ∀ s : Slot, ((calls.filter (·.side = s)).map SetCall.name).Nodup

lemma UniqueNames.prefix {calls : List SetCall} {c : SetCall} (h : UniqueNames (calls ++ [c])) :
    UniqueNames calls := by
  intro s
  have hs := h s
  rw [List.filter_append, List.map_append] at hs
  exact (List.nodup_append.mp hs).1

/-- The last call sets a name that its side did not have. -/
lemma UniqueNames.last {calls : List SetCall} {c x : SetCall} (h : UniqueNames (calls ++ [c]))
    (hx : x ∈ calls) (hside : x.side = c.side) : x.name ≠ c.name := by
  intro he
  have hs := h c.side
  rw [List.filter_append, List.map_append, List.filter_singleton] at hs
  refine (List.nodup_append.mp hs).2.2 x.name ?_ c.name (by simp) he
  exact List.mem_map_of_mem (List.mem_filter.mpr ⟨hx, by simpa using hside⟩)

lemma held_names (s : Slot) (files : List SiteFile) :
    (held s files).map (fun p => (p.1, p.2.filename)) = (files.filterMap (key s) : List _) := by
  induction files with
  | nil => rfl
  | cons f files ih =>
    rw [held_cons, Multiset.map_add, ih, List.filterMap_cons]
    unfold holds key
    split_ifs <;> simp

lemma keys_nodup {o : SiteOptions} {calls : List SetCall} (hu : UniqueNames calls) (s : Slot) :
    ((runCalls calls { opts := o }).files.filterMap (key s)).Nodup := by
  have hn := held_names s (runCalls calls { opts := o }).files
  rw [runCalls_held s (ExactSite.empty o) calls, held_nil, add_zero, placed, Multiset.map_coe,
    List.map_map] at hn
  exact (Multiset.coe_eq_coe.mp hn).nodup_iff.mp (hu s)

/-- Two entries with one name on a side whose names are distinct are the same entry. -/
lemma eq_of_key {s : Slot} {files : List SiteFile} (hnd : (files.filterMap (key s)).Nodup)
    {f g : SiteFile} (hf : f ∈ files) (hg : g ∈ files) {k : FileType × Option Text}
    (hkf : key s f = some k) (hkg : key s g = some k) : f = g := by
  obtain ⟨pre, post, rfl⟩ := List.append_of_mem hf
  rw [List.filterMap_append, List.filterMap_cons_some hkf] at hnd
  obtain ⟨_, htail, hdisj⟩ := List.nodup_append.mp hnd
  rw [List.mem_append, List.mem_cons] at hg
  rcases hg with hg | rfl | hg
  · exact absurd rfl (hdisj k (List.mem_filterMap.mpr ⟨g, hg, hkg⟩) k (by simp))
  · rfl
  · exact absurd (List.mem_filterMap.mpr ⟨g, hg, hkg⟩) (List.nodup_cons.mp htail).1

lemma isDirect_key {type : FileType} {state : FileState} {s : Slot} {f : SiteFile}
    (h : isDirect type state s f = true) : key s f = some (type, state.filename) := by
  simp only [isDirect, Bool.and_eq_true, decide_eq_true_eq] at h
  simp [key, h.1.1, h.1.2, h.2]

/-- An unchanged entry stays in the list until a state of its own name arrives. -/
theorem setSlot_keeps_unchanged {type : FileType} {state : FileState} {site : Site} {alpha : Slot}
    (wl : WellLinked site) {f : SiteFile} (hf : f ∈ site.files) (hd : f.diff = .unchanged)
    (hn : f.type = type → (alpha.other.get f).filename ≠ state.filename) :
    f ∈ (setSlot alpha type state site).1.files := by
  cases hp : choosePlacement type state site alpha.other with
  | create =>
    have hfiles : (setSlot alpha type state site).1.files =
        insertFile type (newEntry type state site alpha alpha.defaultDiff) site.files :=
      fileSet_create hp
    rw [hfiles, mem_insertFile]
    exact Or.inr hf
  | reuse old diff =>
    have hr := choosePlacement_reuse hp
    obtain ⟨pre, post, hsplit⟩ := List.append_of_mem hr.mem
    have hfiles : (setSlot alpha type state site).1.files =
        reusedFiles state site alpha alpha.defaultDiff pre old diff post :=
      fileSet_reuse wl hsplit hp
    have hne : f ≠ old := by
      rintro rfl
      exact hn hr.type_eq (hr.named hd)
    rw [hsplit, List.mem_append, List.mem_cons] at hf
    rw [hfiles, (reusedFiles_perm _ _ _ _ _ _ _ _).mem_iff]
    simp only [List.mem_append, List.mem_cons]
    tauto

/-- The entry that a state leaves next to an unchanged counterpart of the same name. -/
theorem setSlot_meets {o : SiteOptions} {calls : List SetCall} (hu : UniqueNames calls)
    {t : SetCall} (ht : t ∈ calls) (alpha : Slot) (hside : t.side = alpha.other)
    {state : FileState} (hname : t.state.filename = state.filename)
    (hcmp : fileCompare t.type state t.state o = .unchanged) :
    ∃ f ∈ (setSlot alpha t.type state (runCalls calls { opts := o })).1.files,
      f.type = t.type ∧ alpha.get f = state ∧ alpha.other.get f = t.state ∧
        f.diff = .unchanged := by
  have hex := runCalls_exact (ExactSite.empty o) calls
  have hheld : (t.type, t.state) ∈ held alpha.other (runCalls calls { opts := o }).files := by
    rw [runCalls_held _ (ExactSite.empty o) calls, held_nil, add_zero]
    exact mem_placed.mpr ⟨t, ht, hside, rfl⟩
  obtain ⟨d, hd, hdex, hdtype, hdstate⟩ := mem_held.mp hheld
  have hdirect : isDirect t.type state alpha.other d = true := by
    simp [isDirect, hdtype, hdstate, hname, t.existing]
  have huniq : ∀ f ∈ (runCalls calls { opts := o }).files,
      isDirect t.type state alpha.other f = true → f = d := fun f hf hfd =>
    eq_of_key (keys_nodup hu alpha.other) hf hd (isDirect_key hfd) (isDirect_key hdirect)
  have hplace := choosePlacement_unchanged hd hdirect huniq (by
    rw [runCalls_opts, hdstate]
    exact hcmp)
  refine ⟨_, setSlot_mem hex.linked, ?_⟩
  have hentry : (setSlot alpha t.type state (runCalls calls { opts := o })).2 =
      reusedEntry state alpha d .unchanged := by
    simp only [setSlot, fileSet, hplace, reusedEntry]
  rw [hentry]
  refine ⟨by simp [reusedEntry, hdtype], by simp [reusedEntry], ?_, by simp [reusedEntry]⟩
  cases alpha <;> exact hdstate

/-- Move detection never breaks an unchanged file: whatever the options and the order of
the calls, two unchanged states of one type and name end in one unchanged entry. -/
theorem unchanged_pair_kept (o : SiteOptions) {calls : List SetCall} (hu : UniqueNames calls)
    {l s : SetCall} (hl : l ∈ calls) (hs : s ∈ calls) (hls : l.side = .localSlot)
    (hss : s.side = .storedSlot) (htype : l.type = s.type)
    (hname : l.state.filename = s.state.filename)
    (hcmp : fileCompare l.type l.state s.state o = .unchanged) :
    ∃ f ∈ (runCalls calls { opts := o }).files,
      f.type = l.type ∧ f.localState = l.state ∧ f.storedState = s.state ∧
        f.diff = .unchanged := by
  induction calls using List.reverseRecOn with
  | nil => simp at hl
  | append_singleton calls c ih =>
    have hex := runCalls_exact (ExactSite.empty o) calls
    rw [runCalls_append_singleton]
    rw [List.mem_append, List.mem_singleton] at hl hs
    rcases hl with hl | rfl
    · rcases hs with hs | rfl
      · -- both were placed before: the new state has another name on its side
        obtain ⟨f, hf, hft, hfl, hfs, hfd⟩ := ih hu.prefix hl hs
        refine ⟨f, setSlot_keeps_unchanged hex.linked hf hfd ?_, hft, hfl, hfs, hfd⟩
        intro hct hcn
        cases hside : c.side with
        | localSlot =>
          refine hu.last hl (hls.trans hside.symm) (Prod.ext (hft.symm.trans hct) ?_)
          rw [hside] at hcn
          change f.storedState.filename = _ at hcn
          rw [hfs, ← hname] at hcn
          exact hcn
        | storedSlot =>
          refine hu.last hs (hss.trans hside.symm)
            (Prod.ext ((htype.symm.trans hft.symm).trans hct) ?_)
          rw [hside] at hcn
          change f.localState.filename = _ at hcn
          rw [hfl, hname] at hcn
          exact hcn
      · -- the stored state arrives at the local one
        have hcmp' : fileCompare l.type s.state l.state o = .unchanged := by
          rw [fileCompare_comm o s.existing l.existing]
          exact hcmp
        obtain ⟨f, hf, hft, hfs, hfl, hfd⟩ :=
          setSlot_meets hu.prefix hl .storedSlot hls hname hcmp'
        rw [hss, ← htype]
        exact ⟨f, hf, hft, hfl, hfs, hfd⟩
    · rcases hs with hs | rfl
      · -- the local state arrives at the stored one
        obtain ⟨f, hf, hft, hfl, hfs, hfd⟩ :=
          setSlot_meets (o := o) hu.prefix hs .localSlot hss hname.symm (htype ▸ hcmp)
        rw [hls, htype]
        exact ⟨f, hf, hft, hfl, hfs, hfd⟩
      · rw [hls] at hss
        cases hss

/-- Two files of one content: one stays, the other is renamed. -/
def renamedCalls : List SetCall :=
  [⟨.storedSlot, .file, { filename := some (ascii "x"), existing := true }, rfl⟩,
   ⟨.localSlot, .file, { filename := some (ascii "y"), existing := true }, rfl⟩,
   ⟨.localSlot, .file, { filename := some (ascii "x"), existing := true }, rfl⟩]

theorem unchanged_pair_kept_renamed :
    ∃ f ∈ (runCalls renamedCalls
        { opts := { checkmoved := true, checkrenames := true, stateMethod := .checksum } }).files,
      f.type = .file ∧ f.localState = { filename := some (ascii "x"), existing := true } ∧
        f.storedState = { filename := some (ascii "x"), existing := true } ∧
        f.diff = .unchanged :=
  @unchanged_pair_kept _ renamedCalls (by intro s; cases s <;> decide)
    (renamedCalls.get ⟨2, by decide⟩) (renamedCalls.get ⟨0, by decide⟩)
    (List.get_mem _ _) (List.get_mem _ _) rfl rfl rfl rfl (by decide)

end Sitecopy.FileMatching
