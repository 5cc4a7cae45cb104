import Sitecopy.FileMatching

/-!
# Reading order

Without move checking an entry is determined by its name: it holds the local and the
stored state of that name, as far as they were set. The final list and its statistics
therefore depend only on the two sets of states, not on the order in which the calls
arrive.
-/
namespace Sitecopy.ReadingOrder
open SiteModel FileSet FileSetSpec SiteStats SiteInvariants FileMatching

/-- What an entry says about its file, without the list node and the server state. -/
structure Entry where
  type : FileType
  localState : FileState
  storedState : FileState
  diff : FileDiff
  ignore : Bool
  deriving DecidableEq

def entry (f : SiteFile) : Entry :=
  ⟨f.type, f.localState, f.storedState, f.diff, f.ignore⟩

/-! ### What an entry holds after a sequence of calls -/

/-- The ignore flag that an entry gets when it is created. -/
def ignoreFlag (o : SiteOptions) (type : FileType) (name : Option Text) : Bool :=
  if type = .file then fileIsignored (name.getD []) o else false

/-- An entry holds on each side the state of its name, if there was a call for it. -/
structure Settled (o : SiteOptions) (calls : List SetCall) (f : SiteFile)
    (name : Option Text) : Prop where
  present : ∃ s : Slot, (s.get f).existing = true
  filled : ∀ s : Slot, (s.get f).existing = true → (s.get f).filename = name
  missing : ∀ s : Slot, (s.get f).existing = false →
    s.get f = {} ∧ ∀ c ∈ calls, c.side = s → c.name ≠ (f.type, name)
  ignore : f.ignore = ignoreFlag o f.type name

section Step
variable {o : SiteOptions} {calls : List SetCall} {c : SetCall} {f : SiteFile}
  {name : Option Text}

/-- A call for another name leaves a settled entry settled. -/
lemma Settled.append (h : Settled o calls f name)
    (hc : (c.side.get f).existing = false → c.name ≠ (f.type, name)) :
    Settled o (calls ++ [c]) f name where
  present := h.present
  filled := h.filled
  missing s hs := by
    obtain ⟨hempty, hcalls⟩ := h.missing s hs
    refine ⟨hempty, fun x hx hside => ?_⟩
    rcases List.mem_append.mp hx with hx | hx
    · exact hcalls x hx hside
    · obtain rfl := List.mem_singleton.mp hx
      subst hside
      exact hc hs
  ignore := h.ignore

/-- If the side being set is empty but the entry has the name of the call, the other
side holds it: the entry is the direct match. -/
lemma Settled.direct (h : Settled o calls f name) (hempty : (c.side.get f).existing = false)
    (hname : c.name = (f.type, name)) : isDirect c.type c.state c.side.other f = true := by
  obtain ⟨s, hs⟩ := h.present
  have hother : s = c.side.other := by
    refine (s.eq_or_other c.side).resolve_left ?_
    rintro rfl
    rw [hempty] at hs
    exact Bool.noConfusion hs
  subst hother
  obtain ⟨htype, hfile⟩ := Prod.ext_iff.mp hname
  have hfilled := h.filled _ hs
  simp only [SetCall.name] at htype hfile
  simp [isDirect, hs, htype, hfilled, hfile]

end Step

section Fill
variable {o : SiteOptions} {calls : List SetCall}

/-- Every state held by an entry came with a call. -/
lemma call_of_entry {s : Slot} {f : SiteFile} (hf : f ∈ (runCalls calls { opts := o }).files)
    (hs : (s.get f).existing = true) :
    ∃ c ∈ calls, c.side = s ∧ c.type = f.type ∧ c.state = s.get f := by
  have hheld : (f.type, s.get f) ∈ held s (runCalls calls { opts := o }).files :=
    mem_held.mpr ⟨f, hf, hs, rfl, rfl⟩
  rw [runCalls_held s (ExactSite.empty o) calls, held_nil, add_zero, mem_placed] at hheld
  obtain ⟨c, hc, hside, hstate⟩ := hheld
  exact ⟨c, hc, hside, congrArg Prod.fst hstate, congrArg Prod.snd hstate⟩

/-- Every call left an entry that holds its state. -/
lemma entry_of_call {c : SetCall} (hc : c ∈ calls) :
    ∃ f ∈ (runCalls calls { opts := o }).files,
      (c.side.get f).existing = true ∧ f.type = c.type ∧ c.side.get f = c.state := by
  have hplaced : (c.type, c.state) ∈ held c.side (runCalls calls { opts := o }).files := by
    rw [runCalls_held c.side (ExactSite.empty o) calls, held_nil, add_zero, mem_placed]
    exact ⟨c, hc, rfl, rfl⟩
  exact mem_held.mp hplaced

lemma not_moved {site : Site} (h : ExactSite site) (hoff : site.opts.checkmoved = false) :
    ∀ f ∈ site.files, f.diff ≠ .moved := by
  intro f hf hd
  have hcmp := h.exact.compared f hf
  unfold Compared at hcmp
  rw [hd] at hcmp
  have hon := (fileCompare_moved hcmp.symm).2.1
  rw [hoff] at hon
  exact Bool.noConfusion hon

lemma other_newEntry (c : SetCall) (site : Site) :
    c.side.other.get (newEntry c.type c.state site c.side c.side.defaultDiff) = {} := by
  cases c.side <;> rfl

/-- The entry a call creates when no entry waits for it. -/
lemma settled_created {c : SetCall}
    (hnone : ∀ f ∈ (runCalls calls { opts := o }).files,
      isDirect c.type c.state c.side.other f = false) :
    Settled o (calls ++ [c])
      (newEntry c.type c.state (runCalls calls { opts := o }) c.side c.side.defaultDiff)
      c.state.filename where
  present := ⟨c.side, by simp [newEntry, c.existing]⟩
  filled s hs := by
    rcases s.eq_or_other c.side with rfl | rfl
    · simp [newEntry]
    · rw [other_newEntry] at hs
      exact Bool.noConfusion hs
  missing s hs := by
    have hother : s = c.side.other := by
      refine (s.eq_or_other c.side).resolve_left ?_
      rintro rfl
      simp [newEntry, c.existing] at hs
    subst hother
    refine ⟨other_newEntry c _, fun x hx hside hname => ?_⟩
    rcases List.mem_append.mp hx with hx | hx
    · -- the earlier call left an entry, which would have been the direct match
      obtain ⟨d, hd, _, htype, hstate⟩ := entry_of_call (o := o) hx
      rw [hside] at hstate
      obtain ⟨hxt, hxn⟩ := Prod.ext_iff.mp hname
      simp only [SetCall.name, newEntry, Slot.put_type] at hxt hxn
      have hdirect : isDirect c.type c.state c.side.other d = true := by
        simp [isDirect, htype, hstate, hxt, hxn, x.existing]
      rw [hnone d hd] at hdirect
      exact Bool.noConfusion hdirect
    · obtain rfl := List.mem_singleton.mp hx
      exact x.side.other_ne hside.symm
  ignore := by simp [newEntry, ignoreFlag, runCalls_opts]

/-- The entry that waited for a call, after the call. -/
lemma settled_reused {c : SetCall} {d : SiteFile} {name : Option Text} (diff : FileDiff)
    (h : Settled o calls d name) (hdirect : isDirect c.type c.state c.side.other d = true) :
    Settled o (calls ++ [c]) (reusedEntry c.state c.side d diff) name := by
  simp only [isDirect, Bool.and_eq_true, decide_eq_true_eq] at hdirect
  obtain ⟨⟨hex, _⟩, hname⟩ := hdirect
  have hn := h.filled _ hex
  have hown : c.side.get (reusedEntry c.state c.side d diff) = c.state := by simp [reusedEntry]
  have hother : c.side.other.get (reusedEntry c.state c.side d diff) = c.side.other.get d := by
    cases c.side <;> rfl
  have hex' : ∀ s : Slot, (s.get (reusedEntry c.state c.side d diff)).existing = true := by
    intro s
    rcases s.eq_or_other c.side with rfl | rfl
    · rw [hown]
      exact c.existing
    · rw [hother]
      exact hex
  refine ⟨⟨c.side, hex' _⟩, fun s _ => ?_, fun s hs => ?_, ?_⟩
  · rcases s.eq_or_other c.side with rfl | rfl
    · rw [hown, ← hname, hn]
    · rw [hother, hn]
  · rw [hex' s] at hs
    exact Bool.noConfusion hs
  · have hi := h.ignore
    simpa [reusedEntry] using hi

/-- Every entry is settled after any sequence of calls. -/
theorem runCalls_settled (hoff : o.checkmoved = false) (hu : UniqueNames calls) :
    ∀ f ∈ (runCalls calls { opts := o }).files, ∃ name, Settled o calls f name := by
  induction calls using List.reverseRecOn with
  | nil => simp
  | append_singleton calls c ih =>
    have hset := ih hu.prefix
    have hex := runCalls_exact (ExactSite.empty o) calls
    have hkeys := keys_nodup (o := o) hu.prefix c.side.other
    have hoff' : (runCalls calls { opts := o }).opts.checkmoved = false := by
      rw [runCalls_opts]
      exact hoff
    rw [runCalls_append_singleton]
    rcases @choosePlacement_plain c.type c.state _ c.side.other hoff'
      (not_moved hex hoff') with ⟨hp, hnone⟩ | ⟨d, hd, hdirect, hp⟩
    · have hfiles : (setSlot c.side c.type c.state (runCalls calls { opts := o })).1.files =
          insertFile c.type (newEntry c.type c.state (runCalls calls { opts := o }) c.side
            c.side.defaultDiff) (runCalls calls { opts := o }).files := fileSet_create hp
      intro f hf
      rw [hfiles, mem_insertFile] at hf
      rcases hf with rfl | hf
      · exact ⟨_, settled_created hnone⟩
      · obtain ⟨name, hname⟩ := hset f hf
        refine ⟨name, hname.append fun he hcn => ?_⟩
        have hdirect := hname.direct he hcn
        rw [hnone f hf] at hdirect
        exact Bool.noConfusion hdirect
    · obtain ⟨name, hname⟩ := hset d hd
      have hempty : (c.side.get d).existing = false := by
        -- a state there would have this call's name, on this call's side
        by_contra hfull
        rw [Bool.not_eq_false] at hfull
        obtain ⟨x, hx, hside, hxt, hxs⟩ := call_of_entry hd hfull
        refine hu.last hx hside ?_
        have hdk := hdirect
        simp only [isDirect, Bool.and_eq_true, decide_eq_true_eq] at hdk
        refine Prod.ext (hxt.trans hdk.1.2) ?_
        have hfn : (c.side.get d).filename = (c.side.other.get d).filename :=
          (hname.filled _ hfull).trans (hname.filled _ hdk.1.1).symm
        calc x.state.filename = (c.side.get d).filename := by rw [← hxs]
          _ = (c.side.other.get d).filename := hfn
          _ = c.state.filename := hdk.2
      obtain ⟨pre, post, hsplit⟩ := List.append_of_mem hd
      have hfiles : (setSlot c.side c.type c.state (runCalls calls { opts := o })).1.files =
          reusedFiles c.state (runCalls calls { opts := o }) c.side c.side.defaultDiff pre d _
            post := fileSet_reuse hex.linked hsplit hp
      intro f hf
      rw [hfiles] at hf
      simp only [reusedFiles, hempty, Bool.false_eq_true, ↓reduceIte, List.mem_append,
        List.mem_cons] at hf
      have hold : f ∈ pre ∨ f ∈ post → ∃ name, Settled o (calls ++ [c]) f name := by
        intro hm
        have hmem : f ∈ (runCalls calls { opts := o }).files := by
          rw [hsplit, List.mem_append, List.mem_cons]
          tauto
        obtain ⟨fname, hfname⟩ := hset f hmem
        refine ⟨fname, hfname.append fun he hcn => ?_⟩
        -- the direct match is the only entry of this name on the other side
        have hfd : f = d := eq_of_key hkeys hmem hd (isDirect_key (hfname.direct he hcn))
          (isDirect_key hdirect)
        have hnd := hex.linked.files_nodup
        rw [hsplit] at hnd
        obtain ⟨_, htail, hdisj⟩ := List.nodup_append.mp hnd
        rcases hm with hm | hm
        · exact hdisj f hm d (by simp) hfd
        · exact (List.nodup_cons.mp htail).1 (hfd ▸ hm)
      rcases hf with hf | rfl | hf
      · exact hold (Or.inl hf)
      · exact ⟨name, settled_reused _ hname hdirect⟩
      · exact hold (Or.inr hf)

end Fill

/-! ### Two orders of the same calls -/

section Orders
variable {o : SiteOptions} {calls calls' : List SetCall}

lemma uniqueNames_perm (hu : UniqueNames calls) (hp : calls.Perm calls') :
    UniqueNames calls' := fun s => (((hp.filter _).map _).nodup_iff).mp (hu s)

/-- On one side a name stands for one state. -/
lemma call_unique (hu : UniqueNames calls) {x y : SetCall} (hx : x ∈ calls)
    (hy : y ∈ calls) (hside : x.side = y.side) (hname : x.name = y.name) : x = y := by
  have hinj := List.inj_on_of_nodup_map (hu y.side)
  refine hinj ?_ ?_ hname
  · exact List.mem_filter.mpr ⟨hx, by simpa using hside⟩
  · exact List.mem_filter.mpr ⟨hy, by simp⟩

/-- An entry of one order and an entry of the other, of one type and name, agree on a side. -/
lemma side_eq (hu : UniqueNames calls) {f g : SiteFile} {name : Option Text}
    (hf : Settled o calls f name) (hg : Settled o calls g name) (htype : g.type = f.type)
    (hfm : ∀ s : Slot, (s.get f).existing = true →
      ∃ c ∈ calls, c.side = s ∧ c.type = f.type ∧ c.state = s.get f)
    (hgm : ∀ s : Slot, (s.get g).existing = true →
      ∃ c ∈ calls, c.side = s ∧ c.type = g.type ∧ c.state = s.get g) (s : Slot) :
    s.get g = s.get f := by
  -- the call that filled a side names the entry
  have hname : ∀ {h : SiteFile} {c : SetCall}, Settled o calls h name →
      (s.get h).existing = true → c.type = h.type → c.state = s.get h →
        c.name = (h.type, name) := by
    intro h c hh hex ht hstate
    refine Prod.ext ht ?_
    simp only [SetCall.name]
    rw [hstate]
    exact hh.filled s hex
  cases hfe : (s.get f).existing with
  | true =>
    obtain ⟨x, hx, hxs, hxt, hxstate⟩ := hfm s hfe
    have hxn := hname hf hfe hxt hxstate
    cases hge : (s.get g).existing with
    | true =>
      obtain ⟨y, hy, hys, hyt, hystate⟩ := hgm s hge
      have hyn := hname hg hge hyt hystate
      have hxy := call_unique hu hx hy (hxs.trans hys.symm) (by rw [hxn, hyn, htype])
      calc s.get g = y.state := hystate.symm
        _ = x.state := by rw [hxy]
        _ = s.get f := hxstate
    | false => exact absurd (by rw [hxn, htype]) ((hg.missing s hge).2 x hx hxs)
  | false =>
    cases hge : (s.get g).existing with
    | true =>
      obtain ⟨y, hy, hys, hyt, hystate⟩ := hgm s hge
      have hyn := hname hg hge hyt hystate
      exact absurd (by rw [hyn, htype]) ((hf.missing s hfe).2 y hy hys)
    | false => rw [(hf.missing s hfe).1, (hg.missing s hge).1]

/-- Every entry that one order leaves is left by the other order. -/
lemma entry_mem (hoff : o.checkmoved = false) (hu : UniqueNames calls)
    (hp : calls.Perm calls') {f : SiteFile} (hf : f ∈ (runCalls calls { opts := o }).files) :
    ∃ g ∈ (runCalls calls' { opts := o }).files, entry g = entry f := by
  obtain ⟨name, hset⟩ := runCalls_settled hoff hu f hf
  obtain ⟨s, hs⟩ := hset.present
  obtain ⟨c, hc, hside, hct, hcs⟩ := call_of_entry hf hs
  obtain ⟨g, hg, hgs, hgt, hgstate⟩ := entry_of_call (o := o) (hp.mem_iff.mp hc)
  rw [hside] at hgs hgstate
  rw [hcs] at hgstate
  have htype : g.type = f.type := hgt.trans hct
  obtain ⟨gname, hgset⟩ := runCalls_settled hoff (uniqueNames_perm hu hp) g hg
  have hnames : gname = name := by
    rw [← hgset.filled s hgs, hgstate, hset.filled s hs]
  subst hnames
  have hback : Settled o calls g gname :=
    ⟨hgset.present, hgset.filled,
      fun t ht => ⟨(hgset.missing t ht).1, fun x hx => (hgset.missing t ht).2 x (hp.mem_iff.mp hx)⟩,
      hgset.ignore⟩
  have hsides := side_eq hu hset hback htype
    (fun t ht => call_of_entry hf ht)
    (fun t ht => by
      obtain ⟨x, hx, hxs⟩ := call_of_entry hg ht
      exact ⟨x, hp.mem_iff.mpr hx, hxs⟩)
  have hlocal : g.localState = f.localState := hsides .localSlot
  have hstored : g.storedState = f.storedState := hsides .storedSlot
  have hfd := (runCalls_exact (ExactSite.empty o) calls).exact.compared f hf
  have hgd := (runCalls_exact (ExactSite.empty o) calls').exact.compared g hg
  unfold Compared at hfd hgd
  rw [runCalls_opts] at hfd hgd
  refine ⟨g, hg, ?_⟩
  unfold entry
  rw [hfd, hgd, hset.ignore, hgset.ignore, htype, hlocal, hstored]

/-- No two entries look the same: some side of them is filled, under one name. -/
lemma entries_nodup (hoff : o.checkmoved = false) (hu : UniqueNames calls) :
    ((runCalls calls { opts := o }).files.map entry).Nodup := by
  refine List.Nodup.map_on ?_
    (runCalls_exact (ExactSite.empty o) calls).linked.files_nodup
  intro f hf g hg he
  obtain ⟨name, hset⟩ := runCalls_settled hoff hu f hf
  obtain ⟨s, hs⟩ := hset.present
  simp only [entry, Entry.mk.injEq] at he
  have hsg : s.get g = s.get f := by
    cases s with
    | localSlot => exact he.2.1.symm
    | storedSlot => exact he.2.2.1.symm
  have hkey : key s g = key s f := by simp only [key, hsg, he.1]
  exact eq_of_key (keys_nodup hu s) hf hg (k := (f.type, (s.get f).filename))
    (by simp [key, hs]) (by rw [hkey]; simp [key, hs])

theorem entries_perm (hoff : o.checkmoved = false) (hu : UniqueNames calls)
    (hp : calls.Perm calls') :
    ((runCalls calls { opts := o }).files.map entry).Perm
      ((runCalls calls' { opts := o }).files.map entry) := by
  rw [List.perm_ext_iff_of_nodup (entries_nodup hoff hu) (entries_nodup hoff (uniqueNames_perm hu hp))]
  intro e
  simp only [List.mem_map]
  constructor
  · rintro ⟨f, hf, rfl⟩
    exact entry_mem hoff hu hp hf
  · rintro ⟨f, hf, rfl⟩
    exact entry_mem hoff (uniqueNames_perm hu hp) hp.symm hf

end Orders

/-! ### Statistics -/

/-- The weight of an entry only depends on what the entry says. -/
def entryWeight (c : Counter) (e : Entry) : ℤ :=
  weight c
    { addr := 0, type := e.type, localState := e.localState, storedState := e.storedState,
      diff := e.diff, ignore := e.ignore }

lemma weight_entry (c : Counter) (f : SiteFile) : weight c f = entryWeight c (entry f) := by
  cases c <;> rfl

/-- The flags are functions of the counters. -/
lemma stats_ext {o : SiteOptions} {st st' : Stats} (hcounters : ∀ c : Counter, c.get st = c.get st')
    (hf : siteStatsUpdate o st = st) (hf' : siteStatsUpdate o st' = st') : st = st' := by
  have h1 := hcounters .numnew
  have h2 := hcounters .numchanged
  have h3 := hcounters .numignored
  have h4 := hcounters .numdeleted
  have h5 := hcounters .nummoved
  have h6 := hcounters .numunchanged
  have h7 := hcounters .totalnew
  have h8 := hcounters .totalchanged
  simp only [Counter.get] at h1 h2 h3 h4 h5 h6 h7 h8
  rw [← hf, ← hf']
  simp only [siteStatsUpdate, h1, h2, h3, h4, h5, h6, h7, h8]

lemma stats_of_entries {o : SiteOptions} {l l' : List SiteFile} {st st' : Stats}
    (h : Exact o l st) (h' : Exact o l' st') (hp : (l.map entry).Perm (l'.map entry)) :
    st = st' := by
  refine stats_ext (fun c => ?_) h.flags h'.flags
  have hsum : ∀ files : List SiteFile,
      files.map (weight c) = (files.map entry).map (entryWeight c) := by
    intro files
    rw [List.map_map]
    exact List.map_congr_left fun f _ => weight_entry c f
  rw [h.counted c, h'.counted c, hsum, hsum]
  exact (hp.map (entryWeight c)).sum_eq

/-- Without move checking the order of the calls does not matter: any two orders of the
same local and stored states end in the same entries, counters, totals and flags. -/
theorem reading_order {o : SiteOptions} (hoff : o.checkmoved = false)
    {calls calls' : List SetCall} (hu : UniqueNames calls) (hp : calls.Perm calls') :
    (((runCalls calls { opts := o }).files.map entry : List Entry) : Multiset Entry) =
        ((runCalls calls' { opts := o }).files.map entry : List Entry) ∧
      (runCalls calls { opts := o }).stats = (runCalls calls' { opts := o }).stats := by
  have hentries := entries_perm hoff hu hp
  refine ⟨Multiset.coe_eq_coe.mpr hentries, ?_⟩
  have h := (runCalls_exact (ExactSite.empty o) calls).exact
  have h' := (runCalls_exact (ExactSite.empty o) calls').exact
  rw [runCalls_opts] at h h'
  exact stats_of_entries h h' hentries

/-- The files of `renamedCalls` read stored first or local first. -/
theorem reading_order_renamed :
    (((runCalls renamedCalls { opts := {} }).files.map entry : List Entry) : Multiset Entry) =
        ((runCalls renamedCalls.reverse { opts := {} }).files.map entry : List Entry) ∧
      (runCalls renamedCalls { opts := {} }).stats =
        (runCalls renamedCalls.reverse { opts := {} }).stats :=
  reading_order rfl (by intro s; cases s <;> decide) (List.reverse_perm _).symm

end Sitecopy.ReadingOrder
