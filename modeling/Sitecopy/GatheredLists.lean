import Sitecopy.ConsoleRuns
import Sitecopy.UpdateMirror

/-!
# Lists gathered from a scan and a state file

Without move checking, the states that a scan and a state file give for one type and name end
up in one entry. So a list shows what was set on either side, and no entry is in the way of
another.
-/
namespace Sitecopy.GatheredLists
open SiteModel FileSet FileSetSpec SiteStats FileMatching StateFile ReachedFiles HiddenPaths
open DirectoryLists DirectoryOrder UpdateMirror

/-! ### One state after the other -/

/-- A list of matched states of files that are not ignored. -/
structure Gathered (o : SiteOptions) (site : Site) : Prop where
  paired : PairedSite o site
  reached : ReachedSite site
  names : ∀ f ∈ site.files, ∀ s : Slot, CNamed (s.get f)
  matched : Matched site.files
  watched : ∀ f ∈ site.files, f.ignore = false

/-- No file is ignored, and none is looked for under another name. -/
structure Watched (o : SiteOptions) : Prop where
  checkmoved : o.checkmoved = false
  ignored : ∀ n, fileIsignored n o = false

section Step
variable {o : SiteOptions} {site : Site} {alpha s : Slot} {type : FileType} {state : FileState}
  {n : Text} {e f : SiteFile} {rest files' : List SiteFile}

lemma Gathered.empty (o : SiteOptions) : Gathered o { opts := o } where
  paired := ⟨⟨by simp, by simp⟩, rfl, by simp⟩
  reached := ⟨ExactSite.counted (.empty o), by simp⟩
  names := by simp
  matched := by simp [Matched]
  watched := by simp

/-- One entry more, whose names are free. -/
lemma matched_insert (h : Matched rest) (hmem : ∀ f ∈ files', f = e ∨ f ∈ rest)
    (hfree : ∀ f ∈ rest, f.type = e.type → ∀ s s' n, sideName s e = some n →
      sideName s' f ≠ some n) : Matched files' := by
  intro f hf g hg s s' n ht hn hn'
  rcases hmem f hf with rfl | hf
  · rcases hmem g hg with rfl | hg
    · rfl
    · exact absurd hn' (hfree g hg ht.symm s s' n hn)
  · rcases hmem g hg with rfl | hg
    · exact absurd hn (hfree f hf ht s' s n hn')
    · exact h f hf g hg s s' n ht hn hn'

lemma sideName_eq (hex : (s.get f).existing = true) (hn : (s.get f).filename = some n) :
    sideName s f = some n := by
  rw [sideName, if_pos hex, hn]

lemma isDirect_iff (hn : state.filename = some n) :
    isDirect type state s f = true ↔ f.type = type ∧ sideName s f = some n := by
  unfold isDirect sideName
  rw [hn]
  by_cases hex : (s.get f).existing = true
  · simp [hex]
  · simp [hex]

lemma not_moved (h : PairedSite o site) (hoff : o.checkmoved = false) :
    ∀ f ∈ site.files, f.diff ≠ .moved := by
  intro f hf hd
  have hon := (fileCompare_moved ((h.paired f hf).compared.symm.trans hd)).2.1
  rw [hoff] at hon
  cases hon

/-- Both names of an entry are the same. -/
lemma Gathered.one_name (h : Gathered o site) (hoff : o.checkmoved = false) (hf : f ∈ site.files)
    (hside : sideName s.other f = some n) (hex : (s.get f).existing = true) :
    sideName s f = some n := by
  obtain ⟨hother, -⟩ := side_some hside
  unfold sideName at hside ⊢
  rw [if_pos hother] at hside
  rw [if_pos hex, ← hside]
  have hsame : f.localState.existing = true → f.storedState.existing = true →
      f.localState.filename = f.storedState.filename := by
    intro hl hs
    rcases (h.paired.paired f hf).named hl hs with hsame | ⟨hmoved, -⟩
    · exact hsame
    · rw [hoff] at hmoved
      cases hmoved
  cases s with
  | localSlot => exact hsame hex hother
  | storedSlot => exact (hsame hother hex).symm

/-- One entry is new or has changed. It has the name `n` and no other one, and it alone has it
on the side that was not set. -/
def Joined (alpha : Slot) (type : FileType) (n : Text) (files files' : List SiteFile) : Prop :=
  ∃ (e : SiteFile) (rest : List SiteFile), (∀ f ∈ files', f = e ∨ f ∈ rest) ∧
    (∀ f ∈ rest, f ∈ files) ∧ e.ignore = false ∧ e.type = type ∧
    (∀ s m, sideName s e = some m → m = n) ∧
      ∀ f ∈ rest, f.type = type → sideName alpha.other f ≠ some n

lemma joined_new (h : Gathered o site) (hw : Watched o) (hn : state.filename = some n)
    (hex : state.existing = true)
    (hp : choosePlacement type state site alpha.other = .create)
    (hnone : ∀ f ∈ site.files, isDirect type state alpha.other f = false) :
    Joined alpha type n site.files (FileSet.setSlot alpha type state site).1.files := by
  have hfiles : (FileSet.setSlot alpha type state site).1.files =
      insertFile type (newEntry type state site alpha alpha.defaultDiff) site.files :=
    fileSet_create hp
  refine ⟨newEntry type state site alpha alpha.defaultDiff, site.files, fun f hf => ?_,
    fun _ hf => hf, ?_, ?_, fun s m hm => ?_, fun f hf ht hm => ?_⟩
  · rwa [hfiles, mem_insertFile] at hf
  · simp only [newEntry, Slot.put_ignore]
    split_ifs
    · rw [h.paired.opts]
      exact hw.ignored _
    · rfl
  · simp [newEntry]
  · rcases s.eq_or_other alpha with rfl | rfl
    · unfold sideName at hm
      rw [newEntry, Slot.get_put, if_pos hex, hn] at hm
      exact (Option.some.inj hm).symm
    · unfold sideName at hm
      rw [newEntry, Slot.other_get_put] at hm
      cases alpha <;> cases hm
  · have hyes := (isDirect_iff hn).mpr ⟨ht, hm⟩
    rw [hnone f hf] at hyes
    cases hyes

lemma joined_reused {d : SiteFile} {diff : FileDiff} (h : Gathered o site)
    (hn : state.filename = some n) (hex : state.existing = true) (hd : d ∈ site.files)
    (ht : d.type = type) (hside : sideName alpha.other d = some n)
    (hempty : (alpha.get d).existing = false)
    (hp : choosePlacement type state site alpha.other = .reuse d diff) :
    Joined alpha type n site.files (FileSet.setSlot alpha type state site).1.files := by
  obtain ⟨pre, post, hsplit⟩ := List.append_of_mem hd
  have hfiles : (FileSet.setSlot alpha type state site).1.files =
      reusedFiles state site alpha alpha.defaultDiff pre d diff post :=
    fileSet_reuse h.paired.linked hsplit hp
  have hrest : ∀ f ∈ pre ++ post, f ∈ site.files := by
    intro f hf
    rw [hsplit]
    simp only [List.mem_append, List.mem_cons] at hf ⊢
    tauto
  refine ⟨reusedEntry state alpha d diff, pre ++ post, fun f hf => ?_, hrest, ?_, ?_,
    fun s m hm => ?_, fun f hf htf hm => ?_⟩
  · rw [hfiles, reusedFiles, if_neg (by simp [hempty])] at hf
    simp only [List.mem_append, List.mem_cons] at hf ⊢
    tauto
  · simp only [reusedEntry, Slot.put_ignore]
    exact h.watched d hd
  · simp only [reusedEntry, Slot.put_type]
    exact ht
  · rcases s.eq_or_other alpha with rfl | rfl
    · unfold sideName at hm
      rw [reusedEntry, Slot.get_put, if_pos hex, hn] at hm
      exact (Option.some.inj hm).symm
    · have hold : sideName alpha.other (reusedEntry state alpha d diff) =
          sideName alpha.other d := by
        unfold sideName
        rw [reusedEntry, Slot.other_get_put]
        cases alpha <;> rfl
      rw [hold, hside] at hm
      exact (Option.some.inj hm).symm
  · -- the entry of this name is the one that was reused
    obtain rfl := h.matched f (hrest f hf) d hd _ _ _ (htf.trans ht.symm) hm hside
    have hnd := h.paired.linked.files_nodup
    rw [hsplit] at hnd
    obtain ⟨-, htail, hdisj⟩ := List.nodup_append.mp hnd
    rcases List.mem_append.mp hf with hf | hf
    · exact hdisj f hf f (by simp) rfl
    · exact (List.nodup_cons.mp htail).1 hf

/-- A state whose name is free on its side joins the entry of its name, or gets one. -/
theorem Gathered.setSlot (h : Gathered o site) (hw : Watched o) (hn : state.filename = some n)
    (hex : state.existing = true) (hnul : 0 ∉ n)
    (hfree : ∀ f ∈ site.files, f.type = type → sideName alpha f ≠ some n) :
    Gathered o (FileSet.setSlot alpha type state site).1 := by
  have hoff : site.opts.checkmoved = false := by
    rw [h.paired.opts]
    exact hw.checkmoved
  have hjoined : Joined alpha type n site.files
      (FileSet.setSlot alpha type state site).1.files := by
    rcases @choosePlacement_plain type state site alpha.other hoff
      (not_moved h.paired hw.checkmoved) with ⟨hp, hnone⟩ | ⟨d, hd, hdirect, hp⟩
    · exact joined_new h hw hn hex hp hnone
    · obtain ⟨ht, hside⟩ := (isDirect_iff hn).mp hdirect
      apply joined_reused h hn hex hd ht hside _ hp
      by_contra hfull
      rw [Bool.not_eq_false] at hfull
      exact hfree d hd ht (h.one_name hw.checkmoved hd hside hfull)
  obtain ⟨e, rest, hmem, hrest, hignore, htype, hname, hother⟩ := hjoined
  refine ⟨h.paired.setSlot alpha type hex, h.reached.setSlot alpha hex,
    setSlot_cnamed h.paired.linked h.names fun _ => ⟨n, hn, hnul⟩, ?_, fun f hf => ?_⟩
  · apply matched_insert _ hmem
    · intro f hf ht s s' m hm hm'
      rw [hname s m hm] at hm'
      rw [htype] at ht
      rcases s'.eq_or_other alpha with hs | hs
      · rw [hs] at hm'
        exact hfree f (hrest f hf) ht hm'
      · rw [hs] at hm'
        exact hother f hf ht hm'
    · exact fun f hf g hg => h.matched f (hrest f hf) g (hrest g hg)
  · rcases hmem f hf with rfl | hf
    · exact hignore
    · exact h.watched f (hrest f hf)

end Step

/-! ### Server states -/

section Server
variable {o : SiteOptions} {site : Site} {f : SiteFile}

lemma reachedSite_server (h : ReachedSite site) (hf : f ∈ site.files) (server : FileState) :
    ReachedSite (write { f with serverState := server } site) := by
  obtain ⟨pre, post, hfiles⟩ := List.append_of_mem hf
  have hnew : (write { f with serverState := server } site).files =
      pre ++ { f with serverState := server } :: post :=
    write_files h.counted.linked.nodup hfiles rfl
  have hlist := h.list
  have hentry := h.entries f hf
  have hbalanced : Tallied site.opts f site.stats (some { f with serverState := server })
      site.stats := by
    apply Tallied.of_balanced
    refine ⟨fun g hg => ?_, fun c => ?_, hlist.counted.flags⟩
    · obtain rfl := Option.some.inj hg
      exact ⟨rfl, rfl, rfl, rfl, hentry.compared⟩
    · cases c <;> simp [weight]
  rw [hfiles] at hlist
  have hreplaced := hlist.replace ⟨hbalanced, fun g hg => by
    obtain rfl := Option.some.inj hg
    exact hentry.server server⟩
  rw [← hfiles] at hreplaced
  have hsite : write { f with serverState := server } site = { site with
      files := pre ++ (some { f with serverState := server }).toList ++ post
      stats := site.stats } := by
    rw [Option.toList_some, List.append_assoc, List.singleton_append, ← hnew]
    rfl
  rw [hsite]
  exact h.update hreplaced

lemma Gathered.server (h : Gathered o site) (hf : f ∈ site.files) (server : FileState) :
    Gathered o (write { f with serverState := server } site) := by
  -- each entry is still the one it was, but for its server state
  have hmem : ∀ g ∈ (write { f with serverState := server } site).files,
      ∃ x ∈ site.files, g.type = x.type ∧ g.localState = x.localState ∧
        g.storedState = x.storedState ∧ g.diff = x.diff ∧ g.ignore = x.ignore ∧
        g.addr = x.addr := by
    intro g hg
    obtain ⟨x, hx, rfl⟩ := List.mem_map.mp hg
    split_ifs with haddr
    · exact ⟨f, hf, rfl, rfl, rfl, rfl, rfl, rfl⟩
    · exact ⟨x, hx, rfl, rfl, rfl, rfl, rfl, rfl⟩
  have hreached := reachedSite_server h.reached hf server
  have hget : ∀ {g x : SiteFile}, g.localState = x.localState → g.storedState = x.storedState →
      ∀ s : Slot, s.get g = s.get x := by
    intro g x hl hs s
    cases s with
    | localSlot => exact hl
    | storedSlot => exact hs
  refine ⟨⟨hreached.counted.linked, h.paired.opts, fun g hg => ?_⟩, hreached, fun g hg s => ?_,
    fun g hg g' hg' s s' n ht hn hn' => ?_, fun g hg => ?_⟩
  · obtain ⟨x, hx, ht, hl, hs, hd, -⟩ := hmem g hg
    obtain ⟨hcompared, hpresent, hnamed⟩ := h.paired.paired x hx
    refine ⟨?_, ?_, ?_⟩
    · unfold Compared at hcompared ⊢
      rw [hd, ht, hl, hs]
      exact hcompared
    · rw [hl, hs]
      exact hpresent
    · rw [hl, hs, ht]
      exact hnamed
  · obtain ⟨x, hx, -, hl, hs, -⟩ := hmem g hg
    rw [hget hl hs]
    exact h.names x hx s
  · obtain ⟨x, hx, htx, hl, hs, -, -, ha⟩ := hmem g hg
    obtain ⟨x', hx', htx', hl', hs', -, -, ha'⟩ := hmem g' hg'
    unfold sideName at hn hn'
    rw [hget hl hs] at hn
    rw [hget hl' hs'] at hn'
    rw [htx, htx'] at ht
    obtain rfl := h.matched x hx x' hx' s s' n ht hn hn'
    exact List.inj_on_of_nodup_map hreached.counted.linked.nodup hg hg' (ha.trans ha'.symm)
  · obtain ⟨x, hx, -, -, -, -, hi, -⟩ := hmem g hg
    rw [hi]
    exact h.watched x hx

end Server

/-! ### What the sides show -/

section Sides
variable {o : SiteOptions} {site : Site} {s : Slot} {files : List SiteFile} {type : FileType}
  {n : Text}

lemma side_iff_held : (∃ f ∈ files, f.type = type ∧ sideName s f = some n) ↔
    ∃ state : FileState, (type, state) ∈ held s files ∧ state.filename = some n := by
  constructor
  · rintro ⟨f, hf, rfl, hn⟩
    refine ⟨s.get f, mem_held.mpr ⟨f, hf, (side_some hn).1, rfl, rfl⟩, ?_⟩
    unfold sideName at hn
    rwa [if_pos (side_some hn).1] at hn
  · rintro ⟨state, hmem, hn⟩
    obtain ⟨f, hf, hex, ht, hstate⟩ := mem_held.mp hmem
    refine ⟨f, hf, ht, sideName_eq hex ?_⟩
    rw [hstate]
    exact hn

end Sides

/-! ### Many states on one side -/

/-- The state exists and has a name that is a C string. -/
def Settable (c : FileType × FileState) : Prop :=
  c.2.existing = true ∧ ∃ n, c.2.filename = some n ∧ 0 ∉ n

/-- The side has no state of this type and name. -/
def Free (alpha : Slot) (c : FileType × FileState) (site : Site) : Prop :=
  ∀ p ∈ held alpha site.files, p.1 = c.1 → p.2.filename ≠ c.2.filename

/-- A step that gives one side of a list one state more. -/
structure Adds (o : SiteOptions) (alpha : Slot) (c : FileType × FileState) (site site' : Site) :
    Prop where
  gathered : Gathered o site'
  own : held alpha site'.files = c ::ₘ held alpha site.files
  other : held alpha.other site'.files = held alpha.other site.files

section Many
variable {o : SiteOptions} {site : Site} {alpha : Slot} {c : FileType × FileState}

lemma adds_setSlot (h : Gathered o site) (hw : Watched o) (hc : Settable c)
    (hfree : Free alpha c site) : Adds o alpha c site (FileSet.setSlot alpha c.1 c.2 site).1 := by
  obtain ⟨hex, n, hn, hnul⟩ := hc
  obtain ⟨hown, hother⟩ := @setSlot_held c.1 c.2 site alpha h.paired.linked hex
  refine ⟨h.setSlot hw hn hex hnul fun f hf ht hside => ?_, hown, hother⟩
  obtain ⟨state, hmem, hname⟩ := side_iff_held.mp ⟨f, hf, ht, hside⟩
  exact hfree (c.1, state) hmem rfl (hname.trans hn.symm)

lemma adds_server {f : SiteFile} {site' : Site} (h : Adds o alpha c site site')
    (hf : f ∈ site'.files) (server : FileState) :
    Adds o alpha c site (write { f with serverState := server } site') where
  gathered := h.gathered.server hf server
  own := (StateFileErrors.held_write_server h.gathered.paired.linked hf server alpha).trans h.own
  other :=
    (StateFileErrors.held_write_server h.gathered.paired.linked hf server alpha.other).trans h.other

/-- Steps for states of different names. -/
theorem gathered_fold {κ : Type} (state : κ → FileType × FileState) (step : Site → κ → Site)
    (hstep : ∀ k site, Gathered o site → Settable (state k) → Free alpha (state k) site →
      Adds o alpha (state k) site (step site k)) (ks : List κ)
    (hset : ∀ k ∈ ks, Settable (state k))
    (honce : ks.Pairwise fun k k' => (state k).1 = (state k').1 →
      (state k).2.filename ≠ (state k').2.filename)
    (hfree : ∀ k ∈ ks, Free alpha (state k) site) (h : Gathered o site) :
    Gathered o (ks.foldl step site) ∧
      held alpha (ks.foldl step site).files =
        ((ks.map state : List _) : Multiset _) + held alpha site.files ∧
      held alpha.other (ks.foldl step site).files = held alpha.other site.files := by
  induction ks generalizing site with
  | nil => exact ⟨h, by simp, rfl⟩
  | cons k ks ih =>
    obtain ⟨hhead, htail⟩ := List.pairwise_cons.mp honce
    have hadds := hstep k site h (hset k List.mem_cons_self) (hfree k List.mem_cons_self)
    have hfree' : ∀ k' ∈ ks, Free alpha (state k') (step site k) := by
      intro k' hk' p hp ht
      rw [hadds.own] at hp
      rcases Multiset.mem_cons.mp hp with rfl | hp
      · exact hhead k' hk' ht
      · exact hfree k' (List.mem_cons_of_mem k hk') p hp ht
    obtain ⟨hgathered, hown, hother⟩ := ih (fun k' hk' => hset k' (List.mem_cons_of_mem k hk'))
      htail hfree' hadds.gathered
    refine ⟨hgathered, ?_, hother.trans hadds.other⟩
    rw [List.foldl_cons, hown, hadds.own, List.map_cons, ← Multiset.cons_coe,
      Multiset.add_cons, Multiset.cons_add]

end Many

/-! ### A scan -/

section Scan
variable {o : SiteOptions} {calls : List (FileType × FileState)}

/-- The calls of a scan give a list that holds their states. -/
theorem gathered_scan (hw : Watched o) {disk : LocalScan.Disk}
    (hcomplete : ScanCompleteness.Complete disk o calls) (hnul : ConsoleRuns.NulFree disk) :
    Gathered o (ScanCompleteness.makeCalls ScanCompleteness.setLocal calls { opts := o }) ∧
      held .localSlot (ScanCompleteness.makeCalls ScanCompleteness.setLocal calls
        { opts := o }).files = (calls : Multiset (FileType × FileState)) ∧
      held .storedSlot (ScanCompleteness.makeCalls ScanCompleteness.setLocal calls
        { opts := o }).files = 0 := by
  have hset : ∀ c ∈ calls, Settable c := by
    intro c hc
    obtain ⟨path, item, hname, hdescribes⟩ := hcomplete.described c hc
    have hpresent := (hcomplete.listed c.1 path).mp ⟨c, hc, rfl, hname⟩
    exact ⟨hdescribes.existing, path, hname, ConsoleRuns.present_nulFree hnul hpresent⟩
  have honce : calls.Pairwise fun c e => c.1 = e.1 → c.2.filename ≠ e.2.filename := by
    refine hcomplete.once.imp ?_
    intro c e hne _
    exact hne
  obtain ⟨hgathered, hown, hother⟩ := @gathered_fold o { opts := o } .localSlot _ (fun c => c)
    (fun site c => ScanCompleteness.setLocal c.1 c.2 site)
    (fun c site h hc hfree => adds_setSlot h hw hc hfree) calls hset honce
    (by simp [Free, held_nil]) (Gathered.empty o)
  refine ⟨hgathered, ?_, hother⟩
  rw [List.map_id', held_nil, add_zero] at hown
  exact hown

end Scan

/-! ### Reading the items of a state file -/

section Items
variable {o : SiteOptions} {site dest : Site}

/-- What is read of an entry that was written. -/
def itemState (o : SiteOptions) (f : SiteFile) : FileType × FileState := (f.type, savedState o f)

lemma adds_item (h : Gathered o site) (hw : Watched o) (so : SiteOptions)
    (p : SiteFile × FileState) (hc : Settable (itemState so p.1))
    (hfree : Free .storedSlot (itemState so p.1) site) :
    Adds o .storedSlot (itemState so p.1) site (readItemSite so p.1 p.2 site) := by
  have hadds := adds_setSlot h hw hc hfree
  have hmem := @setSlot_mem p.1.type (savedState so p.1) site .storedSlot h.paired.linked
  unfold readItemSite
  dsimp only
  rw [← setSlot_stored]
  split_ifs
  · exact adds_server hadds hmem p.2
  · exact hadds

lemma savedState_filename (so : SiteOptions) (f : SiteFile) :
    (savedState so f).filename = f.storedState.filename := by
  unfold savedState readFields
  cases f.type <;> cases so.stateMethod <;> rfl

/-- Reading what was written of a list into one without stored states. -/
theorem gathered_items (h : Gathered o dest) (hw : Watched o) (so : SiteOptions)
    (l : List SiteFile) (server : FileState) (hnames : ∀ f ∈ l, StateFile.Named f)
    (honce : l.Pairwise fun f g => f.type = g.type →
      f.storedState.filename ≠ g.storedState.filename)
    (hempty : held .storedSlot dest.files = 0) :
    Gathered o ((served server l).foldl (fun site p => readItemSite so p.1 p.2 site) dest) ∧
      held .storedSlot ((served server l).foldl (fun site p => readItemSite so p.1 p.2 site)
        dest).files = ((l.map (itemState so) : List _) : Multiset _) ∧
      held .localSlot ((served server l).foldl (fun site p => readItemSite so p.1 p.2 site)
        dest).files = held .localSlot dest.files := by
  have hfst := served_fst server l
  have hset : ∀ p ∈ served server l, Settable (itemState so p.1) := by
    intro p hp
    obtain ⟨n, hn, hnul⟩ := hnames p.1 (hfst ▸ List.mem_map_of_mem hp)
    exact ⟨saved_existing so p.1, n, (savedState_filename so p.1).trans hn, hnul⟩
  have honce' : (served server l).Pairwise fun p q =>
      (itemState so p.1).1 = (itemState so q.1).1 →
        (itemState so p.1).2.filename ≠ (itemState so q.1).2.filename := by
    rw [← hfst, List.pairwise_map] at honce
    refine honce.imp ?_
    intro p q hne
    rw [itemState, itemState, savedState_filename, savedState_filename]
    exact hne
  obtain ⟨hgathered, hown, hother⟩ := @gathered_fold o dest .storedSlot _
    (fun p => itemState so p.1) (fun site p => readItemSite so p.1 p.2 site)
    (fun p site h hc hfree => adds_item h hw so p hc hfree) (served server l) hset honce'
    (by simp [Free, hempty]) h
  refine ⟨hgathered, ?_, hother⟩
  rw [hown, hempty, add_zero]
  congr 1
  rw [← hfst, List.map_map]
  rw [hfst]
  rfl

end Items

/-! ### Server times -/

/-- All server times of a list are among these. -/
def ServedIn (Q : ℤ → Prop) (site : Site) : Prop :=
  ∀ f ∈ site.files, f.serverState.existing = true → Q f.serverState.time

section Times
variable {Q : ℤ → Prop} {site : Site} {alpha : Slot} {type : FileType} {state server : FileState}

lemma servedIn_setSlot (h : ServedIn Q site) (wl : WellLinked site) :
    ServedIn Q (FileSet.setSlot alpha type state site).1 := by
  intro f hf hex
  obtain hf | ⟨-, rfl⟩ | ⟨old, diff, hp, rfl | ⟨-, rfl⟩⟩ := mem_fileSet wl hf
  · exact h f hf hex
  · cases alpha <;> cases hex
  · have hold := h old (choosePlacement_reuse hp).mem
    cases alpha <;> exact hold hex
  · cases alpha <;> cases hex

lemma servedIn_write {f : SiteFile} (h : ServedIn Q site)
    (hserver : server.existing = true → Q server.time) :
    ServedIn Q (write { f with serverState := server } site) := by
  intro g hg hex
  obtain ⟨x, hx, rfl⟩ := List.mem_map.mp hg
  split_ifs at hex ⊢
  · exact hserver hex
  · exact h x hx hex

/-- What is handed on from item to item are server times that were written. -/
lemma served_times (l : List SiteFile) {server : FileState}
    (hserver : server.existing = true → Q server.time)
    (hl : ∀ f ∈ l, f.type = .file → f.serverState.existing = true → Q f.serverState.time) :
    ∀ p ∈ served server l, p.2.existing = true → Q p.2.time := by
  induction l generalizing server with
  | nil => simp [served]
  | cons f l ih =>
    obtain ⟨hf, hl⟩ := List.forall_mem_cons.mp hl
    have hafter : (serverAfter f server).existing = true → Q (serverAfter f server).time := by
      unfold serverAfter carriesServer
      split_ifs with hc
      · rw [Bool.and_eq_true, decide_eq_true_eq] at hc
        exact fun _ => hf hc.1 hc.2
      · exact hserver
    rw [served, List.forall_mem_cons]
    exact ⟨hafter, ih hafter hl⟩

/-- Reading items keeps to these times. -/
lemma servedIn_items (so : SiteOptions) (ps : List (SiteFile × FileState)) {dest : Site}
    (wl : WellLinked dest) (h : ServedIn Q dest)
    (hps : ∀ p ∈ ps, p.2.existing = true → Q p.2.time) :
    ServedIn Q (ps.foldl (fun site p => readItemSite so p.1 p.2 site) dest) := by
  induction ps generalizing dest with
  | nil => exact h
  | cons p ps ih =>
    obtain ⟨hp, hps⟩ := List.forall_mem_cons.mp hps
    have hset := @servedIn_setSlot Q dest .storedSlot p.1.type (savedState so p.1) h wl
    have hlinked : WellLinked (FileSet.setSlot .storedSlot p.1.type (savedState so p.1) dest).1 :=
      fileSet_wellLinked wl
    rw [List.foldl_cons]
    refine ih ?_ ?_ hps
    · unfold readItemSite
      dsimp only
      rw [← setSlot_stored]
      split_ifs
      · exact write_wellLinked hlinked _
      · exact hlinked
    · unfold readItemSite
      dsimp only
      rw [← setSlot_stored]
      split_ifs
      · exact servedIn_write hset hp
      · exact hset

end Times

/-! ### Reading a state file -/

lemma reads_each {m : DataModel} {o : SiteOptions} (l : List SiteFile)
    (hl : ∀ f ∈ l, Recordable m f) (doc : XmlDoc) :
    ∃ doc', Reads m (l.flatMap (itemTokens o)) doc doc' ∧ doc'.site =
      (served doc.server l).foldl (fun site p => readItemSite o p.1 p.2 site) doc.site := by
  induction l generalizing doc with
  | nil => exact ⟨doc, Reads.nil, rfl⟩
  | cons f l ih =>
    obtain ⟨hf, hl⟩ := List.forall_mem_cons.mp hl
    obtain ⟨doc₁, hr₁, hs₁, hsite₁⟩ := reads_item (o := o) hf doc
    obtain ⟨doc₂, hr₂, hsite₂⟩ := ih hl doc₁
    refine ⟨doc₂, hr₁.append hr₂, ?_⟩
    rw [hsite₂, hs₁, hsite₁]
    rfl

/-- Reading what was written of a list is reading its items one after the other. -/
theorem readBack_items (P : Xml.Parser) {m : DataModel} {site dest : Site}
    (h : ∀ f ∈ StateFile.storedFiles site, Storable m f) :
    (readBack P m site dest).lastError = none ∧ (readBack P m site dest).site =
      (served {} (StateFile.storedFiles site)).foldl
        (fun dest p => readItemSite site.opts p.1 p.2 dest)
        { dest with storedStateMethod := site.opts.stateMethod } := by
  have hwf := stateDocument_wellFormed fun f hf => (h f hf).plainTarget
  have hdelivers := P.delivers _ hwf
  have haccept := P.accepts _ hwf
  rw [← siteWriteStoredState_render] at hdelivers haccept
  obtain ⟨doc, hsite, hserver, hfeed⟩ := feed_stateDocument m site dest
  obtain ⟨doc', hr, hsite'⟩ := reads_each (o := site.opts) (StateFile.storedFiles site)
    (fun f hf => (h f hf).recordable) doc
  rw [hr, feed_closing] at hfeed
  unfold readBack parseStorageFile
  dsimp only
  rw [haccept, (neEvents_document hdelivers).trans hfeed]
  refine ⟨rfl, ?_⟩
  change doc'.site = _
  rw [hsite', hserver, hsite]

end Sitecopy.GatheredLists
