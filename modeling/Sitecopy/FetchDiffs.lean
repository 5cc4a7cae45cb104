import Sitecopy.FetchOrder

/-!
# The diffs of fetched files

`site_fetch` removes all stored states and merges the fetched ones into what is left. A file
that is there on both sides gets a stored time that is made up from its local time.
-/
namespace Sitecopy.FetchDiffs
open SiteModel FileSet FileSetSpec SiteStats StateProgram SiteOperations RemoteFetch FetchOrder
open ReachedFiles LocalSynch

/-! ### Lists with one entry replaced -/

section Lists
variable {α : Type} {p q : α → Bool} {put : α → α} {l : List α}

lemma find?_filter_of_imp (h : ∀ a ∈ l, p a = true → q a = true) :
    (l.filter q).find? p = l.find? p := by
  induction l with
  | nil => rfl
  | cons a l ih =>
    have hrest := ih fun b hb => h b (List.mem_cons_of_mem a hb)
    cases hp : p a with
    | true => rw [List.filter_cons_of_pos (h a (by simp) hp), List.find?_cons_of_pos hp,
        List.find?_cons_of_pos hp]
    | false =>
      rw [List.find?_cons_of_neg (by simp [hp])]
      by_cases hq : q a = true
      · rw [List.filter_cons_of_pos hq, List.find?_cons_of_neg (by simp [hp]), hrest]
      · rw [List.filter_cons_of_neg hq, hrest]

lemma find?_map_of_eq (h : ∀ a ∈ l, p (put a) = p a) :
    (l.map put).find? p = (l.find? p).map put := by
  rw [List.find?_map]
  congr 1
  induction l with
  | nil => rfl
  | cons a l ih =>
    rw [List.find?_cons, List.find?_cons, Function.comp_apply, h a (by simp),
      ih fun b hb => h b (List.mem_cons_of_mem a hb)]

lemma filter_map_of_eq (h : ∀ a ∈ l, q (put a) = q a) :
    (l.map put).filter q = (l.filter q).map put := by
  rw [List.filter_map]
  congr 1
  apply List.filter_congr
  exact h

end Lists

/-! ### The first match -/

lemma findCandidates_first {o : SiteOptions} {type : FileType} {state : FileState} {beta : Slot}
    (c : Candidates) (files : List SiteFile) :
    (findCandidates o type state beta c files).direct =
      c.direct.or (files.find? (isDirect type state beta)) := by
  induction files generalizing c with
  | nil => exact (Option.or_none).symm
  | cons f rest ih =>
    have hstep : (considerFile o type state beta c f).direct.or
        (rest.find? (isDirect type state beta)) =
          c.direct.or ((f :: rest).find? (isDirect type state beta)) := by
      rw [considerFile_direct, List.find?_cons]
      cases hc : c.direct with
      | some d => simp
      | none => cases hf : isDirect type state beta f <;> simp
    rw [findCandidates]
    split_ifs with hstop
    · rw [← hstep]
      obtain ⟨d, hd⟩ := Option.isSome_iff_exists.mp hstop.1
      rw [hd, Option.some_or]
    · rw [ih, hstep]

/-- Without move checking the first direct match takes the state. -/
lemma choosePlacement_first {type : FileType} {state : FileState} {site : Site} {beta : Slot}
    {d : SiteFile} (hoff : site.opts.checkmoved = false)
    (hfirst : site.files.find? (isDirect type state beta) = some d) (hd : d.diff ≠ .moved) :
    choosePlacement type state site beta =
      .reuse d (fileCompare type state (beta.get d) site.opts) := by
  have hdirect : (FileSetSpec.found type state site beta).direct = some d := by
    rw [FileSetSpec.found, findCandidates_first, hfirst]
    rfl
  have hnone : ((FileSetSpec.found type state site beta).moved <|>
      (FileSetSpec.found type state site beta).frename) = none := by
    cases hm : ((FileSetSpec.found type state site beta).moved <|>
        (FileSetSpec.found type state site beta).frename) with
    | none => rfl
    | some m =>
      have hc := (found_moved hm).2
      simp [isCandidate, hoff] at hc
  unfold choosePlacement
  rw [← FileSetSpec.found]
  simp [hnone, hdirect, hd]

/-! ### One fetched file -/

def hasLocal (f : SiteFile) : Bool := f.localState.existing

/-- The entry is a regular file that is there locally under this name. -/
def localFile (name : Text) : SiteFile → Bool :=
  isDirect .file { filename := some name } .localSlot

/-- Replace the entry with the address of `e`. -/
def putEntry (e f : SiteFile) : SiteFile := if f.addr = e.addr then e else f

section Merge
variable {site : Site} {type : FileType} {state : FileState}

lemma localFile_hasLocal {name : Text} {f : SiteFile} (h : localFile name f = true) :
    hasLocal f = true := by
  simp only [localFile, isDirect, Bool.and_eq_true] at h
  exact h.1.1

lemma putEntry_files (e : SiteFile) : (write e site).files = site.files.map (putEntry e) := rfl

/-- Entries without a local state may be inserted. -/
lemma insertFile_locals {e : SiteFile} (h : hasLocal e = false) (files : List SiteFile) :
    (insertFile type e files).filter hasLocal = files.filter hasLocal := by
  unfold insertFile
  split_ifs with hnil hdir
  · simp [hnil, h]
  · simp [List.filter_append, h]
  · simp [h]

/-- Setting a stored state replaces one of the entries that are there locally, or none. -/
lemma setStored_locals (wl : WellLinked site) :
    (fileSetStored type state site).1.files.filter hasLocal =
      (site.files.filter hasLocal).map (putEntry (fileSetStored type state site).2) := by
  cases hp : choosePlacement type state site .localSlot with
  | create =>
    have hfiles : (fileSetStored type state site).1.files =
        insertFile type (newEntry type state site .storedSlot .deleted) site.files :=
      fileSet_create hp
    have hentry : (fileSetStored type state site).2 =
        newEntry type state site .storedSlot .deleted := by
      simp only [fileSetStored, fileSet, hp]
    rw [hfiles, hentry, insertFile_locals rfl]
    symm
    rw [List.map_congr_left (g := id), List.map_id]
    intro f hf
    have hlt := wl.bounded f (List.mem_of_mem_filter hf)
    apply if_neg
    rw [newEntry_addr]
    omega
  | reuse old diff =>
    have hr := choosePlacement_reuse hp
    obtain ⟨pre, post, hf⟩ := List.append_of_mem hr.mem
    have hfiles : (fileSetStored type state site).1.files =
        reusedFiles state site .storedSlot .deleted pre old diff post := fileSet_reuse wl hf hp
    have hentry : (fileSetStored type state site).2 = reusedEntry state .storedSlot old diff := by
      simp only [fileSetStored, fileSet, hp]
      rfl
    have hwrite : (write (reusedEntry state .storedSlot old diff) site).files =
        pre ++ reusedEntry state .storedSlot old diff :: post :=
      write_files wl.nodup hf (reusedEntry_addr old diff)
    have hsame : ∀ f ∈ site.files, hasLocal (putEntry (reusedEntry state .storedSlot old diff) f) =
        hasLocal f := by
      intro f hm
      unfold putEntry
      split_ifs with ha
      · obtain rfl := List.inj_on_of_nodup_map wl.nodup hm hr.mem (ha.trans (reusedEntry_addr old diff))
        rfl
      · rfl
    rw [hfiles, hentry, ← filter_map_of_eq hsame, ← putEntry_files, hwrite]
    unfold reusedFiles
    dsimp only
    split_ifs
    · exact insertFile_locals rfl _
    · rfl

/-- The entry that `fetch_add_file` returns stands in the list that it leaves. -/
lemma fetchAddFile_locals (wl : WellLinked site) (pf : ProtoFile) (now : ℤ) :
    (fetchAddFile pf now site).1.files.filter hasLocal =
      (site.files.filter hasLocal).map (putEntry (fetchAddFile pf now site).2) := by
  have hset := @setStored_locals site (fetchedType pf.type) (fetchedState site.opts pf) wl
  have hmem := @setSlot_mem (fetchedType pf.type) (fetchedState site.opts pf) site .storedSlot wl
  have hlinked : WellLinked (fileSetStored (fetchedType pf.type) (fetchedState site.opts pf) site).1 :=
    fileSet_wellLinked wl
  rw [setSlot_stored] at hmem
  unfold fetchAddFile
  generalize fileSetStored (fetchedType pf.type) (fetchedState site.opts pf) site = r
    at hset hmem hlinked
  obtain ⟨ha, -, hl, -, -⟩ := mungeModtime_keeps site.opts r.2 pf.modtime now r.1.stats
  have hput : ∀ e : SiteFile, e.addr = r.2.addr → e.localState = r.2.localState → ∀ st : Stats,
      (write e { r.1 with stats := st }).files.filter hasLocal =
        (site.files.filter hasLocal).map (putEntry e) := by
    intro e hea hel st
    rw [putEntry_files, filter_map_of_eq, hset, List.map_map]
    · apply List.map_congr_left
      intro f _
      unfold putEntry
      dsimp only [Function.comp]
      by_cases hf : f.addr = r.2.addr
      · simp [hf, hea]
      · simp [hf, hea]
    · intro f hf
      unfold putEntry
      split_ifs with haddr
      · obtain rfl := List.inj_on_of_nodup_map hlinked.nodup hf hmem (haddr.trans hea)
        rw [hasLocal, hasLocal, hel]
      · rfl
  dsimp only
  split_ifs
  all_goals
    apply hput
    · exact ha
    · exact hl

/-! ### Following one entry -/

/-- The stored time that `munge_modtime` makes up for a file that is there locally. -/
def mungedTime (o : SiteOptions) (f : SiteFile) (pf : ProtoFile) : ℤ :=
  if o.safemode ∧ f.serverState.existing ∧ f.serverState.time ≠ pf.modtime then
    f.localState.time + 1
  else f.localState.time

/-- What a fetch makes of an entry that is there locally. -/
structure Merged (o : SiteOptions) (f : SiteFile) (pf : ProtoFile) (g : SiteFile) : Prop where
  addr : g.addr = f.addr
  type : g.type = f.type
  localState : g.localState = f.localState
  diff : g.diff = fileCompare .file f.localState
    { fetchedState o pf with time := mungedTime o f pf } o

/-- `f` is the entry of the local file `name`. -/
structure Follows (o : SiteOptions) (name : Text) (f : SiteFile) (site : Site) : Prop where
  linked : WellLinked site
  opts : site.opts = o
  first : site.files.find? (localFile name) = some f

/-- A file as which `pf` is fetched. -/
def fetchedAs (name : Text) (pf : ProtoFile) : Bool := pf.type = .file && pf.filename = name

variable {o : SiteOptions} {name : Text} {f : SiteFile}

lemma find?_locals (files : List SiteFile) :
    (files.filter hasLocal).find? (localFile name) = files.find? (localFile name) :=
  find?_filter_of_imp fun _ _ => localFile_hasLocal

lemma localFile_congr {g : SiteFile} (ht : g.type = f.type) (hl : g.localState = f.localState) :
    localFile name g = localFile name f := by
  change (g.localState.existing && decide (g.type = .file) &&
    decide (g.localState.filename = some name)) = (f.localState.existing &&
      decide (f.type = .file) && decide (f.localState.filename = some name))
  rw [ht, hl]

/-- Where a merged file goes: over an entry of its name, or into a new one. -/
lemma fetchAddFile_entry (hoff : site.opts.checkmoved = false)
    (pf : ProtoFile) (now : ℤ) :
    (∃ d ∈ site.files, isDirect (fetchedType pf.type) { filename := some pf.filename } .localSlot
        d = true ∧ (fetchAddFile pf now site).2.addr = d.addr ∧
          (fetchAddFile pf now site).2.type = d.type ∧
            (fetchAddFile pf now site).2.localState = d.localState) ∨
      (fetchAddFile pf now site).2.addr = site.freshAddr := by
  have hkeeps := fun e st => mungeModtime_keeps site.opts e pf.modtime now st
  have hentry : ∀ e, (fileSetStored (fetchedType pf.type) (fetchedState site.opts pf) site).2 = e →
      (fetchAddFile pf now site).2.addr = e.addr ∧ (fetchAddFile pf now site).2.type = e.type ∧
        (fetchAddFile pf now site).2.localState = e.localState := by
    rintro e rfl
    unfold fetchAddFile
    generalize fileSetStored (fetchedType pf.type) (fetchedState site.opts pf) site = r
    obtain ⟨ha, ht, hl, -, -⟩ := hkeeps r.2 r.1.stats
    dsimp only
    split_ifs
    · exact ⟨ha, ht, hl⟩
    · exact ⟨ha, ht, hl⟩
  cases hp : choosePlacement (fetchedType pf.type) (fetchedState site.opts pf) site .localSlot with
  | create =>
    have hnew : (fileSetStored (fetchedType pf.type) (fetchedState site.opts pf) site).2 =
        newEntry (fetchedType pf.type) (fetchedState site.opts pf) site .storedSlot .deleted := by
      simp only [fileSetStored, fileSet, hp]
    right
    rw [(hentry _ hnew).1, newEntry_addr]
  | reuse old diff =>
    have hold : (fileSetStored (fetchedType pf.type) (fetchedState site.opts pf) site).2 =
        reusedEntry (fetchedState site.opts pf) .storedSlot old diff := by
      simp only [fileSetStored, fileSet, hp]
      rfl
    obtain ⟨hmem, ⟨hdirect, -⟩ | ⟨hcand, -⟩⟩ := choosePlacement_source hp
    · have hkept := hentry _ hold
      exact Or.inl ⟨old, hmem, hdirect, hkept⟩
    · simp [isCandidate, hoff] at hcand

/-- A merged file of another name leaves the entry alone. -/
lemma Follows.other (h : Follows o name f site) (hoff : o.checkmoved = false) {pf : ProtoFile}
    (hpf : fetchedAs name pf = false) (now : ℤ) : Follows o name f (fetchAddFile pf now site).1 := by
  obtain ⟨hlinked, hopts, -⟩ := fetchAddFile_keys h.linked pf now
  refine ⟨hlinked, hopts.trans h.opts, ?_⟩
  have hf := List.mem_of_find?_eq_some h.first
  have hname := List.find?_some h.first
  have hkeep : putEntry (fetchAddFile pf now site).2 f = f := by
    apply if_neg
    rcases fetchAddFile_entry (h.opts ▸ hoff) pf now with ⟨d, hd, hdirect, ha, -⟩ | ha
    · rw [ha]
      intro haddr
      obtain rfl := List.inj_on_of_nodup_map h.linked.nodup hf hd haddr
      simp only [localFile, isDirect, Bool.and_eq_true, decide_eq_true_eq] at hname hdirect
      have hfilename : some name = some pf.filename := hname.2.symm.trans hdirect.2
      have htype : fetchedType pf.type = .file := hdirect.1.2.symm.trans hname.1.2
      rw [fetchedAs, Option.some.inj hfilename] at hpf
      cases ht : pf.type with
      | file => simp [ht] at hpf
      | link | dir =>
        rw [ht] at htype
        cases htype
    · rw [ha]
      have hlt := h.linked.bounded f hf
      omega
  rw [← find?_locals, fetchAddFile_locals h.linked, find?_map_of_eq, find?_locals, h.first,
    Option.map_some, hkeep]
  intro g hg
  unfold putEntry
  split_ifs with haddr
  · rcases fetchAddFile_entry (h.opts ▸ hoff) pf now with ⟨d, hd, -, ha, ht, hl⟩ | ha
    · obtain rfl := List.inj_on_of_nodup_map h.linked.nodup (List.mem_of_mem_filter hg) hd
        (haddr.trans ha)
      exact localFile_congr ht hl
    · have hlt := h.linked.bounded g (List.mem_of_mem_filter hg)
      omega
  · rfl

/-- The diff of a file that is there locally, after its stored time was made up. -/
lemma mungeModtime_diff {e : SiteFile} (ht : e.type = .file) (hl : e.localState.existing = true)
    (hmethod : o.stateMethod = .timesize) (pf : ProtoFile) (now : ℤ) (st : Stats) :
    (mungeModtime o e pf.modtime now st).1.diff =
      fileCompare .file e.localState { e.storedState with time := mungedTime o e pf } o := by
  unfold mungeModtime mungedTime
  rw [if_pos ⟨ht, hmethod⟩, if_pos hl]
  simp only [fileSetDiff, ht]

/-- The merged file of this name goes over the entry. -/
lemma Follows.merge (h : Follows o name f site) (hoff : o.checkmoved = false)
    (hmethod : o.stateMethod = .timesize) {pf : ProtoFile} (hpf : fetchedAs name pf = true)
    (hdiff : f.diff ≠ .moved) (now : ℤ) :
    ∃ g, Merged o f pf g ∧ Follows o name g (fetchAddFile pf now site).1 := by
  obtain ⟨hlinked, hopts, -⟩ := fetchAddFile_keys h.linked pf now
  obtain rfl := h.opts
  have hf := List.mem_of_find?_eq_some h.first
  have hname := List.find?_some h.first
  simp only [fetchedAs, Bool.and_eq_true, decide_eq_true_eq] at hpf
  obtain ⟨htype, rfl⟩ := hpf
  have hplace : choosePlacement .file (fetchedState site.opts pf) site .localSlot =
      .reuse f (fileCompare .file (fetchedState site.opts pf) f.localState site.opts) :=
    choosePlacement_first hoff h.first hdiff
  simp only [localFile, isDirect, Bool.and_eq_true, decide_eq_true_eq] at hname
  have hlocal : f.localState.existing = true := hname.1.1
  have hfile : f.type = .file := hname.1.2
  have hset : (fileSetStored (fetchedType pf.type) (fetchedState site.opts pf) site).2 =
      reusedEntry (fetchedState site.opts pf) .storedSlot f
        (fileCompare .file (fetchedState site.opts pf) f.localState site.opts) := by
    rw [htype]
    simp only [fetchedType, fileSetStored, fileSet, hplace]
    rfl
  have hmerged : Merged site.opts f pf (fetchAddFile pf now site).2 := by
    unfold fetchAddFile
    generalize fileSetStored (fetchedType pf.type) (fetchedState site.opts pf) site = r at hset
    obtain ⟨site', e⟩ := r
    obtain rfl : e = _ := hset
    obtain ⟨ha, ht, hl, -, -⟩ := mungeModtime_keeps site.opts (reusedEntry (fetchedState site.opts pf)
      .storedSlot f (fileCompare .file (fetchedState site.opts pf) f.localState site.opts))
      pf.modtime now site'.stats
    have hd := mungeModtime_diff (e := reusedEntry (fetchedState site.opts pf) .storedSlot f
      (fileCompare .file (fetchedState site.opts pf) f.localState site.opts)) hfile hlocal hmethod pf
      now site'.stats
    dsimp only
    split_ifs
    · exact ⟨ha, ht, hl, hd⟩
    · exact ⟨ha, ht, hl, hd⟩
  refine ⟨_, hmerged, hlinked, hopts, ?_⟩
  have hput : putEntry (fetchAddFile pf now site).2 f = (fetchAddFile pf now site).2 :=
    if_pos hmerged.addr.symm
  rw [← find?_locals, fetchAddFile_locals h.linked, find?_map_of_eq, find?_locals, h.first,
    Option.map_some, hput]
  intro g hg
  unfold putEntry
  split_ifs with haddr
  · obtain rfl := List.inj_on_of_nodup_map h.linked.nodup (List.mem_of_mem_filter hg) hf
      (haddr.trans hmerged.addr)
    exact localFile_congr hmerged.type hmerged.localState
  · rfl

/-! ### The whole fetch -/

/-- An entry without its stored state. -/
def cleared (o : SiteOptions) (f : SiteFile) : SiteFile :=
  { f with storedState := {}, diff := fileCompare f.type f.localState {} o }

/-- `site_destroy_stored` leaves the files that are there locally, in their order. -/
lemma siteDestroyStored_files (site : Site) :
    (siteDestroyStored site).files = (site.files.filter hasLocal).map (cleared site.opts) := by
  have hloop : Ends (forEach (destroyStoredFile site.opts) site.files) site.stats fun r _ =>
      r.1 = (site.files.filter hasLocal).map (cleared site.opts) := by
    apply (forEach_ends (I := fun done rest _ _ =>
      done ++ (rest.filter hasLocal).map (cleared site.opts) =
        (site.files.filter hasLocal).map (cleared site.opts)) _ rfl).mono
    · intro r st h
      simpa using h
    · intro done f rest failed st h
      unfold destroyStoredFile
      rw [ends_ite]
      split_ifs with hgone
      · rw [List.filter_cons_of_neg (by simpa [hasLocal] using hgone)] at h
        simpa [dropFile, ends_bind] using h
      · rw [List.filter_cons_of_pos (by simpa [hasLocal] using hgone)] at h
        rw [ends_bind]
        change done ++ [cleared site.opts f] ++ _ = _
        rw [← h]
        simp
  exact hloop

/-- The entry of a local file is still there when the stored states are gone. -/
lemma follows_cleared (wl : WellLinked site) (h : site.files.find? (localFile name) = some f) :
    Follows site.opts name (cleared site.opts f) (siteDestroyStored site) where
  linked := (destroyStored_keys wl).1
  opts := rfl
  first := by
    have hkeep : ∀ g ∈ site.files.filter hasLocal,
        localFile name (cleared site.opts g) = localFile name g := fun g _ => localFile_congr rfl rfl
    rw [siteDestroyStored_files, find?_map_of_eq hkeep, find?_locals, h]
    rfl

lemma Follows.others (h : Follows o name f site) (hoff : o.checkmoved = false) {σ : Type}
    (env : FetchEnv σ) {files : List ProtoFile} (hfiles : files.filter (fetchedAs name) = [])
    (s : σ) : Ends (addFetched env files site) s fun site' _ => Follows o name f site' := by
  induction files generalizing site s with
  | nil => exact h
  | cons pf files ih =>
    have hpf : fetchedAs name pf = false := by
      by_contra hpf
      rw [List.filter_cons_of_pos (by simpa using hpf)] at hfiles
      cases hfiles
    rw [List.filter_cons_of_neg (by simp [hpf])] at hfiles
    unfold addFetched
    rw [ends_ite]
    split_ifs
    · rw [ends_bind]
      apply Ends.of_forall
      intro now s'
      exact ih (h.other hoff hpf now) hfiles s'
    · exact ih h hfiles s

/-- A file that occurs once among the fetched ones is merged into its entry. -/
lemma Follows.once (h : Follows o name f site) (hoff : o.checkmoved = false)
    (hmethod : o.stateMethod = .timesize) (hdiff : f.diff ≠ .moved) {σ : Type} (env : FetchEnv σ)
    {files : List ProtoFile} {pf : ProtoFile} (hfiles : files.filter (fetchedAs name) = [pf])
    (hex : fileIsexcluded name o = false) (s : σ) :
    Ends (addFetched env files site) s fun site' _ => ∃ g, Merged o f pf g ∧ Follows o name g site' := by
  induction files generalizing site s with
  | nil => cases hfiles
  | cons pf' files ih =>
    unfold addFetched
    rw [ends_ite]
    cases hpf : fetchedAs name pf' with
    | true =>
      rw [List.filter_cons_of_pos hpf] at hfiles
      obtain ⟨rfl, hrest⟩ := List.cons.inj hfiles
      have hname : pf'.filename = name := by
        simp only [fetchedAs, Bool.and_eq_true, decide_eq_true_eq] at hpf
        exact hpf.2
      rw [if_pos (by simp [hname, h.opts, hex]), ends_bind]
      apply Ends.of_forall
      intro now s'
      obtain ⟨g, hmerged, hg⟩ := h.merge hoff hmethod hpf hdiff now
      apply (hg.others hoff env hrest s').mono
      exact fun site' _ hsite => ⟨g, hmerged, hsite⟩
    | false =>
      rw [List.filter_cons_of_neg (by simp [hpf])] at hfiles
      split_ifs
      · rw [ends_bind]
        apply Ends.of_forall
        intro now s'
        exact ih (h.other hoff hpf now) hfiles s'
      · exact ih h hfiles s

end Merge

section Fetch
variable {σ : Type}

/-- The listing that a fetch puts together from the driver's lists. -/
def fetchedFiles (env : FetchEnv σ) (o : SiteOptions) (fuel : ℕ) : StateM σ (List ProtoFile) := do
  let _ ← fetchCall env .init
  let r ← fetchLoop env o fuel [[]] []
  pure (r.elim [] Prod.snd)

/-- A fetch that succeeds replaces the stored states by the listing. -/
lemma siteFetch_lists (env : FetchEnv σ) (fuel : ℕ) (site : Site) (sess : σ) :
    Ends (siteFetch env fuel site) sess fun r _ => ∀ out, r = some out → out.ret = SITE_OK →
      ∃ s, out.site = ((addFetched env ((fetchedFiles env site.opts fuel).run sess).1
        (siteDestroyStored site)).run s).1 := by
  unfold siteFetch
  rw [ends_bind, ends_iff]
  intro init s hinit
  have hrun : ((fetchedFiles env site.opts fuel).run sess).1 =
      ((fetchLoop env site.opts fuel [[]] []).run s).1.elim [] Prod.snd := by
    change (((fetchLoop env site.opts fuel [[]] []).run ((fetchCall env .init).run sess).2).1).elim
      [] Prod.snd = _
    rw [hinit]
  rw [ends_ite]
  split_ifs with hcode hfetches
  · rintro out ⟨⟩ hok
    exact absurd hok hcode
  · rintro out ⟨⟩ hok
    cases hok
  · rw [ends_bind, ends_iff]
    intro r s' hloop
    rw [hloop] at hrun
    cases r with
    | none =>
      rintro out ⟨⟩
    | some r =>
      obtain ⟨ret, files⟩ := r
      have hfiles : ((fetchedFiles env site.opts fuel).run sess).1 = files := hrun
      dsimp only
      rw [ends_ite, hfiles]
      split_ifs with hret
      · rintro out ⟨⟩ -
        exact ⟨s', rfl⟩
      · rintro out ⟨⟩ hok
        cases hok

/-- What a fetched file has in common with the local one when it is not changed. -/
structure Agrees (o : SiteOptions) (f : SiteFile) (pf : ProtoFile) : Prop where
  size : pf.size = f.localState.size
  mode : permsCompared o f.localState (fetchedState o pf) = true → f.localState.mode = pf.mode
  ascii : f.localState.ascii = fileIsascii pf.filename o
  time : ¬ (o.safemode = true ∧ f.serverState.existing = true ∧ f.serverState.time ≠ pf.modtime)

/-- The outcome of the comparison with the made up time. -/
lemma Merged.diff_iff {o : SiteOptions} {f g : SiteFile} {pf : ProtoFile} (h : Merged o f pf g)
    (hlocal : f.localState.existing = true) (hoff : o.checkmoved = false)
    (hmethod : o.stateMethod = .timesize) :
    (g.diff = .unchanged ∨ g.diff = .changed) ∧ (g.diff = .unchanged ↔ Agrees o f pf) := by
  have htime : mungedTime o f pf = f.localState.time ↔
      ¬ (o.safemode = true ∧ f.serverState.existing = true ∧ f.serverState.time ≠ pf.modtime) := by
    unfold mungedTime
    split_ifs with hchanged
    · exact iff_of_false (by omega) (not_not_intro hchanged)
    · exact iff_of_true rfl hchanged
  obtain ⟨t, ht⟩ : ∃ t : FileState, t = { fetchedState o pf with time := mungedTime o f pf } :=
    ⟨_, rfl⟩
  have hdiff : g.diff = fileCompare .file f.localState t o := by
    rw [ht]
    exact h.diff
  have hex : t.existing = true := by
    rw [ht]
    rfl
  have hsame : methodDiffers o f.localState t = false ↔
      mungedTime o f pf = f.localState.time ∧ pf.size = f.localState.size := by
    unfold methodDiffers
    rw [hmethod]
    simp only [Bool.or_eq_false_iff, decide_eq_false_iff_not, not_not]
    rw [ht, eq_comm, eq_comm (a := f.localState.size)]
    exact Iff.rfl
  have hascii : t.ascii = fileIsascii pf.filename o := by
    rw [ht]
    rfl
  have hmode : t.mode = pf.mode := by
    rw [ht]
    rfl
  have hperms : permsCompared o f.localState t = permsCompared o f.localState (fetchedState o pf) := by
    rw [ht]
    rfl
  rw [hdiff, fileCompare_file hlocal hex, hoff]
  simp only [Bool.false_and, Bool.false_eq_true, if_false]
  split_ifs with hm ha hp
  · refine ⟨Or.inr rfl, iff_of_false (by simp) fun hagrees => ?_⟩
    rw [hsame.mpr ⟨htime.mpr hagrees.time, hagrees.size⟩] at hm
    cases hm
  · refine ⟨Or.inr rfl, iff_of_false (by simp) fun hagrees => ?_⟩
    exact ha (hagrees.ascii.trans hascii.symm)
  · refine ⟨Or.inr rfl, iff_of_false (by simp) fun hagrees => ?_⟩
    simp only [Bool.and_eq_true, decide_eq_true_eq, hperms, hmode] at hp
    exact hp.2 (hagrees.mode hp.1)
  · refine ⟨Or.inl rfl, iff_of_true rfl ?_⟩
    obtain ⟨ht, hsize⟩ := hsame.mp (by simpa using hm)
    rw [not_not, hascii] at ha
    refine ⟨hsize, fun hcompared => ?_, ha, htime.mp ht⟩
    simpa [hperms, hmode, hcompared] using hp

/-- After a fetch a file that is there on both sides is unchanged exactly if the sizes, the modes
as far as they are compared and the ASCII flags agree and, in safe mode, the server does not
report another time than the one that was recorded. -/
theorem fetched_diff_iff (env : FetchEnv σ) (fuel : ℕ) {site : Site} (sess : σ)
    (wl : WellLinked site) (hoff : site.opts.checkmoved = false)
    (hmethod : site.opts.stateMethod = .timesize) {name : Text} {f : SiteFile}
    (hf : site.files.find? (localFile name) = some f) {pf : ProtoFile}
    (hpf : ((fetchedFiles env site.opts fuel).run sess).1.filter (fetchedAs name) = [pf])
    (hex : fileIsexcluded name site.opts = false) {out : FetchResult} {sess' : σ}
    (hrun : (siteFetch env fuel site).run sess = (some out, sess')) (hok : out.ret = SITE_OK) :
    ∃ g, out.site.files.find? (localFile name) = some g ∧ g.addr = f.addr ∧
      (g.diff = .unchanged ∨ g.diff = .changed) ∧ (g.diff = .unchanged ↔ Agrees site.opts f pf) := by
  have hlocal : hasLocal f = true := localFile_hasLocal (List.find?_some hf)
  obtain ⟨s, hsite⟩ := ends_iff.mp (siteFetch_lists env fuel site sess) _ _ hrun out rfl hok
  have hdiff : (cleared site.opts f).diff ≠ .moved := by
    have hnew : (cleared site.opts f).diff = .new := fileCompare_new_iff.mpr ⟨hlocal, rfl⟩
    simp [hnew]
  obtain ⟨g, hmerged, hg⟩ :=
    (follows_cleared wl hf).once hoff hmethod hdiff env hpf hex s
  have hfirst := hg.first
  rw [hsite]
  have hcompare := hmerged.diff_iff hlocal hoff hmethod
  refine ⟨g, hfirst, hmerged.addr, hcompare.1, hcompare.2.trans ?_⟩
  exact ⟨fun h => ⟨h.size, h.mode, h.ascii, h.time⟩, fun h => ⟨h.size, h.mode, h.ascii, h.time⟩⟩

end Fetch

/-! ### A file with a recorded ASCII flag -/

/-- A server whose root holds these files, and nothing else. -/
def rootDriver (files : List ProtoFile) : FetchEnv PUnit where
  fetches := true
  exec c s := match c with
    | .fetchList _ _ => ({ code := SITE_OK, files := files }, s)
    | .init | .finish | .error | .fileRead _ => ({ code := SITE_OK }, s)
  time s := (0, s)

def remoteFile : ProtoFile := { filename := ascii "a", type := .file, size := 3, modtime := 9 }

/-- The local file `a`, as a scan finds it. -/
def scannedSite : Site :=
  (fileSetLocal .file { time := 7, size := 3, existing := true, filename := some (ascii "a") }
    { opts := {} }).1

lemma fetched_diff_iff_scanned : ∃ f out g, scannedSite.files = [f] ∧
    (siteFetch (rootDriver [remoteFile]) 2 scannedSite).run ⟨⟩ = (some out, ⟨⟩) ∧
      out.site.files.find? (localFile (ascii "a")) = some g ∧ g.addr = f.addr ∧
        (g.diff = .unchanged ∨ g.diff = .changed) ∧
          (g.diff = .unchanged ↔ Agrees scannedSite.opts f remoteFile) := by
  have hret : (((siteFetch (rootDriver [remoteFile]) 2 scannedSite).run ⟨⟩).1.map
      FetchResult.ret) = some SITE_OK := by
    decide +kernel
  obtain ⟨out, hout, hok⟩ := Option.map_eq_some_iff.mp hret
  have hrun : (siteFetch (rootDriver [remoteFile]) 2 scannedSite).run ⟨⟩ = (some out, ⟨⟩) :=
    Prod.ext hout rfl
  have hf : scannedSite.files.find? (localFile (ascii "a")) =
      some (scannedSite.files.head (by decide)) := by
    decide +kernel
  have hlisted : (((fetchedFiles (rootDriver [remoteFile]) scannedSite.opts 2).run ⟨⟩).1).filter
      (fetchedAs (ascii "a")) = [remoteFile] := by
    decide +kernel
  obtain ⟨g, hg⟩ := fetched_diff_iff (rootDriver [remoteFile]) 2 ⟨⟩ ⟨by decide, by decide⟩ rfl rfl
    hf hlisted (by decide) hrun hok
  exact ⟨_, out, g, rfl, hrun, hg⟩

/-- Everything works. -/
def workingEnv : SynchEnv PUnit where
  driver _ s := (SITE_OK, s)
  local' _ s := (true, s)

/-- The file `a` is downloaded, and was recorded as an ASCII file, which the options do not say
any more. -/
def downloadedSite : Site :=
  runSynchPhase workingEnv ⟨⟩ .files (fileSetStored .file
    { time := 7, size := 3, ascii := true, existing := true, filename := some (ascii "a") }
    { opts := {} }).1

/-- The size and the mode agree, and there is no safe mode; the ASCII flag makes the file
changed. -/
theorem ascii_flag_compared : Reached {} downloadedSite ∧
    ∃ f out g, downloadedSite.files.find? (localFile (ascii "a")) = some f ∧
      ((fetchedFiles (rootDriver [remoteFile]) {} 2).run ⟨⟩).1 = [remoteFile] ∧
      ((siteFetch (rootDriver [remoteFile]) 2 downloadedSite).run ⟨⟩).1 = some out ∧
      out.ret = SITE_OK ∧ out.site.files.find? (localFile (ascii "a")) = some g ∧
      remoteFile.size = f.localState.size ∧ remoteFile.mode = f.localState.mode ∧
      downloadedSite.opts.safemode = false ∧ g.diff = .changed := by
  have hreached : Reached {} downloadedSite :=
    .synchPhase workingEnv ⟨⟩ .files (.setStored _ _ .empty rfl)
  have hf : (downloadedSite.files.find? (localFile (ascii "a"))).map
      (fun f => (f.localState.size, f.localState.mode)) = some (3, 0) := by
    decide +kernel
  obtain ⟨f, hfind, hstate⟩ := Option.map_eq_some_iff.mp hf
  obtain ⟨hsize, hmode⟩ := Prod.mk.inj hstate
  have hg : (((siteFetch (rootDriver [remoteFile]) 2 downloadedSite).run ⟨⟩).1.bind fun out =>
      (out.site.files.find? (localFile (ascii "a"))).map fun g => (out.ret, g.diff)) =
        some (SITE_OK, .changed) := by
    decide +kernel
  obtain ⟨out, hout, hg⟩ := Option.bind_eq_some_iff.mp hg
  obtain ⟨g, hgfind, hg⟩ := Option.map_eq_some_iff.mp hg
  obtain ⟨hret, hdiff⟩ := Prod.mk.inj hg
  exact ⟨hreached, f, out, g, hfind, by decide +kernel, hout, hret, hgfind, hsize.symm, hmode.symm,
    rfl, hdiff⟩

end Sitecopy.FetchDiffs
