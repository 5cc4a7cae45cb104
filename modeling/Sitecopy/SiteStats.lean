import Sitecopy.FileSetSpec
import Sitecopy.SiteOperations

/-!
# Exact statistics

Every counter is a sum of one weight per entry. An operation that replaces an entry
keeps the statistics exact when it moves every counter by the difference of the
weights (`Balanced`), and this composes.
-/
namespace Sitecopy.SiteStats
open SiteModel FileSet FileSetSpec StateProgram SiteOperations

/-- The eight counters and totals. -/
inductive Counter
  | numnew
  | numchanged
  | numignored
  | numdeleted
  | nummoved
  | numunchanged
  | totalnew
  | totalchanged
  deriving DecidableEq, Repr

def Counter.get (c : Counter) (st : Stats) : ℤ :=
  match c with
  | .numnew => st.numnew
  | .numchanged => st.numchanged
  | .numignored => st.numignored
  | .numdeleted => st.numdeleted
  | .nummoved => st.nummoved
  | .numunchanged => st.numunchanged
  | .totalnew => st.totalnew
  | .totalchanged => st.totalchanged

/-- What one entry contributes to a counter. -/
def weight (c : Counter) (f : SiteFile) : ℤ :=
  match c with
  | .numnew => if f.diff = .new then 1 else 0
  | .numchanged => if f.diff = .changed ∧ f.ignore = false then 1 else 0
  | .numignored => if f.diff = .changed ∧ f.ignore = true then 1 else 0
  | .numdeleted => if f.diff = .deleted then 1 else 0
  | .nummoved => if f.diff = .moved then 1 else 0
  | .numunchanged => if f.diff = .unchanged then 1 else 0
  | .totalnew => if f.diff = .new then f.localState.size else 0
  | .totalchanged => if f.diff = .changed ∧ f.ignore = false then f.localState.size else 0

theorem increase_get (c : Counter) (f : SiteFile) (st : Stats) :
    c.get (siteStatsIncrease f st) = c.get st + weight c f := by
  unfold siteStatsIncrease weight Counter.get
  cases hd : f.diff <;> cases hi : f.ignore <;> cases c <;> simp

theorem decrease_get (c : Counter) (f : SiteFile) (st : Stats) :
    c.get (siteStatsDecrease f st) = c.get st - weight c f := by
  unfold siteStatsDecrease weight Counter.get
  cases hd : f.diff <;> cases hi : f.ignore <;> cases c <;> simp

@[simp] theorem update_get (c : Counter) (o : SiteOptions) (st : Stats) :
    c.get (siteStatsUpdate o st) = c.get st := by cases c <;> rfl

@[simp] theorem siteStatsUpdate_idem (o : SiteOptions) (st : Stats) :
    siteStatsUpdate o (siteStatsUpdate o st) = siteStatsUpdate o st := rfl

/-- The diff of an entry is what the comparison of its states gives. -/
def Compared (o : SiteOptions) (f : SiteFile) : Prop :=
  f.diff = fileCompare f.type f.localState f.storedState o

lemma Compared.localExisting {o : SiteOptions} {f : SiteFile} (hc : Compared o f)
    (hd : f.diff = .new ∨ f.diff = .changed) : f.localState.existing = true := by
  rcases hd with hd | hd
  · exact (fileCompare_new_iff.mp (hc.symm.trans hd)).1
  · exact (fileCompare_both (hc.symm.trans hd) (by decide) (by decide)).1

/-- The diffs, counters, totals and flags of a files list are exact. -/
structure Exact (o : SiteOptions) (files : List SiteFile) (st : Stats) : Prop where
  compared : ∀ f ∈ files, Compared o f
  counted : ∀ c : Counter, c.get st = (files.map (weight c)).sum
  flags : siteStatsUpdate o st = st

theorem Exact.empty (o : SiteOptions) : Exact o [] {} where
  compared := by simp
  counted c := by cases c <;> rfl
  flags := by cases h : o.nodelete <;> simp [siteStatsUpdate]

theorem Exact.perm {o : SiteOptions} {l l' : List SiteFile} {st : Stats} (h : Exact o l st)
    (hp : l.Perm l') : Exact o l' st where
  compared f hf := h.compared f (hp.mem_iff.mpr hf)
  counted c := by rw [h.counted c, (hp.map (weight c)).sum_eq]
  flags := h.flags

/-! ### Replacing one entry -/

/-- The statistics after `file` gave way to `out` are those before, moved by the weights. -/
structure Balanced (o : SiteOptions) (file : SiteFile) (st : Stats) (out : Option SiteFile)
    (st' : Stats) : Prop where
  entry : ∀ f ∈ out, f.addr = file.addr ∧ f.type = file.type ∧ f.ignore = file.ignore ∧
    f.localState = file.localState ∧ Compared o f
  moved : ∀ c : Counter, c.get st' = c.get st - weight c file + (out.map (weight c)).getD 0
  flags : siteStatsUpdate o st' = st'

/-- Two entries that differ at most in their stored and server states. -/
structure SameLocal (f g : SiteFile) : Prop where
  addr : g.addr = f.addr
  type : g.type = f.type
  diff : g.diff = f.diff
  ignore : g.ignore = f.ignore
  localState : g.localState = f.localState

lemma SameLocal.weight_eq {f g : SiteFile} (h : SameLocal f g) (c : Counter) :
    weight c g = weight c f := by
  simp only [weight, h.diff, h.ignore, h.localState]

section Balance
variable {o : SiteOptions} {file : SiteFile} {st : Stats}

theorem Balanced.keep (hc : Compared o file) (hf : siteStatsUpdate o st = st) :
    Balanced o file st (some file) st where
  entry f hm := by
    obtain rfl := Option.mem_some_iff.mp hm
    exact ⟨rfl, rfl, rfl, rfl, hc⟩
  moved c := by simp
  flags := hf

theorem Balanced.fileSetDiff {g : SiteFile} (h : SameLocal file g) :
    Balanced o file st (some (fileSetDiff o g st).1) (fileSetDiff o g st).2 where
  entry f hm := by
    obtain rfl := Option.mem_some_iff.mp hm
    exact ⟨h.addr, h.type, h.ignore, h.localState, rfl⟩
  moved c := by
    simp only [FileSet.fileSetDiff, update_get, increase_get, decrease_get, h.weight_eq c,
      Option.map_some, Option.getD_some]
  flags := rfl

theorem Balanced.fileDelete : Balanced o file st none (fileDelete o file st) where
  entry f hm := by simp at hm
  moved c := by simp [FileSet.fileDelete, decrease_get]
  flags := rfl

theorem Balanced.trans {f : SiteFile} {st₁ st₂ : Stats} {out : Option SiteFile}
    (h : Balanced o file st (some f) st₁) (h' : Balanced o f st₁ out st₂) :
    Balanced o file st out st₂ where
  entry g hg := by
    obtain ⟨ha, ht, hi, hl, _⟩ := h.entry f rfl
    obtain ⟨ha', ht', hi', hl', hc⟩ := h'.entry g hg
    exact ⟨ha'.trans ha, ht'.trans ht, hi'.trans hi, hl'.trans hl, hc⟩
  moved c := by
    have h₁ := h.moved c
    have h₂ := h'.moved c
    simp only [Option.map_some, Option.getD_some] at h₁
    omega
  flags := h'.flags

/-- Writing the server state does not touch the statistics. -/
theorem Balanced.server {f g : SiteFile} {st' : Stats} (h : Balanced o file st (some f) st')
    (hg : SameLocal f g) (hs : g.storedState = f.storedState) :
    Balanced o file st (some g) st' where
  entry x hm := by
    obtain rfl := Option.mem_some_iff.mp hm
    obtain ⟨ha, ht, hi, hl, hc⟩ := h.entry f rfl
    refine ⟨hg.addr.trans ha, hg.type.trans ht, hg.ignore.trans hi, hg.localState.trans hl, ?_⟩
    unfold Compared at hc ⊢
    rw [hg.diff, hg.type, hg.localState, hs, hc]
  moved c := by simpa [hg.weight_eq c] using h.moved c
  flags := h.flags

/-- The part of `Balanced` that exact statistics depend on. -/
structure Exchanged (o : SiteOptions) (file : SiteFile) (st : Stats) (out : Option SiteFile)
    (st' : Stats) : Prop where
  entry : ∀ f ∈ out, f.addr = file.addr ∧ Compared o f
  moved : ∀ c : Counter, c.get st' = c.get st - weight c file + (out.map (weight c)).getD 0
  flags : siteStatsUpdate o st' = st'

lemma Balanced.exchanged {out : Option SiteFile} {st' : Stats} (h : Balanced o file st out st') :
    Exchanged o file st out st' where
  entry f hf := ⟨(h.entry f hf).1, (h.entry f hf).2.2.2.2⟩
  moved := h.moved
  flags := h.flags

theorem Exact.replace {pre post : List SiteFile} {out : Option SiteFile} {st' : Stats}
    (h : Exact o (pre ++ file :: post) st) (hb : Exchanged o file st out st') :
    Exact o (pre ++ out.toList ++ post) st' where
  compared f hf := by
    simp only [List.mem_append, Option.mem_toList] at hf
    rcases hf with (hf | hf) | hf
    · exact h.compared f (by simp [hf])
    · exact (hb.entry f hf).2
    · exact h.compared f (by simp [hf])
  counted c := by
    have hc := h.counted c
    have hm := hb.moved c
    cases out <;> simp only [List.map_append, List.map_cons, List.sum_append, List.sum_cons,
      Option.toList_none, Option.toList_some, List.append_nil, List.map_nil, List.sum_nil,
      Option.map_some, Option.map_none, Option.getD_some, Option.getD_none] at hc hm ⊢ <;> omega
  flags := hb.flags

end Balance

/-! ### Loops -/

/-- What the loops of the site keep: exact statistics, and nodes at distinct addresses. -/
structure ExactList (o : SiteOptions) (addrs : List ℕ) (files : List SiteFile) (st : Stats) :
    Prop where
  exact : Exact o files st
  addrs : (files.map SiteFile.addr).Sublist addrs

theorem ExactList.replace {o : SiteOptions} {addrs : List ℕ} {file : SiteFile} {st st' : Stats}
    {pre post : List SiteFile} {out : Option SiteFile}
    (h : ExactList o addrs (pre ++ file :: post) st) (hb : Exchanged o file st out st') :
    ExactList o addrs (pre ++ out.toList ++ post) st' where
  exact := h.exact.replace hb
  addrs := by
    refine List.Sublist.trans ?_ h.addrs
    rw [List.append_assoc, List.map_append, List.map_append, List.map_append]
    refine (List.Sublist.refl _).append ?_
    cases out with
    | none => simp
    | some f => simp [(hb.entry f rfl).1]

/-- A body that balances the statistics, run over the list, keeps them exact. `stats`
reads the statistics out of the loop's state. -/
theorem forEach_exact {s : Type} {o : SiteOptions} (stats : s → Stats)
    {body : SiteFile → StateM s (Option SiteFile × Bool)}
    (hbody : ∀ file t, Compared o file → siteStatsUpdate o (stats t) = stats t →
      Ends (body file) t fun r t' => Balanced o file (stats t) r.1 (stats t'))
    {addrs : List ℕ} {files : List SiteFile} {t : s} (h : ExactList o addrs files (stats t)) :
    Ends (forEach body files) t fun r t' => ExactList o addrs r.1 (stats t') := by
  refine (forEach_ends (I := fun done rest _ t => ExactList o addrs (done ++ rest) (stats t))
    ?_ h).mono fun r t' hr => by simpa using hr
  intro done file rest failed t hI
  refine (hbody file t (hI.exact.compared file (by simp)) hI.exact.flags).mono fun r t' hb => ?_
  simpa using hI.replace hb.exchanged

theorem forEachBackward_exact {s : Type} {o : SiteOptions} (stats : s → Stats)
    {body : SiteFile → StateM s (Option SiteFile × Bool)}
    (hbody : ∀ file t, Compared o file → siteStatsUpdate o (stats t) = stats t →
      Ends (body file) t fun r t' => Balanced o file (stats t) r.1 (stats t'))
    {addrs : List ℕ} {files : List SiteFile} {t : s} (h : ExactList o addrs files (stats t)) :
    Ends (forEachBackward body files) t fun r t' => ExactList o addrs r.1 (stats t') := by
  refine (forEachBackward_ends
    (I := fun rest done _ t => ExactList o addrs (rest ++ done) (stats t)) ?_ (by simpa)).mono
    fun r t' hr => by simpa using hr
  intro rest file done failed t hI
  rw [List.append_assoc] at hI
  refine (hbody file t (hI.exact.compared file (by simp)) hI.exact.flags).mono fun r t' hb => ?_
  simpa using hI.replace hb.exchanged

/-! ### Sites -/

/-- A site whose list is well linked and whose statistics are exact. -/
structure ExactSite (site : Site) : Prop where
  linked : WellLinked site
  exact : Exact site.opts site.files site.stats

theorem ExactSite.empty (o : SiteOptions) : ExactSite { opts := o } :=
  ⟨⟨by simp, by simp⟩, Exact.empty o⟩

/-- The site with the files and statistics a loop ended with. -/
theorem ExactSite.update {site : Site} {files : List SiteFile} {st : Stats} (h : ExactSite site)
    (hl : ExactList site.opts (site.files.map SiteFile.addr) files st) :
    ExactSite { site with files := files, stats := st } := by
  refine ⟨⟨hl.addrs.nodup h.linked.nodup, fun f hf => ?_⟩, hl.exact⟩
  obtain ⟨g, hg, he⟩ := List.mem_map.mp (hl.addrs.subset (List.mem_map_of_mem hf))
  exact he ▸ h.linked.bounded g hg

lemma ExactSite.list {site : Site} (h : ExactSite site) :
    ExactList site.opts (site.files.map SiteFile.addr) site.files site.stats :=
  ⟨h.exact, List.Sublist.refl _⟩

theorem visitFiles_exact {site : Site} (h : ExactSite site)
    {body : SiteFile → StateM Stats (Option SiteFile × Bool)}
    (hbody : ∀ file st, Compared site.opts file → siteStatsUpdate site.opts st = st →
      Ends (body file) st fun r st' => Balanced site.opts file st r.1 st') :
    ExactSite (visitFiles body site) :=
  h.update (forEach_exact id hbody h.list)

lemma catchupFile_balanced {o : SiteOptions} {file : SiteFile} {st : Stats}
    (hc : Compared o file) (hf : siteStatsUpdate o st = st) :
    Ends (catchupFile o file) st fun r st' => Balanced o file st r.1 st' := by
  unfold catchupFile
  cases hd : file.diff with
  | unchanged => exact Balanced.keep hc hf
  | deleted => exact Balanced.fileDelete
  | changed => exact Balanced.fileSetDiff ⟨rfl, rfl, hd.symm, rfl, rfl⟩
  | new => exact Balanced.fileSetDiff ⟨rfl, rfl, hd.symm, rfl, rfl⟩
  | moved => exact Balanced.fileSetDiff ⟨rfl, rfl, hd.symm, rfl, rfl⟩

lemma destroyStoredFile_balanced {o : SiteOptions} {file : SiteFile} {st : Stats} :
    Ends (destroyStoredFile o file) st fun r st' => Balanced o file st r.1 st' := by
  unfold destroyStoredFile
  rw [ends_ite]
  split_ifs
  · exact Balanced.fileDelete
  · exact Balanced.fileSetDiff ⟨rfl, rfl, rfl, rfl, rfl⟩

theorem siteCatchup_exact {site : Site} (h : ExactSite site) : ExactSite (siteCatchup site) :=
  visitFiles_exact h fun _ _ => catchupFile_balanced

theorem siteDestroyStored_exact {site : Site} (h : ExactSite site) :
    ExactSite (siteDestroyStored site) :=
  visitFiles_exact h fun _ _ _ _ => destroyStoredFile_balanced

theorem siteDestroy_exact {site : Site} (h : ExactSite site) : ExactSite (siteDestroy site) :=
  visitFiles_exact h fun _ _ _ _ => Balanced.fileDelete

/-! ### `file_set` -/

section FileSet
variable {type : FileType} {state : FileState} {site : Site} {alpha : Slot}

/-- An entry that holds one existing state, on the side being set, has the default diff. -/
theorem compared_alone {o : SiteOptions} {f : SiteFile} (hs : (alpha.get f).existing = true)
    (hn : (alpha.other.get f).existing = false) (hd : f.diff = alpha.defaultDiff) :
    Compared o f := by
  unfold Compared
  rw [hd]
  cases alpha with
  | localSlot => exact (fileCompare_new_iff.mpr ⟨hs, hn⟩).symm
  | storedSlot => exact (fileCompare_deleted_iff.mpr hn).symm

theorem compared_reused {old : SiteFile} {diff : FileDiff} (hs : state.existing = true)
    (h : Reusable type state site alpha.other old diff) :
    Compared site.opts (reusedEntry state alpha old diff) := by
  unfold Compared reusedEntry
  rw [Slot.put_diff, Slot.put_type]
  change diff = _
  rw [h.diff_eq, h.type_eq]
  cases alpha with
  | localSlot => rfl
  | storedSlot => exact fileCompare_comm site.opts hs h.existing

theorem setSlot_stats_create (h : choosePlacement type state site alpha.other = .create) :
    (setSlot alpha type state site).1.stats = siteStatsUpdate site.opts (siteStatsIncrease
      (newEntry type state site alpha (alpha.defaultDiff)) site.stats) := by
  simp only [setSlot, fileSet, h, updateStats, addStats, fileInsert]

theorem setSlot_stats_reuse {old : SiteFile} {diff : FileDiff}
    (h : choosePlacement type state site alpha.other = .reuse old diff) :
    (setSlot alpha type state site).1.stats = siteStatsUpdate site.opts (siteStatsIncrease
      (reusedEntry state alpha old diff)
      (if (alpha.get old).existing then
        siteStatsIncrease (shovedEntry old site alpha (alpha.defaultDiff))
          (siteStatsDecrease old site.stats)
      else siteStatsDecrease old site.stats)) := by
  simp only [setSlot, fileSet, h, updateStats, addStats, write, dropStats, fileInsert, reusedEntry]
  split_ifs <;> rfl

theorem setSlot_exact (h : ExactSite site) (hs : state.existing = true) :
    ExactSite (setSlot alpha type state site).1 := by
  have hopts : (setSlot alpha type state site).1.opts = site.opts := fileSet_opts
  refine ⟨fileSet_wellLinked h.linked, ?_⟩
  rw [hopts]
  cases hp : choosePlacement type state site alpha.other with
  | create =>
    have hfiles : (setSlot alpha type state site).1.files =
        insertFile type (newEntry type state site alpha (alpha.defaultDiff)) site.files :=
      fileSet_create hp
    rw [hfiles, setSlot_stats_create hp]
    refine Exact.perm ?_ (insertFile_perm _ _ _).symm
    refine ⟨fun f hf => ?_, fun c => ?_, rfl⟩
    · rcases List.mem_cons.mp hf with rfl | hf
      · exact @compared_alone alpha _ _ (by simp [newEntry, hs])
          (by cases alpha <;> simp [newEntry, fresh, Slot.get, Slot.put, Slot.other])
          (by simp [newEntry])
      · exact h.exact.compared f hf
    · rw [update_get, increase_get, h.exact.counted c, List.map_cons, List.sum_cons]
      ring
  | reuse old diff =>
    have hr := choosePlacement_reuse hp
    obtain ⟨pre, post, hf⟩ := List.append_of_mem hr.mem
    have hfiles : (setSlot alpha type state site).1.files =
        reusedFiles state site alpha (alpha.defaultDiff) pre old diff post :=
      fileSet_reuse h.linked hf hp
    rw [hfiles, setSlot_stats_reuse hp]
    refine Exact.perm ?_ (reusedFiles_perm _ _ _ _ _ _ _ _).symm
    have hcomp := h.exact.compared
    have hcount := h.exact.counted
    rw [hf] at hcomp hcount
    refine ⟨fun f hfm => ?_, fun c => ?_, rfl⟩
    · rw [List.mem_append, List.mem_cons] at hfm
      rcases hfm with hfm | rfl | hfm
      · split_ifs at hfm with hex
        · obtain rfl := List.mem_singleton.mp hfm
          exact @compared_alone alpha _ _ (by simp [shovedEntry, hex])
            (by cases alpha <;> simp [shovedEntry, fresh, Slot.get, Slot.put, Slot.other])
            (by simp [shovedEntry])
        · simp at hfm
      · exact compared_reused hs hr
      · refine hcomp f ?_
        rw [List.mem_append] at hfm ⊢
        exact hfm.imp_right (List.mem_cons_of_mem old)
    · have hc := hcount c
      rw [update_get, increase_get]
      simp only [List.map_append, List.map_cons, List.sum_append, List.sum_cons] at hc ⊢
      split_ifs
      · simp only [increase_get, decrease_get, List.map_cons, List.map_nil, List.sum_cons,
          List.sum_nil]
        omega
      · simp only [decrease_get, List.map_nil, List.sum_nil]
        omega

/-- The entry that `file_set` returns is in the list it leaves. -/
theorem setSlot_mem (wl : WellLinked site) :
    (setSlot alpha type state site).2 ∈ (setSlot alpha type state site).1.files := by
  cases hp : choosePlacement type state site alpha.other with
  | create =>
    have hfiles : (setSlot alpha type state site).1.files =
        insertFile type (newEntry type state site alpha (alpha.defaultDiff)) site.files :=
      fileSet_create hp
    rw [hfiles, mem_insertFile]
    exact Or.inl (by simp [setSlot, fileSet, hp])
  | reuse old diff =>
    obtain ⟨pre, post, hf⟩ := List.append_of_mem (choosePlacement_reuse hp).mem
    have hfiles : (setSlot alpha type state site).1.files =
        reusedFiles state site alpha (alpha.defaultDiff) pre old diff post :=
      fileSet_reuse wl hf hp
    rw [hfiles, (reusedFiles_perm _ _ _ _ _ _ _ _).mem_iff, List.mem_append, List.mem_cons]
    exact Or.inr (Or.inl (by simp [setSlot, fileSet, hp, reusedEntry]))

end FileSet

/-! ### Fetched files -/

/-- Writing back an entry with the statistics moved accordingly. -/
theorem ExactSite.write {site : Site} (h : ExactSite site) {file g : SiteFile}
    (hm : file ∈ site.files) {st : Stats} (hb : Balanced site.opts file site.stats (some g) st) :
    ExactSite (write g { site with stats := st }) := by
  obtain ⟨pre, post, hf⟩ := List.append_of_mem hm
  have ha : g.addr = file.addr := (hb.entry g rfl).1
  have hw : (FileSet.write g { site with stats := st }).files = pre ++ g :: post :=
    write_files h.linked.nodup hf ha
  have hl := h.list
  rw [hf] at hl
  have hx := h.update (by simpa [hf] using hl.replace hb.exchanged)
  have he : FileSet.write g { site with stats := st } =
      { site with files := pre ++ g :: post, stats := st } := by
    rw [← hw]
    rfl
  rw [he]
  simpa using hx

theorem mungeModtime_balanced {o : SiteOptions} {file : SiteFile} {st : Stats} (mtime now : ℤ)
    (hc : Compared o file) (hf : siteStatsUpdate o st = st) :
    Balanced o file st (some (mungeModtime o file mtime now st).1)
      (mungeModtime o file mtime now st).2 := by
  unfold mungeModtime
  split_ifs
  all_goals first
    | exact Balanced.fileSetDiff ⟨rfl, rfl, rfl, rfl, rfl⟩
    | exact Balanced.keep hc hf

theorem fetchAddFile_exact {site : Site} (h : ExactSite site) (pf : ProtoFile) (now : ℤ) :
    ExactSite (fetchAddFile pf now site).1 := by
  have hs : ExactSite (fileSetStored (fetchedType pf.type) (fetchedState site.opts pf) site).1 :=
    @setSlot_exact _ _ _ .storedSlot h rfl
  have hm := @setSlot_mem (fetchedType pf.type) (fetchedState site.opts pf) _ .storedSlot h.linked
  have ho : (fileSetStored (fetchedType pf.type) (fetchedState site.opts pf) site).1.opts =
      site.opts := fileSet_opts
  rw [setSlot_stored] at hm
  unfold fetchAddFile
  generalize fileSetStored (fetchedType pf.type) (fetchedState site.opts pf) site = r at hs hm ho ⊢
  rw [← ho]
  have hb := mungeModtime_balanced pf.modtime now (hs.exact.compared r.2 hm) hs.exact.flags
  refine hs.write hm ?_
  dsimp only
  split_ifs
  · exact hb.server ⟨rfl, rfl, rfl, rfl, rfl⟩ rfl
  · exact hb

end Sitecopy.SiteStats
