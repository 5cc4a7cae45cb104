import Sitecopy.LinkedChanges
import Sitecopy.FileSetSpec

/-!
# The files list in memory

The nodes of the files list with their pointers, and what `file_insert`, `file_set` and
`file_delete` write to them. Nothing that is not allocated is read, and the list is the one
of the functions on lists.
-/
namespace Sitecopy.ListNodes
open SiteModel LinkedCells FileSetSpec
open FileSet (Slot Candidates Placement considerFile insertFile fresh write addStats dropStats
  updateStats newEntry shovedEntry)

/-- `files` and `files_tail` of a site, and its statistics. -/
structure NodeSite where
  opts : SiteOptions
  heap : Heap (Node SiteFile) := {}
  files : Option ℕ := none
  filesTail : Option ℕ := none
  stats : Stats := {}

/-- Write to the node at an address, whatever its links are. -/
def modify (a : ℕ) (g : SiteFile → SiteFile) (m : NodeSite) : Option NodeSite := do
  let n ← m.heap.get a
  let heap ← m.heap.set a { n with val := g n.val }
  pure { m with heap }

/-- `file_insert`. The new node is at the next free address. -/
def fileInsert (type : FileType) (m : NodeSite) : Option NodeSite :=
  let file := m.heap.size
  let cleared : SiteFile := { addr := file }
  match m.files with
  | none => some { m with
      heap := m.heap.alloc ⟨cleared, none, none⟩, files := some file, filesTail := some file }
  | some first =>
    if type = .dir then do
      let tail ← m.filesTail
      let heap ← m.heap.append (some tail) ⟨cleared, none, none⟩
      pure { m with heap, filesTail := some file }
    else do
      let heap ← m.heap.prepend (some first) cleared
      pure { m with heap, files := some file }

/-- `file_delete`. -/
def fileDelete (item : ℕ) (m : NodeSite) : Option NodeSite := do
  let n ← m.heap.get item
  let (heap, files, filesTail) ← m.heap.unlink m.files m.filesTail item
  pure { m with heap, files, filesTail, stats := FileSet.fileDelete m.opts n.val m.stats }

/-! ### `file_set` -/

/-- The search loop, with a bound on its turns. -/
def findCandidates (o : SiteOptions) (type : FileType) (state : FileState) (beta : Slot)
    (h : Heap (Node SiteFile)) : ℕ → Candidates → Option ℕ → Option Candidates
  | _, c, none => some c
  | 0, _, some _ => none
  | turns + 1, c, some file => do
    let n ← h.get file
    let c := considerFile o type state beta c n.val
    if c.direct.isSome ∧ c.moved.isSome ∧ c.frename.isSome then some c
    else findCandidates o type state beta h turns c n.next

/-- The decision, once the candidates are known. -/
def placementOf (o : SiteOptions) (type : FileType) (state : FileState) (beta : Slot)
    (c : Candidates) : Placement :=
  let moved := c.moved <|> c.frename
  match c.direct, moved with
  | none, none => .create
  | none, some m => .reuse m .moved
  | some d, none =>
    let dirDiff := fileCompare type state (beta.get d) o
    if d.diff = .moved ∧ dirDiff ≠ .unchanged then .create else .reuse d dirDiff
  | some d, some m =>
    let dirDiff := fileCompare type state (beta.get d) o
    if dirDiff ≠ .unchanged then .reuse m .moved else .reuse d dirDiff

/-- A state that is in the way goes to a new node. -/
def shove (alpha : Slot) (defaultDiff : FileDiff) (file : ℕ) (m : NodeSite) : Option NodeSite := do
  let n ← m.heap.get file
  if (alpha.get n.val).existing then
    let other := m.heap.size
    let m ← fileInsert n.val.type m
    let m ← modify other (fun f => alpha.put (alpha.get n.val)
      { f with type := n.val.type, diff := defaultDiff, ignore := n.val.ignore }) m
    let n' ← m.heap.get other
    pure { m with stats := siteStatsIncrease n'.val m.stats }
  else pure m

/-- The new state is written, and counted. -/
def finishSet (alpha : Slot) (state : FileState) (file : ℕ) (m : NodeSite) :
    Option (NodeSite × ℕ) := do
  let m ← modify file (alpha.put state) m
  let n ← m.heap.get file
  pure ({ m with stats := siteStatsUpdate m.opts (siteStatsIncrease n.val m.stats) }, file)

/-- `file_set`, with the address that it returns. -/
def fileSet (type : FileType) (state : FileState) (m : NodeSite) (alpha beta : Slot)
    (defaultDiff : FileDiff) : Option (NodeSite × ℕ) := do
  let c ← findCandidates m.opts type state beta m.heap m.heap.size {} m.files
  match placementOf m.opts type state beta c with
  | .create =>
    let file := m.heap.size
    let ignore := if type = .file then fileIsignored (state.filename.getD []) m.opts else false
    let m ← fileInsert type m
    let m ← modify file (fun f => { f with type, diff := defaultDiff, ignore }) m
    finishSet alpha state file m
  | .reuse old diff =>
    let m := { m with stats := siteStatsDecrease old m.stats }
    let m ← modify old.addr (fun f => { f with diff }) m
    let m ← shove alpha defaultDiff old.addr m
    finishSet alpha state old.addr m

/-! ### The list that the nodes are -/

/-- The nodes of a files list. -/
def cells (files : List SiteFile) : List (ℕ × SiteFile) := files.map fun f => (f.addr, f)

/-- The memory holds the site. -/
structure Refines (m : NodeSite) (site : Site) : Prop where
  opts : m.opts = site.opts
  stats : m.stats = site.stats
  linked : Linked m.heap m.files (cells site.files)
  tail : m.filesTail = lastAddr none (cells site.files)
  size : m.heap.size = site.freshAddr

@[simp] lemma cells_append (l l' : List SiteFile) : cells (l ++ l') = cells l ++ cells l' :=
  List.map_append

@[simp] lemma cells_cons (f : SiteFile) (l : List SiteFile) :
    cells (f :: l) = (f.addr, f) :: cells l := rfl

@[simp] lemma cells_nil : cells [] = [] := rfl

@[simp] lemma cells_eq_nil {l : List SiteFile} : cells l = [] ↔ l = [] := List.map_eq_nil_iff

section Refines
variable {m : NodeSite} {site : Site}

lemma Refines.wellLinked (h : Refines m site) : WellLinked site where
  nodup := by
    have hnd := Segment.nodup h.linked
    rwa [cells, List.map_map] at hnd
  bounded f hf := by
    rw [← h.size]
    exact h.linked.lt_size (List.mem_map_of_mem hf)

lemma Refines.get (h : Refines m site) {f : SiteFile} (hf : f ∈ site.files) :
    ∃ n, m.heap.get f.addr = some n ∧ n.val = f :=
  h.linked.get (List.mem_map_of_mem (f := fun f : SiteFile => (f.addr, f)) hf)

lemma Refines.modify (h : Refines m site) {f : SiteFile} (hf : f ∈ site.files)
    {g : SiteFile → SiteFile} (hg : (g f).addr = f.addr) :
    ∃ m', modify f.addr g m = some m' ∧ Refines m' (write (g f) site) := by
  obtain ⟨pre, post, hfiles⟩ := List.append_of_mem hf
  have hlinked := h.linked
  rw [hfiles, cells_append, cells_cons] at hlinked
  obtain ⟨n, heap, hget, hval, hset, hsize, hlinked'⟩ := hlinked.set_val (g f)
  have hwrite : (write (g f) site).files = pre ++ g f :: post :=
    write_files h.wellLinked.nodup hfiles hg
  refine ⟨{ m with heap }, ?_, h.opts, h.stats, ?_, ?_, hsize.trans h.size⟩
  · subst hval
    simp only [ListNodes.modify, hget, hset, Option.bind_eq_bind, Option.bind_some]
    rfl
  · rw [hwrite, cells_append, cells_cons, hg]
    exact hlinked'
  · rw [hwrite, h.tail, hfiles]
    exact lastAddr_congr (by simp [hg])

lemma Refines.insert (h : Refines m site) (type : FileType) :
    ∃ m', fileInsert type m = some m' ∧
      Refines m' (FileSet.fileInsert type (fresh site) site) := by
  have hfresh : fresh site = { addr := m.heap.size } := by rw [h.size]; rfl
  have hsize : m.heap.size + 1 = site.freshAddr + 1 := congrArg Nat.succ h.size
  have hlinked := h.linked
  cases hfiles : site.files with
  | nil =>
    rw [hfiles] at hlinked
    have hnull : m.files = none := hlinked
    let heap := m.heap.alloc ⟨{ addr := m.heap.size }, none, none⟩
    refine ⟨{ m with heap, files := some m.heap.size, filesTail := some m.heap.size }, ?_, h.opts,
      h.stats, ?_, ?_, (m.heap.size_alloc _).trans hsize⟩
    · simp only [fileInsert, hnull]
      rfl
    · simp only [FileSet.fileInsert, insertFile, hfiles, if_pos, hfresh]
      exact ⟨rfl, none, m.heap.get_alloc_size _, rfl⟩
    · simp only [FileSet.fileInsert, insertFile, hfiles, if_pos, hfresh]
      rfl
  | cons f rest =>
    have hne : site.files ≠ [] := by simp [hfiles]
    obtain ⟨first, hfirst⟩ : ∃ a, m.files = some a := by
      rw [hfiles] at hlinked
      exact ⟨f.addr, hlinked.1⟩
    by_cases hdir : type = .dir
    · obtain ⟨tail, htail⟩ : ∃ a, m.filesTail = some a := by
        apply Option.ne_none_iff_exists'.mp
        rw [h.tail]
        simpa [lastAddr_eq_none] using hne
      obtain ⟨heap, happ, hgrown, hlinked', -⟩ :=
        hlinked.append (n := ⟨{ addr := m.heap.size }, none, none⟩) rfl
      rw [← h.tail, htail] at happ
      rw [if_neg (by simpa using hne)] at hlinked'
      refine ⟨{ m with heap, filesTail := some m.heap.size }, ?_, h.opts, h.stats, ?_, ?_,
        hgrown.trans hsize⟩
      · simp only [fileInsert, hfirst, htail, happ, if_pos hdir, Option.bind_eq_bind,
          Option.bind_some]
        rfl
      · simp only [FileSet.fileInsert, insertFile, if_neg hne, if_pos hdir, hfresh, cells_append]
        exact hlinked'
      · simp only [FileSet.fileInsert, insertFile, if_neg hne, if_pos hdir, hfresh, cells_append,
          cells_cons, cells_nil, lastAddr_concat]
    · obtain ⟨heap, hpre, hgrown, hlinked', -⟩ := hlinked.prepend { addr := m.heap.size }
      rw [hfirst] at hpre
      refine ⟨{ m with heap, files := some m.heap.size }, ?_, h.opts, h.stats, ?_, ?_,
        hgrown.trans hsize⟩
      · simp only [fileInsert, hfirst, hpre, if_neg hdir, Option.bind_eq_bind, Option.bind_some]
        rfl
      · simp only [FileSet.fileInsert, insertFile, if_neg hne, if_neg hdir, hfresh, cells_cons]
        exact hlinked'
      · simp only [FileSet.fileInsert, insertFile, if_neg hne, if_neg hdir, cells_cons]
        rw [← List.singleton_append, lastAddr_append, if_neg (by simpa using hne)]
        exact h.tail

lemma Refines.withStats (h : Refines m site) (st : Stats) :
    Refines { m with stats := st } { site with stats := st } :=
  ⟨h.opts, rfl, h.linked, h.tail, h.size⟩

end Refines

/-! ### Writes, one after another -/

section Writes
variable {site : Site} {type : FileType} {file e other : SiteFile}

lemma insertFile_map (g : SiteFile → SiteFile) (type : FileType) (f : SiteFile)
    (files : List SiteFile) :
    (insertFile type f files).map g = insertFile type (g f) (files.map g) := by
  unfold insertFile
  simp only [List.map_eq_nil_iff]
  split_ifs <;> simp

lemma write_write (he : e.addr = file.addr) : write file (write e site) = write file site := by
  simp only [write, List.map_map]
  congr 1
  apply List.map_congr_left
  intro f _
  simp only [Function.comp_apply, he]
  split_ifs <;> simp_all

/-- A write over a node that was in the list before the insertion of another one. -/
lemma write_insert (he : e.addr = file.addr) :
    write file (FileSet.fileInsert type other (write e site)) =
      write file (FileSet.fileInsert type other site) := by
  have hfiles : (write file (write e site)).files = (write file site).files := by
    rw [write_write he]
  simp only [write] at hfiles
  simp only [write, FileSet.fileInsert, insertFile_map, hfiles]

/-- A new node that is filled. -/
lemma write_fresh (wl : WellLinked site) (ha : file.addr = site.freshAddr) :
    write file (FileSet.fileInsert type (fresh site) site) =
      FileSet.fileInsert type file site := by
  have hkeep : (site.files.map fun f => if f.addr = file.addr then file else f) = site.files := by
    apply (List.map_congr_left fun f hf => if_neg ?_).trans (List.map_id site.files)
    rw [ha]
    exact (wl.bounded f hf).ne
  simp only [write, FileSet.fileInsert, insertFile_map, hkeep]
  rw [if_pos (by rw [ha]; rfl)]

/-- A write over a new node. -/
lemma write_filled (wl : WellLinked site) (he : e.addr = site.freshAddr)
    (ha : file.addr = site.freshAddr) :
    write file (FileSet.fileInsert type e site) = FileSet.fileInsert type file site := by
  rw [← write_fresh wl he, write_write (he.trans ha.symm), write_fresh wl ha]

lemma mem_write {f : SiteFile} (hf : f ∈ site.files) (ha : f.addr = file.addr) :
    file ∈ (write file site).files :=
  List.mem_map.mpr ⟨f, hf, if_pos ha⟩

end Writes

/-! ### The functions on nodes -/

section Functions
variable {m : NodeSite} {site : Site}

lemma Refines.length_le (h : Refines m site) : site.files.length ≤ m.heap.size := by
  have hsub : site.files.map SiteFile.addr ⊆ List.range m.heap.size := by
    intro a ha
    obtain ⟨f, hf, rfl⟩ := List.mem_map.mp ha
    rw [h.size]
    exact List.mem_range.mpr (h.wellLinked.bounded f hf)
  have hlen := (List.subperm_of_subset h.wellLinked.nodup hsub).length_le
  rwa [List.length_map, List.length_range] at hlen

lemma findCandidates_eq (o : SiteOptions) (type : FileType) (state : FileState) (beta : Slot)
    {heap : Heap (Node SiteFile)} {files : List SiteFile} {prev p : Option ℕ} {turns : ℕ}
    (hseg : Segment heap prev p (cells files) none)
    (hturns : files.length ≤ turns) (c : Candidates) :
    findCandidates o type state beta heap turns c p =
      some (FileSet.findCandidates o type state beta c files) := by
  induction files generalizing prev p turns c with
  | nil =>
    obtain rfl : p = none := hseg
    cases turns <;> rfl
  | cons f files ih =>
    obtain ⟨turns, rfl⟩ : ∃ k, turns = k + 1 := ⟨turns - 1, by simp at hturns; omega⟩
    obtain ⟨rfl, next, hget, hrest⟩ := hseg
    simp only [findCandidates, hget, FileSet.findCandidates, Option.bind_eq_bind, Option.bind_some]
    split_ifs with hfound
    · rfl
    · exact ih hrest (by simpa using hturns) _

lemma Refines.finishSet (h : Refines m site) (alpha : Slot) (state : FileState) {f : SiteFile} (hf : f ∈ site.files) :
    ∃ m', finishSet alpha state f.addr m = some (m', f.addr) ∧
      Refines m' (updateStats (addStats (alpha.put state f) (write (alpha.put state f) site))) := by
  obtain ⟨m₁, hmod, h₁⟩ := h.modify hf (g := alpha.put state) (Slot.put_addr alpha state f)
  have hmem : alpha.put state f ∈ (write (alpha.put state f) site).files :=
    mem_write hf (by simp)
  obtain ⟨n, hget, hval⟩ := h₁.get hmem
  rw [FileSet.Slot.put_addr] at hget
  refine ⟨{ m₁ with stats := siteStatsUpdate m₁.opts (siteStatsIncrease n.val m₁.stats) }, ?_, ?_⟩
  · simp only [ListNodes.finishSet, hmod, hget, Option.bind_eq_bind, Option.bind_some]
    rfl
  · have hfinal := h₁.withStats (siteStatsUpdate m₁.opts (siteStatsIncrease n.val m₁.stats))
    rw [hval, h₁.opts, h₁.stats] at hfinal ⊢
    exact hfinal

/-- A new node that is filled through its pointer. -/
lemma Refines.fill (h : Refines m site) (type : FileType) {g : SiteFile → SiteFile}
    (hg : (g (fresh site)).addr = site.freshAddr) :
    ∃ m₁ m', fileInsert type m = some m₁ ∧ ListNodes.modify m.heap.size g m₁ = some m' ∧
      Refines m' (FileSet.fileInsert type (g (fresh site)) site) := by
  obtain ⟨m₁, hins, h₁⟩ := h.insert type
  have hmem : fresh site ∈ (FileSet.fileInsert type (fresh site) site).files :=
    mem_insertFile.mpr (Or.inl rfl)
  obtain ⟨m', hmod, h'⟩ := h₁.modify hmem (g := g) hg
  rw [write_fresh h.wellLinked hg] at h'
  rw [show (fresh site).addr = m.heap.size from h.size.symm] at hmod
  exact ⟨m₁, m', hins, hmod, h'⟩

/-- The site after the state in the way of a new one has gone to a node of its own. -/
def shovedSite (alpha : Slot) (defaultDiff : FileDiff) (f : SiteFile) (site : Site) : Site :=
  if (alpha.get f).existing then
    addStats (shovedEntry f site alpha defaultDiff)
      (FileSet.fileInsert f.type (shovedEntry f site alpha defaultDiff) site)
  else site

lemma mem_shoved {alpha : Slot} {defaultDiff : FileDiff} {f g : SiteFile} (hg : g ∈ site.files) :
    g ∈ (shovedSite alpha defaultDiff f site).files := by
  unfold shovedSite
  split_ifs
  · exact mem_insertFile.mpr (Or.inr hg)
  · exact hg

/-- The diff that `file_set` writes before it shoves is overwritten with the rest. -/
lemma write_shoved {alpha : Slot} {defaultDiff diff : FileDiff} {old : SiteFile}
    {state : FileState} :
    write (alpha.put state { old with diff }) (shovedSite alpha defaultDiff { old with diff }
        (write { old with diff } site)) =
      write (alpha.put state { old with diff }) (shovedSite alpha defaultDiff old site) := by
  have haddr : ({ old with diff } : SiteFile).addr =
      (alpha.put state { old with diff }).addr := by simp
  have hget : alpha.get { old with diff } = alpha.get old := by cases alpha <;> rfl
  have hentry : shovedEntry { old with diff } (write { old with diff } site) alpha defaultDiff =
      shovedEntry old site alpha defaultDiff := by cases alpha <;> rfl
  unfold shovedSite
  rw [hget, hentry]
  split_ifs
  · exact congrArg (addStats _) (write_insert haddr)
  · exact write_write haddr

lemma Refines.shove (h : Refines m site) (alpha : Slot) (defaultDiff : FileDiff) {f : SiteFile} (hf : f ∈ site.files) :
    ∃ m', shove alpha defaultDiff f.addr m = some m' ∧
      Refines m' (shovedSite alpha defaultDiff f site) := by
  unfold shovedSite
  obtain ⟨n, hget, hval⟩ := h.get hf
  by_cases hex : (alpha.get f).existing = true
  · let g := fun x : SiteFile => alpha.put (alpha.get f)
      { x with type := f.type, diff := defaultDiff, ignore := f.ignore }
    obtain ⟨m₁, m₂, hins, hmod, h₂⟩ := h.fill f.type (g := g) (by simp [g, fresh])
    have hmem : g (fresh site) ∈ (FileSet.fileInsert f.type (g (fresh site)) site).files :=
      mem_insertFile.mpr (Or.inl rfl)
    obtain ⟨n', hget', hval'⟩ := h₂.get hmem
    rw [show (g (fresh site)).addr = m.heap.size by simp [g, fresh, h.size]] at hget'
    refine ⟨{ m₂ with stats := siteStatsIncrease n'.val m₂.stats }, ?_, ?_⟩
    · simp only [ListNodes.shove, hget, hval, if_pos hex, hins, Option.bind_eq_bind,
        Option.bind_some]
      simp only [g] at hmod
      rw [hmod]
      simp only [hget', Option.bind_some]
      rfl
    · have hfinal := h₂.withStats (siteStatsIncrease n'.val m₂.stats)
      rw [hval', h₂.stats] at hfinal ⊢
      rw [if_pos hex]
      exact hfinal
  · refine ⟨m, ?_, ?_⟩
    · simp only [ListNodes.shove, hget, hval, hex, Option.bind_eq_bind, Option.bind_some]
      rfl
    · rwa [if_neg hex]

/-- `file_set` on nodes is `file_set` on lists. -/
theorem fileSet_refines (h : Refines m site) (type : FileType) (state : FileState)
    (alpha beta : Slot) (defaultDiff : FileDiff) :
    ∃ m', fileSet type state m alpha beta defaultDiff =
        some (m', (FileSet.fileSet type state site alpha beta defaultDiff).2.addr) ∧
      Refines m' (FileSet.fileSet type state site alpha beta defaultDiff).1 := by
  have hfind := findCandidates_eq m.opts type state beta h.linked h.length_le {}
  have hplace : placementOf m.opts type state beta
      (FileSet.findCandidates m.opts type state beta {} site.files) =
        FileSet.choosePlacement type state site beta := by
    rw [h.opts]
    rfl
  cases hp : FileSet.choosePlacement type state site beta with
  | create =>
    let ignore := if type = FileType.file then fileIsignored (state.filename.getD []) m.opts
      else false
    let g := fun x : SiteFile => { x with type := type, diff := defaultDiff, ignore := ignore }
    obtain ⟨m₁, m₂, hins, hmod, h₂⟩ := h.fill type (g := g) rfl
    have hmem : g (fresh site) ∈ (FileSet.fileInsert type (g (fresh site)) site).files :=
      mem_insertFile.mpr (Or.inl rfl)
    obtain ⟨m', hfin, h'⟩ := h₂.finishSet alpha state hmem
    have hnew : alpha.put state (g (fresh site)) = newEntry type state site alpha defaultDiff := by
      simp only [g, ignore, newEntry, h.opts]
    have haddr : (g (fresh site)).addr = m.heap.size := h.size.symm
    rw [write_filled h.wellLinked rfl (by simp [g, fresh]), hnew] at h'
    refine ⟨m', ?_, ?_⟩
    · simp only [fileSet, hfind, hplace, hp, hins, FileSet.fileSet, newEntry_addr,
        Option.bind_eq_bind, Option.bind_some]
      simp only [g, ignore] at hmod
      rw [hmod]
      rw [haddr, h.size] at hfin
      rw [h.size]
      exact hfin
    · simpa only [FileSet.fileSet, hp] using h'
  | reuse old diff =>
    have hold := (choosePlacement_reuse hp).mem
    let st := siteStatsDecrease old m.stats
    have h₀ : Refines { m with stats := st } (dropStats old site) := by
      have hdrop := h.withStats st
      rwa [show st = siteStatsDecrease old site.stats by rw [← h.stats]] at hdrop ⊢
    obtain ⟨m₁, hmod, h₁⟩ := h₀.modify hold (g := fun f => { f with diff }) rfl
    have hmem₁ : { old with diff } ∈ (write { old with diff } (dropStats old site)).files :=
      mem_write hold rfl
    obtain ⟨m₂, hshove, h₂⟩ := h₁.shove alpha defaultDiff hmem₁
    obtain ⟨m', hfin, h'⟩ := h₂.finishSet alpha state (mem_shoved hmem₁)
    rw [write_shoved] at h'
    refine ⟨m', ?_, ?_⟩
    · simp only [fileSet, hfind, hplace, hp, FileSet.fileSet, Slot.put_addr, Option.bind_eq_bind,
        Option.bind_some]
      rw [hmod]
      simp only [Option.bind_some]
      rw [hshove]
      exact hfin
    · simp only [FileSet.fileSet, hp]
      exact h'

/-- A site without the entry `f`. -/
def deleteFile (f : SiteFile) (site : Site) : Site :=
  { site with
    files := site.files.filter fun g => g.addr ≠ f.addr
    stats := FileSet.fileDelete site.opts f site.stats }

lemma deleteFile_files (wl : WellLinked site) {f : SiteFile} {pre post : List SiteFile}
    (hfiles : site.files = pre ++ f :: post) : (deleteFile f site).files = pre ++ post := by
  have hnd := wl.nodup
  rw [hfiles, List.map_append, List.map_cons] at hnd
  obtain ⟨-, hpost, hpre⟩ := List.nodup_append.mp hnd
  have hpre' : pre.filter (fun g => g.addr ≠ f.addr) = pre := by
    apply List.filter_eq_self.mpr
    intro g hg
    simpa using hpre _ (List.mem_map_of_mem hg) _ List.mem_cons_self
  have hpost' : post.filter (fun g => g.addr ≠ f.addr) = post := by
    apply List.filter_eq_self.mpr
    intro g hg
    have hne : g.addr ≠ f.addr := fun heq =>
      (List.nodup_cons.mp hpost).1 (heq ▸ List.mem_map_of_mem hg)
    simpa using hne
  rw [deleteFile, hfiles, List.filter_append, List.filter_cons, hpre', hpost']
  simp

/-- `file_delete` on nodes takes the entry off the list. -/
theorem fileDelete_refines (h : Refines m site) {f : SiteFile} (hf : f ∈ site.files) :
    ∃ m', fileDelete f.addr m = some m' ∧ Refines m' (deleteFile f site) := by
  obtain ⟨pre, post, hfiles⟩ := List.append_of_mem hf
  obtain ⟨n, hget, hval⟩ := h.get hf
  have hlinked := h.linked
  rw [hfiles, cells_append, cells_cons] at hlinked
  obtain ⟨heap, files, hunlink, hsize, hlinked'⟩ := hlinked.unlink
  have hrest := deleteFile_files h.wellLinked hfiles
  have htail := h.tail
  rw [hfiles, cells_append, cells_cons] at htail
  rw [← htail] at hunlink
  let m' : NodeSite := { m with
    heap := heap
    files := files
    filesTail := lastAddr none (cells pre ++ cells post)
    stats := FileSet.fileDelete m.opts f m.stats }
  refine ⟨m', ?_, h.opts, ?_, ?_, ?_, hsize.trans h.size⟩
  · simp only [fileDelete, hget, hval, hunlink, Option.bind_eq_bind, Option.bind_some]
    rfl
  · simp only [m', deleteFile, h.opts, h.stats]
  · rw [hrest, cells_append]
    exact hlinked'
  · rw [hrest, cells_append]

end Functions

end Sitecopy.ListNodes
