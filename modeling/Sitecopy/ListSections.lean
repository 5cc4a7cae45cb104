import Sitecopy.ListNodes

/-!
# The two sections of the files list

Whatever `file_set` and `file_delete` do, the nodes are one list that can be walked both
ways. Its directories come last, in the order in which they were inserted. The passes of an
update and of a synch rely on that.
-/
namespace Sitecopy.ListSections
open SiteModel LinkedCells FileSetSpec ListNodes
open FileSet (Slot insertFile choosePlacement newEntry)

/-- A call that changes the nodes of the list. -/
inductive Operation
  | setLocal (type : FileType) (state : FileState)
  | setStored (type : FileType) (state : FileState)
  | delete (item : ℕ)

/-- Only what is in the list is deleted. -/
def Operation.Allowed (files : List SiteFile) : Operation → Prop
  | .setLocal _ _ | .setStored _ _ => True
  | .delete item => item ∈ files.map SiteFile.addr

def Operation.exec (m : NodeSite) : Operation → Option NodeSite
  | .setLocal type state => (fileSet type state m .localSlot .storedSlot .new).map Prod.fst
  | .setStored type state => (fileSet type state m .storedSlot .localSlot .deleted).map Prod.fst
  | .delete item => fileDelete item m

/-- `files` and `files_tail` are the ends of this list, or both null. -/
structure Listed (m : NodeSite) (files : List SiteFile) : Prop where
  null : m.files = none ↔ files = []
  nullTail : m.filesTail = none ↔ files = []
  linked : Linked m.heap m.files (cells files)
  tail : m.filesTail = lastAddr none (cells files)
  inverse : ∀ f ∈ files, ∀ g ∈ files, ∀ n n', m.heap.get f.addr = some n →
    m.heap.get g.addr = some n' → (n.next = some g.addr ↔ n'.prev = some f.addr)

/-- No directory precedes an entry that is none. -/
def Sectioned (files : List SiteFile) : Prop :=
  files.Pairwise fun f g => f.type = .dir → g.type = .dir

/-- Addresses are given out in increasing order. -/
def DirsInOrder (files : List SiteFile) : Prop :=
  files.Pairwise fun f g => f.type = .dir → g.type = .dir → f.addr < g.addr

/-- A node without its states. -/
def nodeKey (f : SiteFile) : ℕ × FileType := (f.addr, f.type)

/-- The place of a new node of a type. -/
def insertKey (type : FileType) (addr : ℕ) (keys : List (ℕ × FileType)) : List (ℕ × FileType) :=
  if type = .dir then keys ++ [(addr, type)] else (addr, type) :: keys

/-- What an operation does to the nodes, where `next` is the next free address: none is new,
or one is; or one is gone. -/
def Operation.Changes (next : ℕ) (files files' : List SiteFile) : Operation → Prop
  | .setLocal type _ | .setStored type _ =>
    files'.map nodeKey = files.map nodeKey ∨
      files'.map nodeKey = insertKey type next (files.map nodeKey)
  | .delete item => files' = files.filter fun f => f.addr ≠ item

section Steps
variable {m : NodeSite} {site : Site} {files : List SiteFile}

lemma listed_of_refines (h : Refines m site) : Listed m site.files where
  null := by
    have hlinked := h.linked
    cases hfiles : site.files with
    | nil =>
      rw [hfiles] at hlinked
      exact iff_of_true hlinked rfl
    | cons f rest =>
      rw [hfiles] at hlinked
      simp [hlinked.1]
  nullTail := by rw [h.tail, lastAddr_eq_none, cells_eq_nil]
  linked := h.linked
  tail := h.tail
  inverse f hf g hg n n' hn hn' :=
    h.linked.next_iff_prev (List.mem_map_of_mem hf) (List.mem_map_of_mem hg) hn hn'

/-- The nodes determine the list. -/
lemma Listed.eq_files (hl : Listed m files) (h : Refines m site) : files = site.files := by
  have hmap : ∀ l : List SiteFile, (cells l).map Prod.snd = l := by
    intro l
    rw [cells, List.map_map]
    exact List.map_id l
  rw [← hmap files, hl.linked.unique h.linked, hmap]

lemma insertFile_keys (type : FileType) (f : SiteFile) (hf : f.type = type) :
    (insertFile type f files).map nodeKey = insertKey type f.addr (files.map nodeKey) := by
  unfold insertFile insertKey
  split_ifs with hnil hdir hdir
  · simp [hnil, nodeKey, hf]
  · simp [hnil, nodeKey, hf]
  · simp [nodeKey, hf]
  · simp [nodeKey, hf]

lemma fileSet_keys (wl : WellLinked site) (type : FileType) (state : FileState) (alpha beta : Slot)
    (defaultDiff : FileDiff) :
    (FileSet.fileSet type state site alpha beta defaultDiff).1.files.map nodeKey =
        site.files.map nodeKey ∨
      (FileSet.fileSet type state site alpha beta defaultDiff).1.files.map nodeKey =
        insertKey type site.freshAddr (site.files.map nodeKey) := by
  cases hp : choosePlacement type state site beta with
  | create =>
    right
    rw [fileSet_create hp, insertFile_keys type _ (by simp [newEntry]), newEntry_addr]
  | reuse old diff =>
    have hr := choosePlacement_reuse hp
    obtain ⟨pre, post, hfiles⟩ := List.append_of_mem hr.mem
    have hkeys : (pre ++ reusedEntry state alpha old diff :: post).map nodeKey =
        site.files.map nodeKey := by
      rw [hfiles]
      simp [nodeKey, reusedEntry]
    rw [fileSet_reuse wl hfiles hp, reusedFiles]
    split_ifs
    · right
      rw [hr.type_eq, insertFile_keys type _ (by simp [FileSet.shovedEntry, hr.type_eq]),
        shovedEntry_addr, hkeys]
    · exact Or.inl hkeys

/-- An operation that is allowed runs, and does to the list what it should. -/
lemma exec_refines (h : Refines m site) (op : Operation) (hop : op.Allowed site.files) :
    ∃ m' site', op.exec m = some m' ∧ Refines m' site' ∧
      op.Changes m.heap.size site.files site'.files := by
  cases op with
  | setLocal type state =>
    obtain ⟨m', hrun, h'⟩ := fileSet_refines h type state .localSlot .storedSlot .new
    have hkeys := fileSet_keys h.wellLinked type state .localSlot .storedSlot .new
    rw [← h.size] at hkeys
    exact ⟨m', _, by rw [Operation.exec, hrun]; rfl, h', hkeys⟩
  | setStored type state =>
    obtain ⟨m', hrun, h'⟩ := fileSet_refines h type state .storedSlot .localSlot .deleted
    have hkeys := fileSet_keys h.wellLinked type state .storedSlot .localSlot .deleted
    rw [← h.size] at hkeys
    exact ⟨m', _, by rw [Operation.exec, hrun]; rfl, h', hkeys⟩
  | delete item =>
    obtain ⟨f, hf, rfl⟩ := List.mem_map.mp hop
    obtain ⟨m', hrun, h'⟩ := fileDelete_refines h hf
    exact ⟨m', _, hrun, h', rfl⟩

end Steps

/-! ### The order of the nodes -/

/-- The order of the nodes, of which only their keys matter. -/
structure Ordered (files : List SiteFile) : Prop where
  sectioned : Sectioned files
  dirsInOrder : DirsInOrder files

section Order
variable {files files' : List SiteFile}

lemma ordered_iff : Ordered files ↔ (files.map nodeKey).Pairwise fun k l =>
    k.2 = .dir → l.2 = .dir ∧ k.1 < l.1 := by
  rw [List.pairwise_map]
  constructor
  · intro h
    apply (h.sectioned.and h.dirsInOrder).imp
    rintro f g ⟨hsection, horder⟩ hf
    exact ⟨hsection hf, horder hf (hsection hf)⟩
  · intro h
    exact ⟨h.imp fun hk hf => (hk hf).1, h.imp fun hk hf _ => (hk hf).2⟩

lemma Ordered.congr (h : Ordered files) (hkeys : files'.map nodeKey = files.map nodeKey) :
    Ordered files' := by
  rw [ordered_iff] at h ⊢
  rwa [hkeys]

/-- A new directory has the highest address, and comes last. -/
lemma Ordered.insert (h : Ordered files) {type : FileType} {next : ℕ}
    (hnext : ∀ f ∈ files, f.addr < next)
    (hkeys : files'.map nodeKey = insertKey type next (files.map nodeKey)) : Ordered files' := by
  rw [ordered_iff] at h ⊢
  rw [hkeys, insertKey]
  split_ifs with hdir
  · apply List.pairwise_append.mpr ⟨h, List.pairwise_singleton _ _, ?_⟩
    intro k hk l hl _
    obtain ⟨f, hf, rfl⟩ := List.mem_map.mp hk
    rw [List.mem_singleton.mp hl]
    exact ⟨hdir, hnext f hf⟩
  · exact List.pairwise_cons.mpr ⟨fun k _ hnew => absurd hnew hdir, h⟩

lemma Ordered.changes (h : Ordered files) {next : ℕ} (hnext : ∀ f ∈ files, f.addr < next)
    {op : Operation} (hop : op.Changes next files files') : Ordered files' := by
  cases op with
  | setLocal type state | setStored type state =>
    rcases hop with hkeys | hkeys
    · exact h.congr hkeys
    · exact h.insert hnext hkeys
  | delete item =>
    obtain rfl := hop
    exact ⟨h.sectioned.filter _, h.dirsInOrder.filter _⟩

end Order

/-! ### Every list that the operations build -/

/-- What any sequence of operations makes of the empty list. -/
inductive Built (o : SiteOptions) : NodeSite → Prop
  | empty : Built o { opts := o }
  | step {m m' : NodeSite} {files : List SiteFile} (op : Operation) : Built o m →
      Listed m files → op.Allowed files → op.exec m = some m' → Built o m'

lemma refines_empty (o : SiteOptions) : Refines { opts := o } { opts := o } :=
  ⟨rfl, rfl, rfl, rfl, rfl⟩

theorem Built.refines {o : SiteOptions} {m : NodeSite} (h : Built o m) :
    ∃ site, Refines m site ∧ Ordered site.files := by
  induction h with
  | empty => exact ⟨_, refines_empty o, .nil, .nil⟩
  | @step m m' files op _ hlisted hallowed hexec ih =>
    obtain ⟨site, hm, hordered⟩ := ih
    obtain rfl := hlisted.eq_files hm
    obtain ⟨m₁, site', hrun, hm', hchanges⟩ := exec_refines hm op hallowed
    obtain rfl := Option.some.inj (hrun.symm.trans hexec)
    have hnext : ∀ f ∈ site.files, f.addr < m.heap.size := by
      rw [hm.size]
      exact hm.wellLinked.bounded
    exact ⟨site', hm', hordered.changes hnext hchanges⟩

/-- The nodes are always one well-formed list in two sections, and the next operation runs and
touches no other node. -/
theorem files_list_well_formed {o : SiteOptions} {m : NodeSite} (h : Built o m) :
    ∃ files, Listed m files ∧ Sectioned files ∧ DirsInOrder files ∧
      ∀ op : Operation, op.Allowed files → ∃ m' files', op.exec m = some m' ∧
        Listed m' files' ∧ op.Changes m.heap.size files files' := by
  obtain ⟨site, hm, hordered⟩ := h.refines
  refine ⟨site.files, listed_of_refines hm, hordered.sectioned, hordered.dirsInOrder, ?_⟩
  intro op hop
  obtain ⟨m', site', hrun, hm', hchanges⟩ := exec_refines hm op hop
  exact ⟨m', site'.files, hrun, listed_of_refines hm', hchanges⟩

/-- A list with one directory. -/
def oneDirectory : NodeSite where
  opts := {}
  heap := ⟨[some ⟨{ addr := 0, diff := .new, type := .dir, localState := { existing := true } },
    none, none⟩]⟩
  files := some 0
  filesTail := some 0
  stats := { numnew := 1, remoteIsDifferent := true, localIsDifferent := true }

theorem files_list_well_formed_directory :
    ∃ files, Listed oneDirectory files ∧ Sectioned files ∧ DirsInOrder files ∧
      ∀ op : Operation, op.Allowed files → ∃ m' files', op.exec oneDirectory = some m' ∧
        Listed m' files' ∧ op.Changes oneDirectory.heap.size files files' :=
  files_list_well_formed (o := {}) (.step (.setLocal .dir { existing := true }) .empty
    (listed_of_refines (refines_empty {})) trivial rfl)

end Sitecopy.ListSections
