import Sitecopy.ChainedCells
import Sitecopy.FtpTransfer

/-!
# The list of a listing

`ls_pflist_add` pushes files at the front and directories at the back of one list, for which
it keeps a pointer to the last node.
-/
namespace Sitecopy.ListingNodes
open SiteModel SiteOperations LinkedCells ChainedCells
open FtpTransfer (LsResult PfList)

/-- `*list`, `*tail` and the memory of the nodes. -/
structure PfPointers where
  heap : Heap (Link ProtoFile) := {}
  list : Option ℕ := none
  tail : Option ℕ := none

/-- A cleared node. -/
def cleared : Link ProtoFile := ⟨{ filename := [], type := .file }, none⟩

/-- `ls_pflist_add`. -/
def lsPflistAdd (m : PfPointers) (result : LsResult) : Option PfPointers := do
  let pf := m.heap.size
  let heap := m.heap.alloc cleared
  match result with
  | .file filename mode size =>
    let heap ← heap.set pf ⟨{ filename, mode, type := .file, size }, m.list⟩
    pure { heap, list := some pf, tail := if m.tail = none then some pf else m.tail }
  | .directory filename mode =>
    let heap ← heap.set pf ⟨{ filename, mode, type := .dir }, none⟩
    match m.tail with
    | none => pure { heap, list := some pf, tail := some pf }
    | some tail =>
      let last ← heap.get tail
      let heap ← heap.set tail { last with next := some pf }
      pure { heap, list := m.list, tail := some pf }
  | .nothing | .error =>
    let heap ← heap.free pf
    pure { m with heap }

/-- The list holds these nodes and the tail is its last one. -/
structure Collected (m : PfPointers) (cells : List (ℕ × ProtoFile)) : Prop where
  chain : Chain m.heap m.list cells
  tail : m.tail = lastAddr none cells

/-- The node of a file. -/
def fileEntry : LsResult → Option ProtoFile
  | .file filename mode size => some { filename, mode, type := .file, size }
  | _ => none

/-- The node of a directory. -/
def directoryEntry : LsResult → Option ProtoFile
  | .directory filename mode => some { filename, mode, type := .dir }
  | _ => none

/-- What a result adds to a list of nodes. -/
def addEntry (l : List ProtoFile) (r : LsResult) : List ProtoFile :=
  (fileEntry r).toList ++ l ++ (directoryEntry r).toList

section Step
variable {m : PfPointers} {cells : List (ℕ × ProtoFile)}

lemma Collected.empty : Collected {} [] := ⟨rfl, rfl⟩

lemma Collected.file (h : Collected m cells) (filename : Text) (mode : UInt32) (size : ℤ) :
    ∃ m', lsPflistAdd m (.file filename mode size) = some m' ∧
      Collected m' ((m.heap.size, { filename, mode, type := .file, size }) :: cells) := by
  obtain ⟨heap, hset, _, hchain⟩ := h.chain.prepend cleared { filename, mode, type := .file, size }
  let m' : PfPointers :=
    { heap, list := some m.heap.size, tail := if m.tail = none then some m.heap.size else m.tail }
  refine ⟨m', ?_, hchain, ?_⟩
  · simp only [lsPflistAdd, hset, Option.bind_eq_bind, Option.bind_some]
    rfl
  · have hnone : m.tail = none ↔ cells = [] := by rw [h.tail, lastAddr_eq_none]
    rw [← List.singleton_append, lastAddr_append, ← h.tail]
    simp only [m', hnone]
    rfl

lemma Collected.directory (h : Collected m cells) (filename : Text) (mode : UInt32) :
    ∃ m', lsPflistAdd m (.directory filename mode) = some m' ∧
      Collected m' (cells ++ [(m.heap.size, { filename, mode, type := .dir })]) := by
  obtain ⟨heap, hset, hsize, hnew, hkeep⟩ := Heap.set_cases (m.heap.get_alloc_size cleared)
    ⟨{ filename, mode, type := .dir }, none⟩
  have hchain : Chain heap m.list cells := by
    refine h.chain.frame fun c hc => ?_
    have hlt := h.chain.lt_size hc
    rw [hkeep _ hlt.ne, m.heap.get_alloc_lt cleared hlt]
  cases cells using List.reverseRecOn with
  | nil =>
    have htail : m.tail = none := h.tail
    refine ⟨{ heap, list := some m.heap.size, tail := some m.heap.size }, ?_, ?_⟩
    · simp only [lsPflistAdd, hset, htail, Option.bind_eq_bind, Option.bind_some]
      rfl
    · exact ⟨⟨rfl, none, hnew, rfl⟩, rfl⟩
  | append_singleton cells c =>
    obtain ⟨a, pf⟩ := c
    have htail : m.tail = some a := by rw [h.tail, lastAddr_concat]
    have hfresh : ∀ c ∈ cells ++ [(a, pf)], c.1 ≠ m.heap.size :=
      fun c hc => (h.chain.lt_size hc).ne
    obtain ⟨last, heap', hget, hlink, _, hchain'⟩ := hchain.append hnew hfresh
    refine ⟨{ heap := heap', list := m.list, tail := some m.heap.size }, ?_, hchain', ?_⟩
    · simp only [lsPflistAdd, hset, htail, hget, hlink, Option.bind_eq_bind, Option.bind_some]
      rfl
    · rw [lastAddr_concat]

/-- The node is freed again. -/
lemma Collected.neither (h : Collected m cells) {r : LsResult} (hr : r = .nothing ∨ r = .error) :
    ∃ m', lsPflistAdd m r = some m' ∧ m'.list = m.list ∧ m'.tail = m.tail ∧
      Collected m' cells := by
  obtain ⟨heap, hfree, _, _, hkeep⟩ := Heap.free_cases (m.heap.get_alloc_size cleared)
  have hchain : Chain heap m.list cells := by
    refine h.chain.frame fun c hc => ?_
    have hlt := h.chain.lt_size hc
    rw [hkeep _ hlt.ne, m.heap.get_alloc_lt cleared hlt]
  refine ⟨{ m with heap }, ?_, rfl, rfl, hchain, h.tail⟩
  rcases hr with rfl | rfl
  all_goals
    simp only [lsPflistAdd, hfree, Option.bind_eq_bind, Option.bind_some]
    rfl

lemma Collected.add (h : Collected m cells) (r : LsResult) :
    ∃ m' cells', lsPflistAdd m r = some m' ∧ Collected m' cells' ∧
      cells'.map Prod.snd = addEntry (cells.map Prod.snd) r := by
  cases r with
  | file filename mode size =>
    obtain ⟨m', hadd, hm'⟩ := h.file filename mode size
    exact ⟨m', _, hadd, hm', by simp [addEntry, fileEntry, directoryEntry]⟩
  | directory filename mode =>
    obtain ⟨m', hadd, hm'⟩ := h.directory filename mode
    exact ⟨m', _, hadd, hm', by simp [addEntry, fileEntry, directoryEntry]⟩
  | nothing =>
    obtain ⟨m', hadd, _, _, hm'⟩ := h.neither (Or.inl rfl)
    exact ⟨m', _, hadd, hm', by simp [addEntry, fileEntry, directoryEntry]⟩
  | error =>
    obtain ⟨m', hadd, _, _, hm'⟩ := h.neither (Or.inr rfl)
    exact ⟨m', _, hadd, hm', by simp [addEntry, fileEntry, directoryEntry]⟩

end Step

/-! ### Whole listings -/

lemma foldl_addEntry (results : List LsResult) (l : List ProtoFile) :
    results.foldl addEntry l =
      (results.filterMap fileEntry).reverse ++ l ++ results.filterMap directoryEntry := by
  induction results generalizing l with
  | nil => simp
  | cons r results ih =>
    rw [List.foldl_cons, ih, addEntry, List.filterMap_cons, List.filterMap_cons]
    cases r <;> simp [fileEntry, directoryEntry]

lemma Collected.foldlM {m : PfPointers} {cells : List (ℕ × ProtoFile)} (h : Collected m cells)
    (results : List LsResult) :
    ∃ m' cells', results.foldlM lsPflistAdd m = some m' ∧ Collected m' cells' ∧
      cells'.map Prod.snd = results.foldl addEntry (cells.map Prod.snd) := by
  induction results generalizing m cells with
  | nil => exact ⟨m, cells, rfl, h, rfl⟩
  | cons r results ih =>
    obtain ⟨m₁, cells₁, hadd, h₁, hcells₁⟩ := h.add r
    obtain ⟨m₂, cells₂, hrest, h₂, hcells₂⟩ := ih h₁
    refine ⟨m₂, cells₂, ?_, h₂, ?_⟩
    · rw [List.foldlM_cons, hadd]
      exact hrest
    · rw [hcells₂, hcells₁, List.foldl_cons]

/-- A listing is collected without loss, whatever its lines are. -/
theorem listing_collected (results : List LsResult) :
    ∃ m cells, results.foldlM lsPflistAdd {} = some m ∧ Chain m.heap m.list cells ∧
      cells.map Prod.snd =
        (results.filterMap fileEntry).reverse ++ results.filterMap directoryEntry ∧
      m.tail = lastAddr none cells ∧ (m.tail = none ↔ m.list = none) ∧
      ∀ r, fileEntry r = none → directoryEntry r = none →
        ∃ m', lsPflistAdd m r = some m' ∧ m'.list = m.list ∧ m'.tail = m.tail ∧
          Chain m'.heap m'.list cells := by
  obtain ⟨m, cells, hrun, hm, hcells⟩ := Collected.empty.foldlM results
  refine ⟨m, cells, hrun, hm.chain, ?_, hm.tail, ?_, ?_⟩
  · rw [hcells, foldl_addEntry]
    simp
  · rw [hm.tail, lastAddr_eq_none, hm.chain.eq_none_iff]
  · intro r hfile hdirectory
    have hr : r = .nothing ∨ r = .error := by
      cases r <;> simp [fileEntry, directoryEntry] at hfile hdirectory ⊢
    obtain ⟨m', hadd, hlist, htail, hm'⟩ := hm.neither hr
    exact ⟨m', hadd, hlist, htail, hm'.chain⟩

/-! ### The list without its nodes -/

/-- The nodes are those of a list whose tail is counted from its end. -/
def Stands (m : PfPointers) (l : PfList) : Prop :=
  ∃ cells, Collected m cells ∧ cells.map Prod.snd = l.list ∧
    l.tail = if l.list = [] then none else some 0

lemma lsPflistAdd_list {l : PfList} (h : l.tail = if l.list = [] then none else some 0)
    (r : LsResult) : (FtpTransfer.lsPflistAdd l r).list = addEntry l.list r ∧
      (FtpTransfer.lsPflistAdd l r).tail =
        if (FtpTransfer.lsPflistAdd l r).list = [] then none else some 0 := by
  by_cases hl : l.list = []
  · rw [if_pos hl] at h
    cases r <;>
      simp [FtpTransfer.lsPflistAdd, addEntry, fileEntry, directoryEntry, h, hl]
  · rw [if_neg hl] at h
    cases r <;>
      simp [FtpTransfer.lsPflistAdd, addEntry, fileEntry, directoryEntry, h, hl]

/-- What `ls_pflist_add` does to its nodes is what it does to the list. -/
theorem lsPflistAdd_refines {m : PfPointers} {l : PfList} (h : Stands m l) (r : LsResult) :
    ∃ m', lsPflistAdd m r = some m' ∧ Stands m' (FtpTransfer.lsPflistAdd l r) := by
  obtain ⟨cells, hm, hcells, htail⟩ := h
  obtain ⟨m', cells', hadd, hm', hcells'⟩ := hm.add r
  obtain ⟨hlist, htail'⟩ := lsPflistAdd_list htail r
  exact ⟨m', hadd, cells', hm', by rw [hcells', hcells, hlist], htail'⟩

end Sitecopy.ListingNodes
