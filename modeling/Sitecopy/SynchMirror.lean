import Sitecopy.LocalSynch
import Sitecopy.UpdateMirror

/-!
# Synchs mirror the remote tree

A synch turns the local tree into the one that the list has stored. It makes directories before
it removes files, so no path may lead to a file in one tree and to a directory in the other.
-/
namespace Sitecopy.SynchMirror
open SiteModel FileSet FileSetSpec StateProgram SiteUpdate UpdateAccounting ReachedFiles
open HiddenPaths DirectoryLists DirectoryOrder FileTrees Paths RemoteTree UpdateMirror LocalSynch

variable {β : Type}

/-! ### The local tree -/

/-- The change that a call on local files makes. -/
def localChange (o : SiteOptions) : LocalCall → Option (Change UInt8 β)
  | .mkdir path _ => (relative o.localRoot path).map .mkdir
  | .chmod path _ | .utime path _ => (relative o.localRoot path).map .chmod
  | .unlink path => (relative o.localRoot path).map .unlink
  | .rename src dst => do
    let src ← relative o.localRoot src
    let dst ← relative o.localRoot dst
    pure (.rename src dst)
  | .rmdir path => (relative o.localRoot path).map .rmdir

/-- The change that a download makes, with the contents from the remote tree. -/
def downloadChange (o : SiteOptions) (remote : Tree UInt8 β) (loc path : Text) :
    Option (Change UInt8 β) := do
  let loc ← relative o.localRoot loc
  let path ← relative o.remoteRoot path
  match remote path with
  | some (.file c) => pure (.write loc c)
  | _ => none

open Classical in
/-- A change that is not possible fails, and changes nothing. -/
noncomputable def attempt (t : Tree UInt8 β) : Option (Change UInt8 β) → Bool × Tree UInt8 β
  | some change => if change.Enabled slash t then (true, change.effect t) else (false, t)
  | none => (false, t)

/-- A driver that serves the files of a remote tree, and the C library over the local tree. -/
noncomputable def localDriver (o : SiteOptions) (remote : Tree UInt8 β) :
    SynchEnv (Tree UInt8 β) where
  driver c t :=
    match c with
    | .init | .finish | .error => (SITE_OK, t)
    | .fileDownload loc path _ =>
      let r := attempt t (downloadChange o remote loc path)
      (if r.1 then SITE_OK else SITE_FAILED, r.2)
  local' c t := attempt t (localChange o c)

section Driver
variable {o : SiteOptions} {remote t : Tree UInt8 β} {change : Change UInt8 β}
  {request : Option (Change UInt8 β)}

lemma attempt_enabled (h : change.Enabled slash t) :
    attempt t (some change) = (true, change.effect t) := by
  unfold attempt
  exact if_pos h

/-- An attempt fails, or makes its change. -/
lemma attempt_cases (t : Tree UInt8 β) (request : Option (Change UInt8 β)) :
    attempt t request = (false, t) ∨ ∃ change, request = some change ∧ change.Enabled slash t ∧
      attempt t request = (true, change.effect t) := by
  cases request with
  | none => exact Or.inl rfl
  | some change =>
    by_cases h : change.Enabled slash t
    · exact Or.inr ⟨change, rfl, h, attempt_enabled h⟩
    · left
      unfold attempt
      exact if_neg h

lemma attempt_disabled (h : ∀ change, request = some change → ¬ change.Enabled slash t) :
    attempt t request = (false, t) := by
  rcases attempt_cases t request with hno | ⟨change, hrequest, henabled, -⟩
  · exact hno
  · exact absurd henabled (h change hrequest)

end Driver

/-! ### The changes of a synch -/

def storedDir (f : SiteFile) : Prop := f.type = .dir ∧ f.diff = .deleted

def localDir (f : SiteFile) : Prop := f.type = .dir ∧ f.diff = .new

/-- A file that is downloaded, removed or given its permissions. -/
def synchedFile (f : SiteFile) : Prop :=
  f.type = .file ∧ (f.diff = .changed ∨ f.diff = .deleted ∨ f.diff = .new)

instance : DecidablePred storedDir := fun _ => inferInstanceAs (Decidable (_ ∧ _))

instance : DecidablePred localDir := fun _ => inferInstanceAs (Decidable (_ ∧ _))

instance : DecidablePred synchedFile := fun _ => inferInstanceAs (Decidable (_ ∧ _))

/-- A download, and what is set afterwards. -/
def downloadChanges (o : SiteOptions) (remote : Tree UInt8 β) (f : SiteFile) :
    List (Change UInt8 β) :=
  match remote (storedName f) with
  | some (.file c) =>
    .write (storedName f) c ::
      ((if o.stateMethod = .timesize then [.chmod (storedName f)] else []) ++
        if filePermsChanged o f then [.chmod (storedName f)] else [])
  | _ => []

def makeDirChanges (f : SiteFile) : List (Change UInt8 β) :=
  if storedDir f then [.mkdir (storedName f)] else []

def fileChanges (o : SiteOptions) (remote : Tree UInt8 β) (f : SiteFile) :
    List (Change UInt8 β) :=
  if synchedFile f then
    if f.diff = .new then [.unlink (localName f)]
    else if f.diff = .changed ∧ fileContentsChanged o f = false then [.chmod (storedName f)]
    else downloadChanges o remote f
  else []

def removeDirChanges (f : SiteFile) : List (Change UInt8 β) :=
  if localDir f then [.rmdir (localName f)] else []

/-- The name under which a file is dealt with. -/
def synchName (f : SiteFile) : Text := if f.diff = .new then localName f else storedName f

/-- All changes, in their order. -/
def synchChanges (o : SiteOptions) (remote : Tree UInt8 β) (files : List SiteFile) :
    List (Change UInt8 β) :=
  files.flatMap makeDirChanges ++ files.flatMap (fileChanges o remote) ++
    files.reverse.flatMap removeDirChanges

section Plan
variable {o : SiteOptions} {files : List SiteFile} {L R t : Tree UInt8 β} {n : Text}
  {f : SiteFile}

lemma chmods_run {cs : List (Change UInt8 β)} (hcs : ∀ c ∈ cs, c = .chmod n) (hn : t n ≠ none) :
    Runs slash cs t t := by
  induction cs with
  | nil => rfl
  | cons c cs ih =>
    obtain ⟨rfl, hrest⟩ := List.forall_mem_cons.mp hcs
    exact ⟨hn, ih hrest⟩

lemma download_runs (hdir : t (storedName f) ≠ some .dir) (hreach : Reaches slash t (storedName f))
    (hfile : IsFile R (storedName f)) :
    Runs slash (downloadChanges o R f) t (Function.update t (storedName f) (R (storedName f))) := by
  obtain ⟨c, hc⟩ := hfile
  unfold downloadChanges
  rw [hc]
  refine ⟨⟨hdir, hreach⟩, chmods_run (n := storedName f) ?_ ?_⟩
  · intro change hchange
    rcases List.mem_append.mp hchange with hmem | hmem
    · split_ifs at hmem
      · exact List.mem_singleton.mp hmem
      · cases hmem
    · split_ifs at hmem
      · exact List.mem_singleton.mp hmem
      · cases hmem
  · simp [Change.effect]

/-! What the diff of an entry says about both trees. -/

lemma deleted_entry (h : Shown o files L R) (hoff : o.checkmoved = false) (hf : f ∈ files)
    (hd : f.diff = .deleted) : sideName .storedSlot f = some (storedName f) ∧
      Holds R f.type (storedName f) ∧ ¬ Holds L f.type (storedName f) := by
  rcases diff_cases hoff (h.entries f hf) with ⟨-, hl, hs⟩ | ⟨hno, -⟩ | ⟨hno, -⟩
  · exact ⟨NamesOk.side (s := .storedSlot) (h.ordered.entries f hf) hs,
      h.stored.there h.ordered hf hs, h.locals.missing h.matched h.ordered hf hl hs⟩
  · rw [hd] at hno
    cases hno
  · simp [hd] at hno

lemma new_entry (h : Shown o files L R) (hoff : o.checkmoved = false) (hf : f ∈ files)
    (hd : f.diff = .new) : sideName .localSlot f = some (localName f) ∧
      Holds L f.type (localName f) ∧ ¬ Holds R f.type (localName f) := by
  rcases diff_cases hoff (h.entries f hf) with ⟨hno, -⟩ | ⟨-, hl, hs⟩ | ⟨hno, -⟩
  · rw [hd] at hno
    cases hno
  · exact ⟨NamesOk.side (s := .localSlot) (h.ordered.entries f hf) hl,
      h.locals.there h.ordered hf hl, h.stored.missing h.matched h.ordered hf hs hl⟩
  · simp [hd] at hno

lemma changed_entry (h : Shown o files L R) (hoff : o.checkmoved = false) (hf : f ∈ files)
    (hd : f.diff = .changed) : sideName .storedSlot f = some (storedName f) ∧
      storedName f = localName f ∧ Holds R f.type (storedName f) ∧
        Holds L f.type (storedName f) := by
  rcases diff_cases hoff (h.entries f hf) with ⟨hno, -⟩ | ⟨hno, -⟩ | ⟨-, hl, hs⟩
  · rw [hd] at hno
    cases hno
  · rw [hd] at hno
    cases hno
  · have hname := sameName hoff (h.entries f hf) hl hs
    have hlocal := h.locals.there h.ordered hf hl
    rw [show nameOn .localSlot f = _ from hname.symm] at hlocal
    exact ⟨NamesOk.side (s := .storedSlot) (h.ordered.entries f hf) hs, hname,
      h.stored.there h.ordered hf hs, hlocal⟩

/-- What the remote tree has is missing locally, or the same entry is on both sides. -/
lemma remote_entry (h : Shown o files L R) (hoff : o.checkmoved = false) (type : FileType)
    (hR : Holds R type n) : ∃ f ∈ files, f.type = type ∧ storedName f = n ∧
      (f.diff = .deleted ∨ (f.diff = .changed ∨ f.diff = .unchanged) ∧ localName f = n ∧
        f.localState.existing = true ∧ f.storedState.existing = true) := by
  obtain ⟨f, hf, ht, hs, hn⟩ := h.stored.entry type hR
  refine ⟨f, hf, ht, hn, ?_⟩
  rcases diff_cases hoff (h.entries f hf) with ⟨hd, -⟩ | ⟨-, -, hno⟩ | ⟨hd, hl, hs⟩
  · exact Or.inl hd
  · rw [show f.storedState.existing = true from hs] at hno
    cases hno
  · exact Or.inr ⟨hd, (sameName hoff (h.entries f hf) hl hs).symm.trans hn, hl, hs⟩

lemma local_entry (h : Shown o files L R) (hoff : o.checkmoved = false) (type : FileType)
    (hL : Holds L type n) (hR : ¬ Holds R type n) :
    ∃ f ∈ files, f.type = type ∧ localName f = n ∧ f.diff = .new := by
  obtain ⟨f, hf, rfl, hl, rfl⟩ := h.locals.entry type hL
  refine ⟨f, hf, rfl, rfl, ?_⟩
  rcases diff_cases hoff (h.entries f hf) with ⟨-, hno, -⟩ | ⟨hd, -⟩ | ⟨-, -, hs⟩
  · rw [show f.localState.existing = true from hl] at hno
    cases hno
  · exact hd
  · exfalso
    apply hR
    rw [show nameOn .localSlot f = _ from (sameName hoff (h.entries f hf) hl hs).symm]
    exact h.stored.there h.ordered hf hs

lemma synched_file (h : Shown o files L R) (hoff : o.checkmoved = false) (hf : f ∈ files)
    (hact : synchedFile f) : f.type = .file ∧ ∃ s, sideName s f = some (synchName f) := by
  obtain ⟨ht, hd⟩ := hact
  refine ⟨ht, ?_⟩
  unfold synchName
  rcases hd with hd | hd | hd
  · rw [if_neg (by simp [hd])]
    exact ⟨.storedSlot, (changed_entry h hoff hf hd).1⟩
  · rw [if_neg (by simp [hd])]
    exact ⟨.storedSlot, (deleted_entry h hoff hf hd).1⟩
  · rw [if_pos hd]
    exact ⟨.localSlot, (new_entry h hoff hf hd).1⟩

/-- A file that is downloaded is there. -/
lemma synched_remote (h : Shown o files L R) (hoff : o.checkmoved = false) (hf : f ∈ files)
    (hact : synchedFile f) (hnew : f.diff ≠ .new) : IsFile R (storedName f) := by
  obtain ⟨ht, hd⟩ := hact
  have hR : Holds R f.type (storedName f) := by
    rcases hd with hd | hd | hd
    · exact (changed_entry h hoff hf hd).2.2.1
    · exact (deleted_entry h hoff hf hd).2.1
    · exact absurd hd hnew
  rwa [ht] at hR

/-- A file that is removed is not in the remote tree. -/
lemma synched_removed (h : Shown o files L R) (hoff : o.checkmoved = false) (hLR : NoClash L R)
    (hf : f ∈ files) (ht : f.type = .file) (hnew : f.diff = .new) :
    IsFile L (localName f) ∧ R (localName f) = none := by
  obtain ⟨-, hL, hR⟩ := new_entry h hoff hf hnew
  rw [ht] at hL hR
  refine ⟨hL, ?_⟩
  rcases node_cases R (localName f) with hnone | hdir | hfile
  · exact hnone
  · exact absurd hL (hLR _ hdir)
  · exact absurd hfile hR

lemma mem_storedDirs (h : Shown o files L R) (hoff : o.checkmoved = false) :
    n ∈ (blocksOf storedDir storedName (@makeDirChanges β) files).map Prod.fst ↔
      R n = some .dir ∧ L n ≠ some .dir := by
  rw [mem_pathsOf]
  constructor
  · rintro ⟨f, hf, ⟨ht, hd⟩, rfl⟩
    obtain ⟨-, hR, hL⟩ := deleted_entry h hoff hf hd
    rw [ht] at hR hL
    exact ⟨hR, hL⟩
  · rintro ⟨hR, hL⟩
    obtain ⟨f, hf, ht, hn, hd | ⟨-, hname, hl, -⟩⟩ := remote_entry h hoff .dir hR
    · exact ⟨f, hf, ⟨ht, hd⟩, hn⟩
    · have hthere := h.locals.there h.ordered hf hl
      rw [ht, show nameOn .localSlot f = _ from hname] at hthere
      exact absurd hthere hL

lemma mem_localDirs (h : Shown o files L R) (hoff : o.checkmoved = false) :
    n ∈ (blocksOf localDir localName (@removeDirChanges β) files).map Prod.fst ↔
      L n = some .dir ∧ R n ≠ some .dir := by
  rw [mem_pathsOf]
  constructor
  · rintro ⟨f, hf, ⟨ht, hd⟩, rfl⟩
    obtain ⟨-, hL, hR⟩ := new_entry h hoff hf hd
    rw [ht] at hR hL
    exact ⟨hL, hR⟩
  · rintro ⟨hL, hR⟩
    obtain ⟨f, hf, ht, hn, hd⟩ := local_entry h hoff .dir hL hR
    exact ⟨f, hf, ⟨ht, hd⟩, hn⟩

/-- What is done to a file ends with what the remote tree has there. -/
lemma fileChanges_run (h : Shown o files L R) (hoff : o.checkmoved = false) (hLR : NoClash L R)
    (hRL : NoClash R L) (hf : f ∈ files) (hact : synchedFile f)
    (hsame : t (synchName f) = L (synchName f)) (hreach : Reaches slash t (synchName f)) :
    Runs slash (fileChanges o R f) t (Function.update t (synchName f) (R (synchName f))) := by
  have ht : f.type = .file := hact.1
  unfold fileChanges
  rw [if_pos hact]
  unfold synchName at *
  split_ifs at * with hnew hperms
  · obtain ⟨hL, hnone⟩ := synched_removed h hoff hLR hf ht hnew
    refine ⟨?_, by rw [hnone]; rfl⟩
    change IsFile t _
    unfold IsFile
    rw [hsame]
    exact hL
  · obtain ⟨-, hname, hR, hL⟩ := changed_entry h hoff hf hperms.1
    rw [ht] at hR hL
    have hboth := fileCompare_both ((h.entries f hf).ok.compared.symm.trans hperms.1) (by decide)
      (by decide)
    have heq : t (storedName f) = R (storedName f) := by
      rw [hsame, hname]
      exact (h.honest f hf ht hboth.1 hboth.2 hperms.2).symm
    rw [← heq, Function.update_eq_self]
    refine ⟨?_, rfl⟩
    obtain ⟨c, hc⟩ := hR
    change t _ ≠ none
    rw [heq, hc]
    simp
  · have hfile : IsFile R (storedName f) := synched_remote h hoff hf hact hnew
    apply download_runs _ hreach hfile
    rw [hsame]
    exact fun hdir => hRL _ hdir hfile

/-- The changes of a synch in a plan that leads from the local tree to the remote one. -/
def plan (h : Shown o files L R) (hoff : o.checkmoved = false) (hLR : NoClash L R)
    (hRL : NoClash R L) : Plan slash L R where
  gone := []
  dirs := blocksOf storedDir storedName makeDirChanges files
  files := blocksOf synchedFile synchName (fileChanges o R) files
  olds := ((blocksOf localDir localName (@removeDirChanges β) files).map Prod.fst).reverse
  closedSource := h.locals.closed
  closedTarget := h.stored.closed
  kept := hRL
  goneNodup := List.nodup_nil
  gone_file _ hn := by cases hn
  gone_of_dir p hL hR := absurd hL (hLR p hR)
  gone_of_file p hL hR := by
    right
    obtain ⟨f, hf, ht, hn, hd⟩ := local_entry h hoff .file hL hR
    exact mem_pathsOf.mpr ⟨f, hf, ⟨ht, Or.inr (Or.inr hd)⟩, (if_pos hd).trans hn⟩
  dirsNodup := blocksOf_nodup h.nodup h.matched fun f hf hact =>
    ⟨hact.1, .storedSlot, (deleted_entry h hoff hf hact.2).1⟩
  dirsOrdered := blocksOf_ordered h.ordered fun f hf hact =>
    ⟨hact.1, (deleted_entry h hoff hf hact.2).1⟩
  dirs_dir b hb := ((mem_storedDirs h hoff).mp (List.mem_map_of_mem hb)).1
  mem_dirs p hR hL := (mem_storedDirs h hoff).mpr ⟨hR, hL⟩
  makes b hb t hold hnew hreach := by
    have hL := ((mem_storedDirs h hoff).mp (List.mem_map_of_mem hb)).2
    obtain ⟨f, hf, hact, rfl⟩ := mem_blocksOf.mp hb
    rw [makeDirChanges, if_pos hact]
    exact ⟨⟨hnew hL, hreach⟩, rfl⟩
  filesNodup := blocksOf_nodup h.nodup h.matched fun f hf hact => synched_file h hoff hf hact
  files_cases b hb := by
    obtain ⟨f, hf, hact, rfl⟩ := mem_blocksOf.mp hb
    refine ⟨List.not_mem_nil, ?_⟩
    unfold synchName
    dsimp only
    split_ifs with hnew
    · exact Or.inr (synched_removed h hoff hLR hf hact.1 hnew)
    · exact Or.inl (synched_remote h hoff hf hact hnew)
  mem_files p hR := by
    obtain ⟨f, hf, ht, hn, hcases⟩ := remote_entry h hoff .file hR
    have hmem : f.diff = .changed ∨ f.diff = .deleted →
        p ∈ (blocksOf synchedFile synchName (fileChanges o R) files).map Prod.fst := by
      intro hd
      refine mem_pathsOf.mpr ⟨f, hf, ⟨ht, hd.imp_right Or.inl⟩, ?_⟩
      unfold synchName
      rw [if_neg (by rcases hd with hd | hd <;> simp [hd]), hn]
    rcases hcases with hd | ⟨hd | hd, hname, hl, hs⟩
    · exact Or.inl (hmem (Or.inr hd))
    · exact Or.inl (hmem (Or.inl hd))
    · right
      have heq := h.honest f hf ht hl hs (contents_unchanged (h.entries f hf).ok.compared ht hd)
      rw [hname] at heq
      exact heq.symm
  stores b hb t hsame hreach hnone := by
    obtain ⟨f, hf, hact, rfl⟩ := mem_blocksOf.mp hb
    exact fileChanges_run h hoff hLR hRL hf hact hsame hreach
  oldsNodup := List.nodup_reverse.mpr (blocksOf_nodup h.nodup h.matched fun f hf hact =>
    ⟨hact.1, .localSlot, (new_entry h hoff hf hact.2).1⟩)
  oldsOrdered := by
    rw [List.reverse_reverse]
    exact blocksOf_ordered h.ordered fun f hf hact => ⟨hact.1, (new_entry h hoff hf hact.2).1⟩
  mem_olds n := by
    rw [List.mem_reverse]
    exact mem_localDirs h hoff

lemma changes_plan (h : Shown o files L R) (hoff : o.checkmoved = false) (hLR : NoClash L R)
    (hRL : NoClash R L) : synchChanges o R files = (plan h hoff hLR hRL).changes := by
  have hmake : ∀ f, ¬ storedDir f → @makeDirChanges β f = [] := fun f hno => if_neg hno
  have hfile : ∀ f, ¬ synchedFile f → fileChanges o R f = [] := fun f hno => if_neg hno
  have hremove : ∀ f, ¬ localDir f → @removeDirChanges β f = [] := fun f hno => if_neg hno
  have hreverse : (blocksOf localDir localName (@removeDirChanges β) files.reverse).map
      Prod.fst = ((blocksOf localDir localName (@removeDirChanges β) files).map
        Prod.fst).reverse := by
    unfold blocksOf
    rw [List.filterMap_reverse, List.map_reverse]
  unfold synchChanges Plan.changes plan
  dsimp only
  rw [List.map_nil, List.nil_append, blocksOf_changes hmake, blocksOf_changes hfile, ← hreverse,
    ← blocksOf_single hremove fun f hact => if_pos hact]

end Plan

/-! ### The turns -/

section Turns
variable {o : SiteOptions} {R T : Tree UInt8 β} {f : SiteFile} {r : SynchRun (Tree UInt8 β)}
  {more : List (Change UInt8 β)}

/-- A call for the next change succeeds. -/
lemma localCall_does (change : Change UInt8 β) {owner : ℕ} {c : LocalCall}
    (hc : localChange o c = some change) (h : Runs slash (change :: more) r.sess T) :
    Ends (localCall (localDriver o R) owner c) r fun ok r' =>
      ok = true ∧ Runs slash more r'.sess T := by
  obtain ⟨henabled, hrest⟩ := runs_cons.mp h
  have hexec : (localDriver o R).local' c r.sess = (true, change.effect r.sess) := by
    change attempt r.sess (localChange o c) = _
    rw [hc, attempt_enabled henabled]
  rw [ends_localCall, hexec]
  exact ⟨rfl, hrest⟩

/-- A turn that did its changes. -/
def TurnDone (more : List (Change UInt8 β)) (T : Tree UInt8 β) (Q : SiteFile → Prop)
    (out : Outcome) (r : SynchRun (Tree UInt8 β)) : Prop :=
  out.2 = false ∧ (∃ g, out.1 = some g ∧ Q g) ∧ Runs slash more r.sess T

lemma synchCreateDirectory_does (h : Runs slash (makeDirChanges f ++ more) r.sess T) :
    Ends (synchCreateDirectory (localDriver o R) o f) r (TurnDone more T (· = f)) := by
  unfold synchCreateDirectory
  unfold makeDirChanges at h
  by_cases hact : f.type = .dir ∧ f.diff = .deleted
  · rw [if_pos (show storedDir f from hact)] at h
    rw [if_pos hact]
    simp only [ends_bind]
    apply (localCall_does (.mkdir (storedName f)) _ h).mono
    · rintro ok r' ⟨rfl, hruns⟩
      exact ⟨rfl, ⟨f, rfl, rfl⟩, hruns⟩
    · simp [localChange, fileFullLocal, storedName]
  · rw [if_neg (show ¬ storedDir f from hact)] at h
    rw [if_neg hact]
    exact ⟨rfl, ⟨f, rfl, rfl⟩, h⟩

lemma restoreTime_does (h : Runs slash
    ((if o.stateMethod = .timesize then [.chmod (storedName f)] else []) ++ more) r.sess T) :
    Ends (restoreTime (localDriver o R) o f) r fun _ r' => Runs slash more r'.sess T := by
  unfold restoreTime
  split_ifs at h ⊢
  · simp only [ends_bind]
    apply (localCall_does (.chmod (storedName f)) _ h).mono
    · rintro ok r' ⟨-, hruns⟩
      exact hruns
    · simp [localChange, fileFullLocal, storedName]
  · exact h

lemma restorePerms_does (h : Runs slash
    ((if filePermsChanged o f then [.chmod (storedName f)] else []) ++ more) r.sess T) :
    Ends (restorePerms (localDriver o R) o f) r fun _ r' => Runs slash more r'.sess T := by
  unfold restorePerms
  split_ifs at h ⊢
  · simp only [ends_bind]
    apply (localCall_does (.chmod (storedName f)) _ h).mono
    · rintro ok r' ⟨-, hruns⟩
      exact hruns
    · simp [localChange, fileFullLocal, storedName]
  · exact h

/-- What a turn leaves of an entry for a file. -/
def FileLeft (f g : SiteFile) : Prop := g.type = f.type ∧ (f.type ≠ .file → g = f)

lemma downloadFile_does (hlower : o.lowercase = false) (ht : f.type = .file)
    (hfile : IsFile R (storedName f))
    (h : Runs slash (downloadChanges o R f ++ more) r.sess T) :
    Ends (downloadFile (localDriver o R) o f) r (TurnDone more T (FileLeft f)) := by
  obtain ⟨c, hc⟩ := hfile
  unfold downloadChanges at h
  rw [hc] at h
  dsimp only at h
  rw [List.cons_append, runs_cons, List.append_assoc] at h
  obtain ⟨henabled, hrest⟩ := h
  have hexec : (localDriver o R).driver (.fileDownload (fileFullLocal f.storedState o)
      (fileFullRemote f.storedState o) f.storedState.ascii) r.sess =
        (SITE_OK, (Change.write (storedName f) c).effect r.sess) := by
    have hchange : downloadChange o R (fileFullLocal f.storedState o)
        (fileFullRemote f.storedState o) = some (.write (storedName f) c) := by
      have hremote : fileFullRemote f.storedState o = o.remoteRoot ++ storedName f := by
        simp [fileFullRemote, hlower, storedName]
      have hloc : fileFullLocal f.storedState o = o.localRoot ++ storedName f := rfl
      simp [downloadChange, hremote, hloc, hc]
    change (_, _) = _
    rw [hchange, attempt_enabled henabled]
    rfl
  unfold downloadFile
  simp only [ends_bind, ends_driverCall, hexec]
  rw [if_neg (by simp)]
  simp only [ends_bind]
  apply (restoreTime_does hrest).mono
  intro _ r' hrest
  apply (restorePerms_does hrest).mono
  intro _ r'' hruns
  exact ⟨rfl, ⟨_, rfl, rfl, fun hne => absurd ht hne⟩, hruns⟩

lemma synchFile_does (hlower : o.lowercase = false) (hmoved : f.diff ≠ .moved)
    (hfile : synchedFile f → f.diff ≠ .new → IsFile R (storedName f))
    (h : Runs slash (fileChanges o R f ++ more) r.sess T) :
    Ends (synchFile (localDriver o R) o f) r (TurnDone more T (FileLeft f)) := by
  have hleft : FileLeft f f := ⟨rfl, fun _ => rfl⟩
  unfold fileChanges at h
  unfold synchFile
  by_cases ht : f.type = .file
  · rw [if_neg (not_not_intro ht)]
    cases hd : f.diff with
    | unchanged =>
      rw [if_neg (by simp [synchedFile, hd])] at h
      exact ⟨rfl, ⟨f, rfl, hleft⟩, h⟩
    | moved => exact absurd hd hmoved
    | new =>
      rw [if_pos ⟨ht, by simp [hd]⟩, if_pos hd] at h
      simp only [ends_bind]
      apply (localCall_does (.unlink (localName f)) _ h).mono
      · rintro ok r' ⟨rfl, hruns⟩
        exact ⟨rfl, ⟨f, rfl, hleft⟩, hruns⟩
      · simp [localChange, fileFullLocal, localName]
    | deleted =>
      have hact : synchedFile f := ⟨ht, by simp [hd]⟩
      rw [if_pos hact, if_neg (by simp [hd]), if_neg (by simp [hd])] at h
      exact downloadFile_does hlower ht (hfile hact (by simp [hd])) h
    | changed =>
      have hact : synchedFile f := ⟨ht, by simp [hd]⟩
      rw [if_pos hact, if_neg (by simp [hd])] at h
      dsimp only
      cases hcontents : fileContentsChanged o f with
      | true =>
        rw [if_neg (by simp [hcontents])] at h
        rw [if_neg (by simp)]
        exact downloadFile_does hlower ht (hfile hact (by simp [hd])) h
      | false =>
        rw [if_pos ⟨hd, hcontents⟩] at h
        rw [if_pos (by simp)]
        simp only [ends_bind]
        apply (localCall_does (.chmod (storedName f)) _ h).mono
        · rintro ok r' ⟨-, hruns⟩
          exact ⟨rfl, ⟨f, rfl, hleft⟩, hruns⟩
        · simp [localChange, fileFullLocal, storedName]
  · rw [if_pos ht]
    rw [if_neg fun hact => ht hact.1] at h
    exact ⟨rfl, ⟨f, rfl, hleft⟩, h⟩

lemma synchDeleteDirectory_does (h : Runs slash (removeDirChanges f ++ more) r.sess T) :
    Ends (synchDeleteDirectory (localDriver o R) o f) r fun out r' =>
      out.2 = false ∧ Runs slash more r'.sess T := by
  unfold synchDeleteDirectory
  unfold removeDirChanges at h
  by_cases hact : f.type = .dir ∧ f.diff = .new
  · rw [if_pos (show localDir f from hact)] at h
    rw [if_pos hact]
    simp only [ends_bind]
    apply (localCall_does (.rmdir (localName f)) _ h).mono
    · rintro ok r' ⟨rfl, hruns⟩
      exact ⟨rfl, hruns⟩
    · simp [localChange, fileFullLocal, localName]
  · rw [if_neg (show ¬ localDir f from hact)] at h
    rw [if_neg hact]
    exact ⟨rfl, h⟩

end Turns

/-! ### The passes -/

section Passes
variable {o : SiteOptions} {R T : Tree UInt8 β} {files files' : List SiteFile}
  {r : SynchRun (Tree UInt8 β)} {more : List (Change UInt8 β)}

lemma kept_same (h : Kept (fun f out => out = some f) files files') : files' = files := by
  obtain ⟨outs, houts, rfl⟩ := h
  induction houts with
  | nil => rfl
  | cons hout _ ih => rw [hout, List.reduceOption_cons_of_some, ih]

lemma synchCreateDirectories_does (h : Runs slash (files.flatMap makeDirChanges ++ more) r.sess T) :
    Ends (synchCreateDirectories (localDriver o R) o files) r fun out r' =>
      out = (files, false) ∧ Runs slash more r'.sess T := by
  apply (forEach_kept (Q := fun f out => out = some f)
    (I := fun rest r => Runs slash (rest.flatMap makeDirChanges ++ more) r.sess T) _ h).mono
  · rintro ⟨files', failed⟩ r' ⟨rfl, hkept, hruns⟩
    obtain rfl : files' = files := kept_same hkept
    exact ⟨rfl, hruns⟩
  · intro f rest r hruns
    rw [List.flatMap_cons, List.append_assoc] at hruns
    apply (synchCreateDirectory_does hruns).mono
    rintro out r' ⟨hout, ⟨g, hg, rfl⟩, hrest⟩
    exact ⟨hout, hg, hrest⟩

/-- An entry with which the second pass can deal. -/
def Served (R : Tree UInt8 β) (f : SiteFile) : Prop :=
  f.diff ≠ .moved ∧ (synchedFile f → f.diff ≠ .new → IsFile R (storedName f))

lemma synchFiles_does (hlower : o.lowercase = false) (hserved : ∀ f ∈ files, Served R f)
    (h : Runs slash (files.flatMap (fileChanges o R) ++ more) r.sess T) :
    Ends (synchFiles (localDriver o R) o files) r fun out r' => out.2 = false ∧
      Kept (fun f out => ∃ g, out = some g ∧ FileLeft f g) files out.1 ∧
        Runs slash more r'.sess T := by
  apply (forEach_kept (Q := fun f out => ∃ g, out = some g ∧ FileLeft f g)
    (I := fun rest r => (∀ f ∈ rest, Served R f) ∧
      Runs slash (rest.flatMap (fileChanges o R) ++ more) r.sess T) _ ⟨hserved, h⟩).mono
  · rintro out r' ⟨hout, hkept, -, hruns⟩
    exact ⟨hout, hkept, hruns⟩
  · rintro f rest r ⟨hserved, hruns⟩
    obtain ⟨⟨hmoved, hfile⟩, hrest⟩ := List.forall_mem_cons.mp hserved
    rw [List.flatMap_cons, List.append_assoc] at hruns
    apply (synchFile_does hlower hmoved hfile hruns).mono
    rintro out r' ⟨hout, hg, hruns⟩
    exact ⟨hout, hg, hrest, hruns⟩

lemma synchDeleteDirectories_does
    (h : Runs slash (files.reverse.flatMap removeDirChanges) r.sess T) :
    Ends (synchDeleteDirectories (localDriver o R) o files) r fun out r' =>
      out.2 = false ∧ r'.sess = T := by
  apply (forEachBackward_kept (Q := fun _ _ => True)
    (I := fun rest r => Runs slash (rest.flatMap removeDirChanges ++ []) r.sess T) _ _).mono
  · rintro out r' ⟨hout, -, hruns⟩
    exact ⟨hout, hruns.symm⟩
  · intro f rest r hruns
    rw [List.flatMap_cons, List.append_assoc] at hruns
    apply (synchDeleteDirectory_does hruns).mono
    rintro out r' ⟨hout, hruns⟩
    exact ⟨hout, trivial, hruns⟩
  · rwa [List.append_nil]

/-- The directories that the last pass removes are not touched before. -/
lemma removeDirChanges_kept
    (h : Kept (fun f out => ∃ g, out = some g ∧ FileLeft f g) files files') :
    files'.reverse.flatMap (@removeDirChanges β) =
      files.reverse.flatMap removeDirChanges := by
  apply h.reverse.flatMap
  rintro f out ⟨g, rfl, ht, hsame⟩
  rw [Option.toList_some, List.flatMap_singleton]
  by_cases hf : f.type = .file
  · have hno : ∀ x : SiteFile, x.type = .file → ¬ localDir x := by
      rintro x hx ⟨hdir, -⟩
      rw [hx] at hdir
      cases hdir
    unfold removeDirChanges
    rw [if_neg (hno g (ht.trans hf)), if_neg (hno f hf)]
  · rw [hsame hf]

/-- The passes do all changes. -/
lemma synchPasses_does (hlower : o.lowercase = false) (hserved : ∀ f ∈ files, Served R f)
    (h : Runs slash (synchChanges o R files) r.sess T) :
    Ends (synchPasses (localDriver o R) o files) r fun out r' => out.2 = false ∧ r'.sess = T := by
  unfold synchChanges at h
  rw [List.append_assoc] at h
  unfold synchPasses
  simp only [ends_bind]
  apply (synchCreateDirectories_does h).mono
  rintro out r₁ ⟨rfl, hruns⟩
  rw [if_pos (by simp)]
  simp only [ends_bind]
  apply (synchFiles_does hlower hserved hruns).mono
  rintro ⟨files', failed⟩ r₂ ⟨rfl, hkept, hruns⟩
  rw [if_pos (by simp)]
  rw [← removeDirChanges_kept hkept] at hruns
  exact synchDeleteDirectories_does hruns

/-- The calls before and after the passes change nothing. -/
lemma siteSynch_passes {site : Site} {L : Tree UInt8 β} {Q : Bool → Tree UInt8 β → Prop}
    (h : ∀ r : SynchRun (Tree UInt8 β), r.sess = L →
      Ends (synchPasses (localDriver site.opts R) site.opts site.files) r
        fun out r' => Q out.2 r'.sess) :
    ∃ failed, (siteSynch (localDriver site.opts R) site L).ret = exitCode failed ∧
      Q failed (siteSynch (localDriver site.opts R) site L).sess := by
  suffices hrun : Ends (synchSiteFiles (localDriver site.opts R) site.opts (needConn site.stats)
      site.files) { stats := site.stats, sess := L } fun out r =>
        ∃ failed, out.2 = exitCode failed ∧ Q failed r.sess from hrun
  unfold synchSiteFiles
  split_ifs
  · simp only [ends_bind, ends_driverCall]
    rw [if_neg (by exact not_not_intro rfl)]
    simp only [ends_bind]
    apply (h _ rfl).mono
    intro out r hQ
    exact ⟨out.2, rfl, hQ⟩
  · simp only [ends_bind]
    apply (h _ rfl).mono
    intro out r hQ
    exact ⟨out.2, rfl, hQ⟩

end Passes

/-! ### Paths that stay what they are -/

/-- The changes of which there are some in the second pass. -/
def ForFiles (change : Change UInt8 β) : Prop :=
  (∀ p, change ≠ .mkdir p) ∧ ∀ p, change ≠ .rmdir p

/-- All such changes that succeed keep a property of the tree. -/
def Keeps (I : Tree UInt8 β → Prop) (allowed : Change UInt8 β → Prop) : Prop :=
  ∀ change t, allowed change → change.Enabled slash t → I t → I (change.effect t)

section Stays
variable {o : SiteOptions} {R t : Tree UInt8 β} {I I₁ I₂ I₃ : Tree UInt8 β → Prop}
  {allowed : Change UInt8 β → Prop} {f : SiteFile} {files : List SiteFile}
  {r : SynchRun (Tree UInt8 β)} {n : Text}

lemma attempt_keeps {request : Option (Change UInt8 β)} (hI : Keeps I allowed)
    (h : ∀ change, request = some change → allowed change) (ht : I t) :
    I (attempt t request).2 := by
  rcases attempt_cases t request with hno | ⟨change, hrequest, henabled, hyes⟩
  · rwa [hno]
  · rw [hyes]
    exact hI change t (h change hrequest) henabled ht

lemma localCall_keeps {owner : ℕ} {c : LocalCall} (hI : Keeps I allowed)
    (h : ∀ change, localChange o c = some change → allowed change) (ht : I r.sess) :
    Ends (localCall (localDriver o R) owner c) r fun _ r' => I r'.sess := by
  rw [ends_localCall]
  exact attempt_keeps hI h ht

lemma synchCreateDirectory_keeps (hI : Keeps I fun change => ∃ p, change = .mkdir p)
    (ht : I r.sess) :
    Ends (synchCreateDirectory (localDriver o R) o f) r fun _ r' => I r'.sess := by
  unfold synchCreateDirectory
  simp only [ends_ite, ends_bind, ends_pure]
  split_ifs
  · apply (localCall_keeps hI _ ht).mono
    · intro ok r' hr'
      split_ifs
      · exact hr'
      · exact hr'
    · intro change hchange
      obtain ⟨p, -, rfl⟩ := Option.map_eq_some_iff.mp hchange
      exact ⟨p, rfl⟩
  · exact ht

lemma forFiles_map {path : Option Text} {make : Text → Change UInt8 β}
    (hmake : ∀ p, ForFiles (make p)) {change : Change UInt8 β} (h : path.map make = some change) :
    ForFiles change := by
  obtain ⟨p, -, rfl⟩ := Option.map_eq_some_iff.mp h
  exact hmake p

lemma localCall_forFiles {owner : ℕ} {c : LocalCall} (hI : Keeps I ForFiles) (ht : I r.sess)
    (hc : (∀ p m, c ≠ .mkdir p m) ∧ ∀ p, c ≠ .rmdir p) :
    Ends (localCall (localDriver o R) owner c) r fun _ r' => I r'.sess := by
  apply localCall_keeps hI _ ht
  intro change hchange
  cases c with
  | mkdir p m => exact absurd rfl (hc.1 p m)
  | rmdir p => exact absurd rfl (hc.2 p)
  | chmod p m => exact forFiles_map (fun p => ⟨by simp, by simp⟩) hchange
  | utime p m => exact forFiles_map (fun p => ⟨by simp, by simp⟩) hchange
  | unlink p => exact forFiles_map (fun p => ⟨by simp, by simp⟩) hchange
  | rename src dst =>
    obtain ⟨_, -, hchange⟩ := Option.bind_eq_some_iff.mp hchange
    obtain ⟨_, -, hchange⟩ := Option.bind_eq_some_iff.mp hchange
    obtain rfl := Option.some.inj hchange
    exact ⟨by simp, by simp⟩

lemma restoreTime_keeps (hI : Keeps I ForFiles) (ht : I r.sess) :
    Ends (restoreTime (localDriver o R) o f) r fun _ r' => I r'.sess := by
  unfold restoreTime
  split_ifs
  · exact localCall_forFiles hI ht ⟨by simp, by simp⟩
  · exact ht

lemma restorePerms_keeps (hI : Keeps I ForFiles) (ht : I r.sess) :
    Ends (restorePerms (localDriver o R) o f) r fun _ r' => I r'.sess := by
  unfold restorePerms
  split_ifs
  · exact localCall_forFiles hI ht ⟨by simp, by simp⟩
  · exact ht

lemma downloadFile_keeps (hI : Keeps I ForFiles) (ht : I r.sess) :
    Ends (downloadFile (localDriver o R) o f) r fun _ r' => I r'.sess := by
  have hdownload : I ((localDriver o R).driver (.fileDownload (fileFullLocal f.storedState o)
      (fileFullRemote f.storedState o) f.storedState.ascii) r.sess).2 := by
    apply attempt_keeps hI _ ht
    intro change hchange
    unfold downloadChange at hchange
    obtain ⟨_, -, hchange⟩ := Option.bind_eq_some_iff.mp hchange
    obtain ⟨_, -, hchange⟩ := Option.bind_eq_some_iff.mp hchange
    split at hchange
    · obtain rfl := Option.some.inj hchange
      exact ⟨by simp, by simp⟩
    · cases hchange
  unfold downloadFile
  simp only [ends_bind, ends_driverCall]
  split_ifs
  · exact hdownload
  · simp only [ends_bind]
    apply (restoreTime_keeps hI hdownload).mono
    intro _ r' hr'
    exact (restorePerms_keeps hI hr').mono fun _ _ h => h

lemma synchFile_keeps (hI : Keeps I ForFiles) (ht : I r.sess) :
    Ends (synchFile (localDriver o R) o f) r fun _ r' => I r'.sess := by
  unfold synchFile
  by_cases htype : f.type ≠ .file
  · rw [if_pos htype]
    exact ht
  · rw [if_neg htype]
    cases f.diff with
    | changed =>
      dsimp only
      split_ifs
      · exact localCall_forFiles hI ht ⟨by simp, by simp⟩
      · exact downloadFile_keeps hI ht
    | deleted => exact downloadFile_keeps hI ht
    | new => exact localCall_forFiles hI ht ⟨by simp, by simp⟩
    | moved => exact localCall_forFiles hI ht ⟨by simp, by simp⟩
    | unchanged => exact ht

lemma synchDeleteDirectory_keeps (hI : Keeps I fun change => ∃ p, change = .rmdir p)
    (ht : I r.sess) :
    Ends (synchDeleteDirectory (localDriver o R) o f) r fun _ r' => I r'.sess := by
  unfold synchDeleteDirectory
  simp only [ends_ite, ends_bind, ends_pure]
  split_ifs
  · apply (localCall_keeps hI _ ht).mono
    · intro ok r' hr'
      split_ifs
      · exact hr'
      · exact hr'
    · intro change hchange
      obtain ⟨p, -, rfl⟩ := Option.map_eq_some_iff.mp hchange
      exact ⟨p, rfl⟩
  · exact ht

/-- A loop keeps what its turns keep. -/
lemma forEach_keeps {body : SiteFile → StateM (SynchRun (Tree UInt8 β)) Outcome}
    (hbody : ∀ f r, I r.sess → Ends (body f) r fun _ r' => I r'.sess) (ht : I r.sess) :
    Ends (forEach body files) r fun _ r' => I r'.sess :=
  forEach_ends (I := fun _ _ _ r => I r.sess) (fun _ f _ _ r hr => hbody f r hr) ht

lemma forEachBackward_keeps {body : SiteFile → StateM (SynchRun (Tree UInt8 β)) Outcome}
    (hbody : ∀ f r, I r.sess → Ends (body f) r fun _ r' => I r'.sess) (ht : I r.sess) :
    Ends (forEachBackward body files) r fun _ r' => I r'.sess :=
  forEachBackward_ends (I := fun _ _ _ r => I r.sess) (fun _ f _ _ r hr => hbody f r hr) ht

/-- What each pass keeps, weaker from pass to pass, is true at the end. -/
lemma synchPasses_keeps (h₁ : Keeps I₁ fun change => ∃ p, change = .mkdir p)
    (h₂ : Keeps I₂ ForFiles) (h₃ : Keeps I₃ fun change => ∃ p, change = .rmdir p)
    (h₁₂ : ∀ t, I₁ t → I₂ t) (h₂₃ : ∀ t, I₂ t → I₃ t) (ht : I₁ r.sess) :
    Ends (synchPasses (localDriver o R) o files) r fun _ r' => I₃ r'.sess := by
  unfold synchPasses
  simp only [ends_bind]
  apply (forEach_keeps (fun f r hr => synchCreateDirectory_keeps h₁ hr) ht).mono
  intro out r₁ hr₁
  split_ifs
  · simp only [ends_bind]
    apply (forEach_keeps (fun f r hr => synchFile_keeps h₂ hr) (h₁₂ _ hr₁)).mono
    intro out r₂ hr₂
    split_ifs
    · exact forEachBackward_keeps (fun f r hr => synchDeleteDirectory_keeps h₃ hr) (h₂₃ _ hr₂)
    · exact h₂₃ _ hr₂
  · exact h₂₃ _ (h₁₂ _ hr₁)

/-! What the changes keep at one path. -/

lemma mkdir_keeps_file : Keeps (fun t : Tree UInt8 β => IsFile t n) fun change =>
    ∃ p, change = .mkdir p := by
  rintro change t ⟨p, rfl⟩ ⟨hnone, -⟩ hfile
  have hne : n ≠ p := by
    rintro rfl
    obtain ⟨c, hc⟩ := hfile
    rw [hc] at hnone
    cases hnone
  obtain ⟨c, hc⟩ := hfile
  exact ⟨c, (Function.update_of_ne hne _ _).trans hc⟩

lemma mkdir_keeps_dir : Keeps (fun t : Tree UInt8 β => t n = some .dir) fun change =>
    ∃ p, change = .mkdir p := by
  rintro change t ⟨p, rfl⟩ henabled hdir
  exact henabled.keeps_dir (by simp) hdir

lemma forFiles_keeps_dir : Keeps (fun t : Tree UInt8 β => t n = some .dir) ForFiles :=
  fun _ _ hallowed henabled hdir => henabled.keeps_dir hallowed.2 hdir

/-- Only one change makes directories. -/
lemma forFiles_makes_none : Keeps (fun t : Tree UInt8 β => t n ≠ some .dir) ForFiles := by
  intro change t hallowed henabled hn hdir
  cases change with
  | mkdir p => exact hallowed.1 p rfl
  | rmdir p => exact hallowed.2 p rfl
  | chmod p => exact hn hdir
  | write p c =>
    by_cases hp : n = p
    · subst hp
      simp [Change.effect] at hdir
    · exact hn ((Function.update_of_ne hp _ _).symm.trans hdir)
  | unlink p =>
    by_cases hp : n = p
    · subst hp
      simp [Change.effect] at hdir
    · exact hn ((Function.update_of_ne hp _ _).symm.trans hdir)
  | rename src dst =>
    by_cases hdst : n = dst
    · have hfile := henabled.1.not_dir
      subst hdst
      exact hfile ((Renames.Rename.apply_dst (m := ⟨src, n⟩)).symm.trans hdir)
    · by_cases hsrc : n = src
      · subst hsrc
        have hnone := Renames.Rename.apply_src (m := ⟨n, dst⟩) (R := t) hdst
        rw [show (Renames.Rename.mk n dst).apply t n = some .dir from hdir] at hnone
        cases hnone
      · exact hn ((Renames.Rename.apply_other (m := ⟨src, dst⟩) hsrc hdst).symm.trans hdir)

lemma rmdir_makes_no_dir : Keeps (fun t : Tree UInt8 β => t n ≠ some .dir) fun change =>
    ∃ p, change = .rmdir p := by
  rintro change t ⟨p, rfl⟩ - hn hdir
  by_cases hp : n = p
  · subst hp
    simp [Change.effect] at hdir
  · exact hn ((Function.update_of_ne hp _ _).symm.trans hdir)

lemma rmdir_makes_no_file : Keeps (fun t : Tree UInt8 β => ¬ IsFile t n) fun change =>
    ∃ p, change = .rmdir p := by
  rintro change t ⟨p, rfl⟩ - hn ⟨c, hc⟩
  by_cases hp : n = p
  · subst hp
    simp [Change.effect] at hc
  · exact hn ⟨c, (Function.update_of_ne hp _ _).symm.trans hc⟩

end Stays

/-! ### Synchs that mirror a tree -/

/-- No path leads to a file in one tree and to a directory in the other. -/
def Apart (L R : Tree UInt8 β) : Prop := NoClash L R ∧ NoClash R L

section Mirror
variable {o : SiteOptions} {files : List SiteFile} {L R : Tree UInt8 β} {f : SiteFile}
  {r : SynchRun (Tree UInt8 β)}

lemma synchPasses_mirror (h : Shown o files L R) (hoff : o.checkmoved = false)
    (hlower : o.lowercase = false) (hapart : Apart L R) (hr : r.sess = L) :
    Ends (synchPasses (localDriver o R) o files) r fun out r' => out.2 = false ∧ r'.sess = R := by
  apply synchPasses_does hlower
  · intro f hf
    refine ⟨fun hmoved => ?_, fun hact hnew => synched_remote h hoff hf hact hnew⟩
    rcases diff_cases hoff (h.entries f hf) with ⟨hd, -⟩ | ⟨hd, -⟩ | ⟨hd, -⟩ <;>
      simp [hmoved] at hd
  · rw [hr, changes_plan h hoff hapart.1 hapart.2]
    exact (plan h hoff hapart.1 hapart.2).runs

/-- A directory cannot be made where there is a file. -/
lemma synchPasses_file_stays {n : Text} (hfile : IsFile r.sess n) :
    Ends (synchPasses (localDriver o R) o files) r fun _ r' => r'.sess n ≠ some .dir :=
  synchPasses_keeps mkdir_keeps_file forFiles_makes_none rmdir_makes_no_dir
    (fun _ hfile => hfile.not_dir) (fun _ h => h) hfile

lemma synchPasses_dir_stays {n : Text} (hdir : r.sess n = some .dir) :
    Ends (synchPasses (localDriver o R) o files) r fun _ r' => ¬ IsFile r'.sess n :=
  synchPasses_keeps mkdir_keeps_dir forFiles_keeps_dir rmdir_makes_no_file (fun _ h => h)
    (fun _ hdir hfile => hfile.not_dir hdir) hdir

/-- In a loop that keeps `I`, an entry fails whose turn fails where `I` holds. -/
lemma forEach_fails {body : SiteFile → StateM (SynchRun (Tree UInt8 β)) Outcome}
    {I : Tree UInt8 β → Prop} (hkeeps : ∀ g r, I r.sess → Ends (body g) r fun _ r' => I r'.sess)
    (hfails : ∀ r, I r.sess → Ends (body f) r fun out _ => out.2 = true) (hf : f ∈ files)
    (ht : I r.sess) : Ends (forEach body files) r fun out _ => out.2 = true := by
  apply (forEach_ends (I := fun _ rest failed r => I r.sess ∧ (failed = true ∨ f ∈ rest)) _
    ⟨ht, Or.inr hf⟩).mono
  · rintro out r' ⟨-, hfailed | hmem⟩
    · exact hfailed
    · cases hmem
  · rintro done g rest failed r ⟨hr, rfl | hmem⟩
    · exact (hkeeps g r hr).mono fun _ _ hr' => ⟨hr', Or.inl rfl⟩
    · rcases List.mem_cons.mp hmem with rfl | hmem
      · exact ((hkeeps f r hr).and (hfails r hr)).mono fun _ _ hout =>
          ⟨hout.1, Or.inl (by rw [hout.2, Bool.or_true])⟩
      · exact (hkeeps g r hr).mono fun _ _ hr' => ⟨hr', Or.inr hmem⟩

lemma localCall_fails (change : Change UInt8 β) {owner : ℕ} {c : LocalCall}
    (hc : localChange o c = some change) (hno : ¬ change.Enabled slash r.sess) :
    Ends (localCall (localDriver o R) owner c) r fun ok _ => ok = false := by
  have hexec : (localDriver o R).local' c r.sess = (false, r.sess) := by
    change attempt r.sess (localChange o c) = _
    apply attempt_disabled
    rintro x hx
    rw [hc] at hx
    obtain rfl := Option.some.inj hx
    exact hno
  rw [ends_localCall, hexec]

lemma synchCreateDirectories_fails (hf : f ∈ files) (hact : storedDir f)
    (hfile : IsFile r.sess (storedName f)) :
    Ends (synchCreateDirectories (localDriver o R) o files) r fun out _ => out.2 = true := by
  apply forEach_fails (fun g r hr => synchCreateDirectory_keeps mkdir_keeps_file hr) _ hf hfile
  intro r hfile
  unfold synchCreateDirectory
  rw [if_pos (show f.type = .dir ∧ f.diff = .deleted from hact)]
  simp only [ends_bind]
  apply (localCall_fails (.mkdir (storedName f)) _ _).mono
  · rintro ok r' rfl
    exact rfl
  · simp [localChange, fileFullLocal, storedName]
  · rintro ⟨hnone, -⟩
    obtain ⟨c, hc⟩ := hfile
    rw [hc] at hnone
    cases hnone

lemma synchFiles_fails (hf : f ∈ files) (ht : f.type = .file) (hd : f.diff = .deleted)
    (hdir : r.sess (storedName f) = some .dir) :
    Ends (synchFiles (localDriver o R) o files) r fun out _ => out.2 = true := by
  apply forEach_fails (fun g r hr => synchFile_keeps forFiles_keeps_dir hr) _ hf hdir
  intro r hdir
  unfold synchFile
  rw [if_neg (not_not_intro ht), hd]
  dsimp only
  unfold downloadFile
  have hexec : (localDriver o R).driver (.fileDownload (fileFullLocal f.storedState o)
      (fileFullRemote f.storedState o) f.storedState.ascii) r.sess = (SITE_FAILED, r.sess) := by
    have hno : attempt r.sess (downloadChange o R (fileFullLocal f.storedState o)
        (fileFullRemote f.storedState o)) = (false, r.sess) := by
      apply attempt_disabled
      intro change hchange henabled
      have hloc : fileFullLocal f.storedState o = o.localRoot ++ storedName f := rfl
      unfold downloadChange at hchange
      rw [hloc, relative_append] at hchange
      obtain ⟨_, hn, hchange⟩ := Option.bind_eq_some_iff.mp hchange
      obtain ⟨_, -, hchange⟩ := Option.bind_eq_some_iff.mp hchange
      obtain rfl := Option.some.inj hn
      split at hchange
      · obtain rfl := Option.some.inj hchange
        exact henabled.1 hdir
      · cases hchange
    change (_, _) = _
    rw [hno]
    rfl
  simp only [ends_bind, ends_driverCall, hexec]
  rw [if_pos (by decide)]
  simp only [ends_bind, ends_driverCall]
  exact rfl

/-- The first pass keeps the entries of files. -/
lemma synchCreateDirectories_keeps (hf : f ∈ files) (ht : f.type = .file) :
    Ends (synchCreateDirectories (localDriver o R) o files) r fun out _ => f ∈ out.1 := by
  apply (forEach_ends (I := fun done rest _ _ => f ∈ done ++ rest) _ (by simpa using hf)).mono
  · intro out r' hout
    rwa [List.append_nil] at hout
  · intro done g rest failed r hmem
    by_cases hg : g = f
    · have hidle : synchCreateDirectory (localDriver o R) o g = pure (some f, false) := by
        unfold synchCreateDirectory
        rw [if_neg (by simp [hg, ht]), hg]
      rw [hidle, ends_pure]
      simp
    · apply Ends.of_forall
      intro out r'
      simp only [List.mem_append, List.mem_cons, Ne.symm hg, false_or] at hmem ⊢
      exact hmem.imp_left Or.inl

/-- A path where the trees clash makes a pass fail. -/
lemma synchPasses_fails (h : Shown o files L R) (hoff : o.checkmoved = false)
    (hstop : o.keepGoing = false) (hclash : ¬ Apart L R) (hr : r.sess = L) :
    Ends (synchPasses (localDriver o R) o files) r fun out _ => out.2 = true := by
  unfold synchPasses
  simp only [ends_bind]
  by_cases hLR : NoClash L R
  · have hRL : ¬ NoClash R L := fun hRL => hclash ⟨hLR, hRL⟩
    unfold NoClash at hRL
    push Not at hRL
    obtain ⟨n, hL, hR⟩ := hRL
    obtain ⟨f, hf, ht, rfl, hcases⟩ := remote_entry h hoff .file hR
    have hd : f.diff = .deleted := by
      refine hcases.resolve_right ?_
      rintro ⟨-, hname, hl, -⟩
      have hthere := h.locals.there h.ordered hf hl
      rw [ht, show nameOn .localSlot f = _ from hname] at hthere
      exact IsFile.not_dir hthere hL
    have hdir : r.sess (storedName f) = some .dir := by rw [hr, hL]
    have hkeeps : Ends (synchCreateDirectories (localDriver o R) o files) r
        fun _ r' => r'.sess (storedName f) = some .dir :=
      forEach_keeps (fun g r hr => synchCreateDirectory_keeps mkdir_keeps_dir hr) hdir
    apply (hkeeps.and (synchCreateDirectories_keeps hf ht)).mono
    rintro ⟨files', failed⟩ r' ⟨hdir, hmem⟩
    cases failed with
    | true =>
      rw [if_neg (by simp [hstop])]
      exact rfl
    | false =>
      rw [if_pos (by simp)]
      simp only [ends_bind]
      apply (synchFiles_fails hmem ht hd hdir).mono
      rintro out r'' hout
      rw [if_neg (by simp [hout, hstop])]
      exact hout
  · unfold NoClash at hLR
    push Not at hLR
    obtain ⟨n, hR, hL⟩ := hLR
    obtain ⟨f, hf, ht, rfl, hcases⟩ := remote_entry h hoff .dir hR
    have hd : f.diff = .deleted := by
      refine hcases.resolve_right ?_
      rintro ⟨-, hname, hl, -⟩
      have hthere := h.locals.there h.ordered hf hl
      rw [ht, show nameOn .localSlot f = _ from hname] at hthere
      exact hL.not_dir hthere
    apply (synchCreateDirectories_fails hf ⟨ht, hd⟩ (by rwa [hr])).mono
    intro out r' hout
    rw [if_neg (by simp [hout, hstop])]
    exact hout

/-- Where the trees do not clash, a synch does all its changes. -/
lemma siteSynch_mirrors {site : Site} (h : Shown site.opts site.files L R)
    (hoff : site.opts.checkmoved = false) (hlower : site.opts.lowercase = false)
    (hapart : Apart L R) : (siteSynch (localDriver site.opts R) site L).ret = SITE_OK ∧
      (siteSynch (localDriver site.opts R) site L).sess = R := by
  obtain ⟨failed, hret, rfl, hsess⟩ := siteSynch_passes
    (Q := fun failed t => failed = false ∧ t = R) fun r hr =>
      synchPasses_mirror h hoff hlower hapart hr
  exact ⟨hret, hsess⟩

end Mirror

end Sitecopy.SynchMirror
