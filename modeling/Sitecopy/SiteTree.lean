import Sitecopy.ListSections
import Sitecopy.NameUses
import Sitecopy.NamedTrees

/-!
# The tree of a site

`build_tree_from_site` adds a node for each directory and then for each other entry, below the
node that it finds by walking the components of the name. The directories are those behind the
last other entry, which is sought from the tail.
-/
namespace Sitecopy.SiteTree
open SiteModel FileSet ReachedFiles NameUses NamedTrees ListSections

/-- `struct site_node_data` in its place. -/
abbrev TreeNode := Node Text (Option SiteFile)

def rootNode : TreeNode := ⟨none, ascii "ROOT", none⟩

/-- `g_strsplit`: of an empty string it makes an empty vector. -/
def strsplit (s : Text) : List Text := if s = [] then [] else s.splitOn slash

/-- `core_tree_building_function`. Of an empty vector it reads the second element. -/
def coreTreeBuildingFunction (tree : List TreeNode) (file : SiteFile) : Option (List TreeNode) :=
  let comps := strsplit (fileName file)
  if comps = [] then none
  else some (tree ++ [⟨some (walk tree 0 comps.dropLast), baseName (fileName file), some file⟩])

/-- The entries behind the last one that is no directory; none if there is no such entry. -/
def directoriesFromTail (files : List SiteFile) : List SiteFile :=
  match files.reverse.dropWhile fun f => f.type = .dir with
  | [] => []
  | _ :: _ => (files.reverse.takeWhile fun f => f.type = .dir).reverse

/-- `build_tree_from_site`. -/
def buildTreeFromSite (files : List SiteFile) : Option (List TreeNode) := do
  let tree ← (directoriesFromTail files).foldlM coreTreeBuildingFunction [rootNode]
  (files.takeWhile fun f => f.type ≠ .dir).foldlM coreTreeBuildingFunction tree

/-! ### Entries in their places -/

/-- `d` is the directory of `f`. -/
def Within (f d : SiteFile) : Prop :=
  ∃ base, slash ∉ base ∧ fileName f = fileName d ++ slash :: base

/-- Directories at the end, each after its parent, and every entry with one. -/
structure Arranged (files : List SiteFile) : Prop where
  sectioned : Sectioned files
  ordered : ∀ pre f post, files = pre ++ f :: post → f.type = .dir → slash ∈ fileName f →
    ∃ d ∈ pre, d.type = .dir ∧ Within f d
  parents : ∀ f ∈ files, slash ∈ fileName f → ∃ d ∈ files, d.type = .dir ∧ Within f d

/-- The node `n` of `f` is a child of the root, or of the node of its directory. -/
def Placed (tree : List TreeNode) (n : TreeNode) (f : SiteFile) : Prop :=
  (slash ∉ fileName f ∧ n.parent = some 0) ∨
    ∃ i m d, n.parent = some i ∧ tree[i]? = some m ∧ m.val = some d ∧ d.type = .dir ∧ Within f d

/-- A root, and one node for each entry, in its place. -/
structure ShowsAll (files : List SiteFile) (tree : List TreeNode) : Prop where
  root : tree.head? = some rootNode
  entries : (tree.tail.map Node.val).Perm (files.map some)
  placed : ∀ n ∈ tree.tail, ∀ f, n.val = some f → Placed tree n f

/-! ### Names -/

section Names
variable {q base : Text}

lemma afterSlash_of_not_mem (h : slash ∉ base) : afterSlash base = base := by
  cases base with
  | nil => rfl
  | cons c cs =>
    rw [List.mem_cons, not_or] at h
    rw [afterSlash, if_neg h.2, if_neg (Ne.symm h.1)]

lemma afterSlash_append (h : slash ∉ base) : afterSlash (q ++ slash :: base) = base := by
  induction q with
  | nil => rw [List.nil_append, afterSlash, if_neg h, if_pos rfl]
  | cons c q ih => rw [List.cons_append, afterSlash, if_pos (by simp), ih]

lemma baseName_of_mem {name : Text} {c : UInt8} (hc : c ∈ name) (hne : c ≠ slash) :
    baseName name = afterSlash name :=
  if_neg fun h => hne (h.2 c hc)

lemma splitOn_append (h : slash ∉ base) :
    (q ++ slash :: base).splitOn slash = q.splitOn slash ++ [base] := by
  rw [List.splitOn_append_cons_self, List.splitOn_eq_singleton h]

end Names

/-! ### Growing -/

/-- What the names of the nodes below `i` begin with. -/
def pathOf (tree : List TreeNode) (i : ℕ) : Text :=
  match (tree[i]?).bind Node.val with
  | none => []
  | some d => fileName d ++ [slash]

/-- The node `i` is the one of a directory with the name. -/
def DirectoryAt (tree : List TreeNode) (i : ℕ) (name : Text) : Prop :=
  ∃ m e, tree[i]? = some m ∧ m.val = some e ∧ e.type = .dir ∧ fileName e = name

section Append
variable {tree more : List TreeNode} {i : ℕ} {name : Text} {n : TreeNode} {f : SiteFile}

lemma getElem?_append {m : TreeNode} (h : tree[i]? = some m) : (tree ++ more)[i]? = some m := by
  obtain ⟨hlt, -⟩ := List.getElem?_eq_some_iff.mp h
  rw [List.getElem?_append_left hlt, h]

lemma pathOf_append (hi : i < tree.length) : pathOf (tree ++ more) i = pathOf tree i := by
  rw [pathOf, List.getElem?_append_left hi, ← pathOf]

lemma DirectoryAt.append (h : DirectoryAt tree i name) : DirectoryAt (tree ++ more) i name := by
  obtain ⟨m, e, hm, he⟩ := h
  exact ⟨m, e, getElem?_append hm, he⟩

lemma DirectoryAt.lt_length (h : DirectoryAt tree i name) : i < tree.length := by
  obtain ⟨m, e, hm, -⟩ := h
  exact (List.getElem?_eq_some_iff.mp hm).1

lemma DirectoryAt.pathOf (h : DirectoryAt tree i name) : pathOf tree i = name ++ [slash] := by
  obtain ⟨m, e, hm, he, -, hname⟩ := h
  rw [SiteTree.pathOf, hm, Option.bind_some, he, ← hname]

lemma Placed.append (h : Placed tree n f) : Placed (tree ++ more) n f := by
  rcases h with htop | ⟨i, m, d, hparent, hm, hd⟩
  · exact Or.inl htop
  · exact Or.inr ⟨i, m, d, hparent, getElem?_append hm, hd⟩

/-- A node in its place, and with the name that is left of the one of its entry. -/
structure Settled (tree : List TreeNode) (n : TreeNode) (f : SiteFile) : Prop where
  placed : Placed tree n f
  named : ∃ i < tree.length, n.parent = some i ∧ fileName f = pathOf tree i ++ n.name

lemma Settled.append (h : Settled tree n f) : Settled (tree ++ more) n f where
  placed := h.placed.append
  named := by
    obtain ⟨i, hi, hparent, hname⟩ := h.named
    refine ⟨i, by rw [List.length_append]; omega, hparent, ?_⟩
    rw [pathOf_append hi, hname]

end Append

/-- The invariant while nodes are added. -/
structure Grown (done : List SiteFile) (nodes : List TreeNode) : Prop where
  entries : nodes.map Node.val = done.map some
  plain : ∀ f ∈ done, ∃ c ∈ fileName f, c ≠ slash
  settled : ∀ n ∈ nodes, ∀ f, n.val = some f → Settled (rootNode :: nodes) n f
  found : ∀ d ∈ done, d.type = .dir → ∃ i,
    lookup (rootNode :: nodes) 0 ((fileName d).splitOn slash) = some i ∧
      DirectoryAt (rootNode :: nodes) i (fileName d)

lemma Grown.nil : Grown [] [] := by
  refine ⟨rfl, ?_, ?_, ?_⟩ <;> simp

section Step
variable {done : List SiteFile} {nodes : List TreeNode} {f : SiteFile} {n : TreeNode}

/-- The branch to which an entry is added. -/
lemma Grown.branch (h : Grown done nodes) (hname : fileName f ≠ [])
    (hdir : slash ∈ fileName f → ∃ d ∈ done, d.type = .dir ∧ Within f d) :
    ∃ path i, (fileName f).splitOn slash = path ++ [baseName (fileName f)] ∧
      lookup (rootNode :: nodes) 0 path = some i ∧ (∃ c ∈ fileName f, c ≠ slash) ∧
      Settled (rootNode :: nodes) ⟨some i, baseName (fileName f), some f⟩ f := by
  by_cases hslash : slash ∈ fileName f
  · obtain ⟨d, hd, htype, base, hbase, hf⟩ := hdir hslash
    obtain ⟨i, hlookup, hat⟩ := h.found d hd htype
    obtain ⟨c, hc, hne⟩ := h.plain d hd
    have hcf : c ∈ fileName f := by
      rw [hf]
      exact List.mem_append_left _ hc
    have hlast : baseName (fileName f) = base := by
      rw [baseName_of_mem hcf hne, hf, afterSlash_append hbase]
    refine ⟨(fileName d).splitOn slash, i, ?_, hlookup, ⟨c, hcf, hne⟩, ?_, ?_⟩
    · rw [hlast, hf, splitOn_append hbase]
    · obtain ⟨m, e, hm, he, hedir, hename⟩ := hat
      refine Or.inr ⟨i, m, e, rfl, hm, he, hedir, base, hbase, ?_⟩
      rw [hf, hename]
    · refine ⟨i, hat.lt_length, rfl, ?_⟩
      rw [hlast, hat.pathOf, hf, List.append_assoc, List.singleton_append]
  · obtain ⟨c, hc⟩ := List.exists_mem_of_ne_nil _ hname
    have hne : c ≠ slash := fun heq => hslash (heq ▸ hc)
    have hlast : baseName (fileName f) = fileName f := by
      rw [baseName_of_mem hc hne, afterSlash_of_not_mem hslash]
    refine ⟨[], 0, ?_, lookup_nil, ⟨c, hc, hne⟩, Or.inl ⟨hslash, rfl⟩, 0, Nat.succ_pos _, rfl, ?_⟩
    · rw [hlast, List.splitOn_eq_singleton hslash]
      rfl
    · rw [hlast]
      rfl

/-- The first node at the path of a directory is one of a directory with the same name. -/
lemma found_child (hentries : nodes.map Node.val = done.map some)
    (hsettled : ∀ n ∈ nodes, ∀ f, n.val = some f → Settled (rootNode :: nodes) n f)
    (hdirs : ∀ g ∈ done, g.type = .dir) (hn : n ∈ nodes) {i : ℕ} (hparent : n.parent = some i)
    {path : List Text} (hlookup : lookup (rootNode :: nodes) 0 path = some i)
    (hf : fileName f = pathOf (rootNode :: nodes) i ++ n.name) :
    ∃ j, lookup (rootNode :: nodes) 0 (path ++ [n.name]) = some j ∧
      DirectoryAt (rootNode :: nodes) j (fileName f) := by
  obtain ⟨j, hj⟩ := exists_firstChild (List.mem_cons_of_mem rootNode hn) hparent
  obtain ⟨m, hm, hmparent, hmname⟩ := firstChild_cases hj
  refine ⟨j, (lookup_concat hlookup).trans hj, ?_⟩
  rcases List.mem_cons.mp (List.mem_of_getElem? hm) with rfl | hmem
  · exact nomatch hmparent
  · obtain ⟨e, he, heq⟩ := List.mem_map.mp (hentries ▸ List.mem_map_of_mem (f := Node.val) hmem)
    obtain ⟨i', -, hparent', hename⟩ := (hsettled m hmem e heq.symm).named
    obtain rfl : i = i' := Option.some.inj (hmparent.symm.trans hparent')
    exact ⟨m, e, hm, heq.symm, hdirs e he, by rw [hename, hmname, hf]⟩

/-- An entry gets its node. -/
lemma Grown.step (h : Grown done nodes) (hname : fileName f ≠ [])
    (hdir : slash ∈ fileName f → ∃ d ∈ done, d.type = .dir ∧ Within f d)
    (horder : f.type = .dir → ∀ g ∈ done, g.type = .dir) :
    ∃ n, coreTreeBuildingFunction (rootNode :: nodes) f = some (rootNode :: (nodes ++ [n])) ∧
      Grown (done ++ [f]) (nodes ++ [n]) := by
  obtain ⟨path, i, hsplit, hlookup, hplain, hnew⟩ := h.branch hname hdir
  let n : TreeNode := ⟨some i, baseName (fileName f), some f⟩
  refine ⟨n, ?_, ?_⟩
  · have hcomps : strsplit (fileName f) = path ++ [baseName (fileName f)] := by
      rw [strsplit, if_neg hname, hsplit]
    simp only [coreTreeBuildingFunction, hcomps, List.dropLast_concat, walk_eq_of_lookup hlookup]
    exact if_neg (by simp)
  · have hentries : (nodes ++ [n]).map Node.val = (done ++ [f]).map some := by
      rw [List.map_append, List.map_append, h.entries]
      rfl
    have hsettled : ∀ m ∈ nodes ++ [n], ∀ g, m.val = some g →
        Settled (rootNode :: nodes ++ [n]) m g := by
      intro m hm g hg
      rcases List.mem_append.mp hm with hm | hm
      · exact (h.settled m hm g hg).append
      · obtain rfl := List.mem_singleton.mp hm
        obtain rfl : f = g := Option.some.inj hg
        exact hnew.append
    refine ⟨hentries, ?_, hsettled, ?_⟩
    · intro g hg
      rcases List.mem_append.mp hg with hg | hg
      · exact h.plain g hg
      · exact List.mem_singleton.mp hg ▸ hplain
    · intro d hd htype
      rcases List.mem_append.mp hd with hd | hd
      · obtain ⟨j, hj, hat⟩ := h.found d hd htype
        exact ⟨j, lookup_append hj _, hat.append⟩
      · obtain rfl : d = f := List.mem_singleton.mp hd
        have hdirs : ∀ g ∈ done ++ [d], g.type = .dir := by
          intro g hg
          rcases List.mem_append.mp hg with hg | hg
          · exact horder htype g hg
          · exact List.mem_singleton.mp hg ▸ htype
        obtain ⟨i', -, hparent, hpath⟩ := hnew.append.named
        obtain rfl : i = i' := Option.some.inj hparent
        rw [hsplit]
        exact found_child hentries hsettled hdirs (List.mem_append_right _ List.mem_cons_self) rfl
          (lookup_append hlookup _) hpath

/-- All entries get their nodes. -/
lemma Grown.run {files : List SiteFile} (h : Grown done nodes)
    (hname : ∀ f ∈ files, fileName f ≠ [])
    (hdir : ∀ pre f post, files = pre ++ f :: post → slash ∈ fileName f →
      ∃ d ∈ done ++ pre, d.type = .dir ∧ Within f d)
    (horder : ∀ pre f post, files = pre ++ f :: post → f.type = .dir →
      ∀ g ∈ done ++ pre, g.type = .dir) :
    ∃ nodes', files.foldlM coreTreeBuildingFunction (rootNode :: nodes) =
        some (rootNode :: nodes') ∧ Grown (done ++ files) nodes' := by
  induction files generalizing done nodes with
  | nil => exact ⟨nodes, rfl, by rwa [List.append_nil]⟩
  | cons f files ih =>
    obtain ⟨n, hstep, hgrown⟩ := h.step (hname f List.mem_cons_self)
      (by simpa using hdir [] f files rfl) (by simpa using horder [] f files rfl)
    have hdir' : ∀ pre g post, files = pre ++ g :: post → slash ∈ fileName g →
        ∃ d ∈ done ++ [f] ++ pre, d.type = .dir ∧ Within g d := by
      rintro pre g post rfl
      simpa using hdir (f :: pre) g post rfl
    have horder' : ∀ pre g post, files = pre ++ g :: post → g.type = .dir →
        ∀ d ∈ done ++ [f] ++ pre, d.type = .dir := by
      rintro pre g post rfl
      simpa using horder (f :: pre) g post rfl
    obtain ⟨nodes', hrun, hgrown'⟩ :=
      ih hgrown (fun g hg => hname g (List.mem_cons_of_mem _ hg)) hdir' horder'
    refine ⟨nodes', ?_, ?_⟩
    · rw [List.foldlM_cons, hstep]
      exact hrun
    · rwa [List.append_assoc] at hgrown'

end Step

/-! ### The passes -/

section Passes
variable {files pre post : List SiteFile} {tree tree' : List TreeNode}

lemma sectioned_split (h : Sectioned files) :
    ∃ pre post, files = pre ++ post ∧ (∀ f ∈ pre, f.type ≠ .dir) ∧ ∀ f ∈ post, f.type = .dir := by
  induction files with
  | nil => exact ⟨[], [], rfl, by simp, by simp⟩
  | cons f files ih =>
    obtain ⟨hf, hrest⟩ := List.pairwise_cons.mp h
    by_cases hdir : f.type = .dir
    · refine ⟨[], f :: files, rfl, by simp, fun g hg => ?_⟩
      rcases List.mem_cons.mp hg with rfl | hg
      · exact hdir
      · exact hf g hg hdir
    · obtain ⟨pre, post, rfl, hpre, hpost⟩ := ih hrest
      exact ⟨f :: pre, post, rfl, List.forall_mem_cons.mpr ⟨hdir, hpre⟩, hpost⟩

lemma filesFromHead_eq (hpre : ∀ f ∈ pre, f.type ≠ .dir) (hpost : ∀ f ∈ post, f.type = .dir) :
    (pre ++ post).takeWhile (fun f => f.type ≠ .dir) = pre := by
  rw [List.takeWhile_append_of_pos (by simpa using hpre)]
  cases post with
  | nil => exact List.append_nil pre
  | cons d post => simp [hpost d List.mem_cons_self]

/-- The walk from the tail ends at an entry that is no directory, if there is one. -/
lemma directoriesFromTail_eq (hpre : ∀ f ∈ pre, f.type ≠ .dir) (hpost : ∀ f ∈ post, f.type = .dir)
    (hstop : pre ++ post = [] ∨ ∃ f ∈ pre ++ post, f.type ≠ .dir) :
    directoriesFromTail (pre ++ post) = post := by
  rcases List.eq_nil_or_concat' pre with rfl | ⟨init, last, rfl⟩
  · rcases hstop with hnil | ⟨f, hf, hne⟩
    · obtain rfl : post = [] := hnil
      rfl
    · exact absurd (hpost f hf) hne
  · have hlast : last.type ≠ .dir := hpre last (by simp)
    have hrev : (init ++ [last] ++ post).reverse = post.reverse ++ last :: init.reverse := by simp
    have hdirs : ∀ f ∈ post.reverse, decide (f.type = .dir) = true := by simpa using hpost
    rw [directoriesFromTail, hrev, List.dropWhile_append_of_pos hdirs,
      List.takeWhile_append_of_pos hdirs]
    simp [hlast]

/-- With directories only it runs over the head. -/
lemma directoriesFromTail_dirs (hpost : ∀ f ∈ post, f.type = .dir) :
    directoriesFromTail post = [] := by
  have hdirs : ∀ f ∈ post.reverse, decide (f.type = .dir) = true := by simpa using hpost
  rw [directoriesFromTail, List.dropWhile_eq_nil_iff.mpr hdirs]

lemma core_name {f : SiteFile} (h : coreTreeBuildingFunction tree f = some tree') :
    fileName f ≠ [] := by
  intro hname
  simp [coreTreeBuildingFunction, strsplit, hname] at h

lemma run_names (h : files.foldlM coreTreeBuildingFunction tree = some tree') :
    ∀ f ∈ files, fileName f ≠ [] := by
  induction files generalizing tree with
  | nil => simp
  | cons f files ih =>
    rw [List.foldlM_cons] at h
    obtain ⟨t, hstep, hrest⟩ := Option.bind_eq_some_iff.mp h
    exact List.forall_mem_cons.mpr ⟨core_name hstep, ih hrest⟩

/-- Both passes over a list that is arranged. -/
lemma Arranged.grown (h : Arranged (pre ++ post)) (hpre : ∀ f ∈ pre, f.type ≠ .dir)
    (hpost : ∀ f ∈ post, f.type = .dir) (hname : ∀ f ∈ pre ++ post, fileName f ≠ []) :
    ∃ tree nodes, post.foldlM coreTreeBuildingFunction [rootNode] = some tree ∧
      pre.foldlM coreTreeBuildingFunction tree = some (rootNode :: nodes) ∧
      Grown (post ++ pre) nodes := by
  have hdirs : ∀ d, d ∈ pre ++ post → d.type = .dir → d ∈ post := by
    intro d hd htype
    exact (List.mem_append.mp hd).resolve_left fun hmem => hpre d hmem htype
  have hfirst : ∀ before f after, post = before ++ f :: after → slash ∈ fileName f →
      ∃ d ∈ [] ++ before, d.type = .dir ∧ Within f d := by
    rintro before f after rfl hslash
    have hf := hpost f (by simp)
    obtain ⟨d, hd, htype, hwithin⟩ := h.ordered (pre ++ before) f after (by simp) hf hslash
    refine ⟨d, ?_, htype, hwithin⟩
    exact (List.mem_append.mp hd).resolve_left fun hmem => hpre d hmem htype
  have hsecond : ∀ before f after, pre = before ++ f :: after → slash ∈ fileName f →
      ∃ d ∈ post ++ before, d.type = .dir ∧ Within f d := by
    rintro before f after rfl hslash
    obtain ⟨d, hd, htype, hwithin⟩ := h.parents f (by simp) hslash
    exact ⟨d, List.mem_append_left _ (hdirs d hd htype), htype, hwithin⟩
  obtain ⟨dirs, hdirsRun, hgrown⟩ := Grown.nil.run
    (fun f hf => hname f (List.mem_append_right _ hf)) hfirst (by
      rintro before f after rfl - g hg
      exact hpost g (List.mem_append_left _ hg))
  obtain ⟨nodes, hrun, hgrown⟩ := hgrown.run
    (fun f hf => hname f (List.mem_append_left _ hf)) hsecond (by
      rintro before f after rfl hf
      exact absurd hf (hpre f (by simp)))
  exact ⟨_, nodes, hdirsRun, hrun, hgrown⟩

/-- Every entry is in its place in the tree exactly if there is some entry that is no directory,
or no entry at all, and every entry has a name. -/
theorem build_tree_iff (h : Arranged files) :
    (∃ tree, buildTreeFromSite files = some tree ∧ ShowsAll files tree) ↔
      (files = [] ∨ ∃ f ∈ files, f.type ≠ .dir) ∧ ∀ f ∈ files, fileName f ≠ [] := by
  obtain ⟨pre, post, rfl, hpre, hpost⟩ := sectioned_split h.sectioned
  have hfiles := filesFromHead_eq hpre hpost
  constructor
  · rintro ⟨tree, hbuild, hshows⟩
    have hstop : pre ++ post = [] ∨ ∃ f ∈ pre ++ post, f.type ≠ .dir := by
      by_contra hno
      rw [not_or, not_exists] at hno
      have hall : ∀ f ∈ pre ++ post, f.type = .dir :=
        fun f hf => by_contra fun hne => hno.2 f ⟨hf, hne⟩
      obtain rfl : pre = [] := List.eq_nil_iff_forall_not_mem.mpr fun f hf =>
        hpre f hf (hall f (List.mem_append_left _ hf))
      -- nothing is added to the root
      rw [buildTreeFromSite, hfiles, directoriesFromTail_dirs hall] at hbuild
      obtain rfl : [rootNode] = tree := Option.some.inj hbuild
      exact hno.1 (List.map_eq_nil_iff.mp hshows.entries.nil_eq.symm)
    rw [buildTreeFromSite, hfiles, directoriesFromTail_eq hpre hpost hstop] at hbuild
    obtain ⟨t, hdirs, hrest⟩ := Option.bind_eq_some_iff.mp hbuild
    exact ⟨hstop, List.forall_mem_append.mpr ⟨run_names hrest, run_names hdirs⟩⟩
  · rintro ⟨hstop, hname⟩
    obtain ⟨t, nodes, hdirs, hrest, hgrown⟩ := h.grown hpre hpost hname
    refine ⟨rootNode :: nodes, ?_, rfl, ?_, fun n hn f hf => (hgrown.settled n hn f hf).placed⟩
    · rw [buildTreeFromSite, hfiles, directoriesFromTail_eq hpre hpost hstop, hdirs]
      exact hrest
    · rw [List.tail_cons, hgrown.entries]
      exact List.perm_append_comm.map some

end Passes

/-- A site with a new directory. -/
def directorySite : Site :=
  (fileSetLocal .dir { filename := some (ascii "d"), existing := true } { opts := {} }).1

/-- The same site with a file in the directory. -/
def fileSite : Site :=
  (fileSetLocal .file { filename := some (ascii "d/f"), existing := true } directorySite).1

lemma fileSite_arranged : Arranged fileSite.files where
  sectioned := by
    unfold Sectioned
    decide
  ordered := by
    intro pre f post h hdir hslash
    have hmem : f ∈ fileSite.files := by
      rw [h]
      exact List.mem_append_right _ List.mem_cons_self
    have htop : ∀ f ∈ fileSite.files, f.type = .dir → slash ∉ fileName f := by decide
    exact absurd hslash (htop f hmem hdir)
  parents := by
    intro f hf hslash
    have hname : ∀ f ∈ fileSite.files, slash ∈ fileName f → fileName f = ascii "d/f" := by decide
    have hdir : ∃ d ∈ fileSite.files, d.type = .dir ∧ fileName d = ascii "d" := by decide
    obtain ⟨d, hd, htype, hdname⟩ := hdir
    refine ⟨d, hd, htype, ascii "f", by decide, ?_⟩
    rw [hname f hf hslash, hdname]
    rfl

theorem build_tree_iff_file :
    (∃ tree, buildTreeFromSite fileSite.files = some tree ∧ ShowsAll fileSite.files tree) ↔
      (fileSite.files = [] ∨ ∃ f ∈ fileSite.files, f.type ≠ .dir) ∧
        ∀ f ∈ fileSite.files, fileName f ≠ [] :=
  build_tree_iff fileSite_arranged

/-- Without the file the directory is not in the tree. -/
theorem directory_not_shown :
    Reached {} directorySite ∧ Arranged directorySite.files ∧
      directorySite.files.length = 1 ∧
      buildTreeFromSite directorySite.files = some [rootNode] ∧
      ¬ ∃ tree, buildTreeFromSite directorySite.files = some tree ∧
        ShowsAll directorySite.files tree := by
  have htop : ∀ f ∈ directorySite.files, slash ∉ fileName f := by decide
  have hbuild : buildTreeFromSite directorySite.files = some [rootNode] := rfl
  have hsectioned : Sectioned directorySite.files := by
    unfold Sectioned
    decide
  refine ⟨.setLocal _ _ .empty rfl, ⟨hsectioned, ?_, ?_⟩, rfl, hbuild, ?_⟩
  · intro pre f post h _ hslash
    have hmem : f ∈ directorySite.files := by
      rw [h]
      exact List.mem_append_right _ List.mem_cons_self
    exact absurd hslash (htop f hmem)
  · exact fun f hf hslash => absurd hslash (htop f hf)
  · rintro ⟨tree, hsome, hshows⟩
    obtain rfl : [rootNode] = tree := Option.some.inj (hbuild.symm.trans hsome)
    exact absurd hshows.entries.length_eq (by decide)

end Sitecopy.SiteTree
