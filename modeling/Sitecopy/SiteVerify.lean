import Sitecopy.RemoteFetch

/-!
# Verifying the remote site

`site_verify` asks for one listing, that of the root, and compares it with the stored
states. Its verdict is one counter, which only takes notice of names.
-/
namespace Sitecopy.SiteVerify
open SiteModel SiteOperations StateProgram RemoteFetch Paths StackSearch

/-! ### The comparison -/

/-- What `site_verify_compare` makes of a remote file: it looks for the first stored state
of the same name. -/
def verifyFile (o : SiteOptions) (files : List SiteFile) (lfile : ProtoFile) : FileDiff :=
  match files.find? fun file =>
      file.storedState.existing && file.storedState.filename = some lfile.filename with
  | none => .new
  | some file =>
    let differs : Bool := match o.stateMethod with
      | .checksum => file.storedState.checksum ≠ lfile.checksum
      | .timesize => file.storedState.size ≠ lfile.size ||
          (o.safemode && file.serverState.time ≠ lfile.modtime)
    if differs then .changed else .unchanged

/-- The loop over the remote files, with what is told to `fe_verified`. -/
def verifyLoop (o : SiteOptions) (files : List SiteFile) :
    List ProtoFile → ℤ → ℤ × List (Text × FileDiff)
  | [], numremote => (numremote, [])
  | lfile :: rest, numremote =>
    let numremote := numremote - 1
    let diff := verifyFile o files lfile
    let numremote := if diff = .new then numremote + 1 else numremote
    let r := verifyLoop o files rest numremote
    (r.1, (lfile.filename, diff) :: r.2)

/-- `ret`, `*numremoved` if it is set, and the calls of `fe_verified`. -/
structure VerifyResult where
  ret : ℤ
  numremoved : Option ℤ := none
  verified : List (Text × FileDiff) := []
  deriving DecidableEq, Repr

/-- The files whose stored state exists. -/
def storedFiles (files : List SiteFile) : List SiteFile :=
  files.filter fun file => file.storedState.existing

/-- `site_verify_compare`. -/
def siteVerifyCompare (o : SiteOptions) (files : List SiteFile) (remote : List ProtoFile) :
    VerifyResult :=
  let r := verifyLoop o files remote (storedFiles files).length
  { ret := if r.1 ≠ 0 then SITE_ERRORS else SITE_OK
    numremoved := some r.1
    verified := r.2 }

/-- `site_verify`. -/
def siteVerify {σ : Type} (env : FetchEnv σ) (site : Site) : StateM σ VerifyResult := do
  let init ← fetchCall env .init
  if init.code ≠ SITE_OK then do
    let _ ← fetchCall env .error
    pure { ret := init.code }
  else if !env.fetches then pure { ret := SITE_UNSUPPORTED }
  else do
    let r ← fetchCall env (.fetchList site.opts.remoteRoot true)
    fetchFinish env
    if r.code = SITE_OK then pure (siteVerifyCompare site.opts site.files r.files)
    else pure { ret := SITE_FAILED }

/-! ### What is on the server -/

/-- The entries below a directory down to some depth, by their paths. -/
def entriesBelow (tree : RemoteTree) : ℕ → Text → List ProtoFile
  | 0, d => (tree.listing d).map fun f => { f with filename := join slash d f.filename }
  | h + 1, d => ((tree.listing d).map fun f => { f with filename := join slash d f.filename }) ++
      (directories d (tree.listing d)).flatMap (entriesBelow tree h)

/-- All entries of a remote tree. -/
def remoteEntries (tree : RemoteTree) : List ProtoFile := entriesBelow tree tree.height []

/-- The directories of a tree. -/
inductive IsDirectory (tree : RemoteTree) : Text → Prop
  | root : IsDirectory tree []
  | child {d e : Text} : IsDirectory tree d → e ∈ directories d (tree.listing d) →
      IsDirectory tree e

lemma mem_entriesBelow {tree : RemoteTree} {h : ℕ} {d : Text}
    (hd : HeightAtMost (fun d => directories d (tree.listing d)) h d) (hdir : IsDirectory tree d)
    {f : ProtoFile} (hf : f ∈ entriesBelow tree h d) :
    ∃ e, IsDirectory tree e ∧ ∃ g ∈ tree.listing e, f = { g with filename := join slash e g.filename } := by
  induction h generalizing d with
  | zero =>
    obtain ⟨g, hg, rfl⟩ := List.mem_map.mp hf
    exact ⟨d, hdir, g, hg, rfl⟩
  | succ h ih =>
    rcases List.mem_append.mp hf with hf | hf
    · obtain ⟨g, hg, rfl⟩ := List.mem_map.mp hf
      exact ⟨d, hdir, g, hg, rfl⟩
    · obtain ⟨e, he, hf⟩ := List.mem_flatMap.mp hf
      exact ih (hd e he) (hdir.child he) hf

lemma IsDirectory.entries {tree : RemoteTree} {d : Text} (hdir : IsDirectory tree d) :
    ∃ h, HeightAtMost (fun d => directories d (tree.listing d)) h d ∧
      entriesBelow tree h d ⊆ remoteEntries tree := by
  induction hdir with
  | root => exact ⟨tree.height, tree.finite, List.Subset.refl _⟩
  | child _ he ih =>
    obtain ⟨h, hd, hsub⟩ := ih
    cases h with
    | zero =>
      rw [show directories _ _ = [] from hd] at he
      cases he
    | succ h =>
      refine ⟨h, hd _ he, fun f hf => hsub ?_⟩
      exact List.mem_append_right _ (List.mem_flatMap.mpr ⟨_, he, hf⟩)

/-- The entries of a tree are those of its directories. -/
theorem mem_remoteEntries {tree : RemoteTree} {f : ProtoFile} : f ∈ remoteEntries tree ↔
    ∃ d, IsDirectory tree d ∧ ∃ g ∈ tree.listing d,
      f = { g with filename := join slash d g.filename } := by
  constructor
  · exact mem_entriesBelow tree.finite .root
  · rintro ⟨d, hdir, g, hg, rfl⟩
    obtain ⟨h, -, hsub⟩ := hdir.entries
    apply hsub
    have hmem : ({ g with filename := join slash d g.filename } : ProtoFile) ∈
        (tree.listing d).map fun f => { f with filename := join slash d f.filename } :=
      List.mem_map.mpr ⟨g, hg, rfl⟩
    cases h with
    | zero => exact hmem
    | succ h => exact List.mem_append_left _ hmem

/-! ### The verdict -/

/-- The remote entry has the type and the name of the stored state. -/
def SameKey (file : SiteFile) (f : ProtoFile) : Prop :=
  fetchedType f.type = file.type ∧ file.storedState.filename = some f.filename

instance (file : SiteFile) (f : ProtoFile) : Decidable (SameKey file f) :=
  inferInstanceAs (Decidable (_ ∧ _))

/-- The stored state compares as unchanged. -/
def Unchanged (o : SiteOptions) (file : SiteFile) (f : ProtoFile) : Prop :=
  match o.stateMethod with
  | .checksum => file.storedState.checksum = f.checksum
  | .timesize => file.storedState.size = f.size ∧
      (o.safemode = true → file.serverState.time = f.modtime)

instance (o : SiteOptions) (file : SiteFile) (f : ProtoFile) : Decidable (Unchanged o file f) :=
  match h : o.stateMethod with
  | .checksum => decidable_of_iff (file.storedState.checksum = f.checksum) (by simp [Unchanged, h])
  | .timesize => decidable_of_iff (file.storedState.size = f.size ∧
      (o.safemode = true → file.serverState.time = f.modtime)) (by simp [Unchanged, h])

/-- Every remote entry is stored. -/
def NoneAdded (site : Site) (tree : RemoteTree) : Prop :=
  ∀ f ∈ remoteEntries tree, ∃ file ∈ storedFiles site.files, SameKey file f

instance (site : Site) (tree : RemoteTree) : Decidable (NoneAdded site tree) :=
  inferInstanceAs (Decidable (∀ f ∈ remoteEntries tree, _))

/-- No stored state differs from the remote entry of its type and name. -/
def NoneChanged (site : Site) (tree : RemoteTree) : Prop :=
  ∀ file ∈ storedFiles site.files, ∀ f ∈ remoteEntries tree, SameKey file f →
    Unchanged site.opts file f

instance (site : Site) (tree : RemoteTree) : Decidable (NoneChanged site tree) :=
  inferInstanceAs (Decidable (∀ file ∈ storedFiles site.files, ∀ f ∈ remoteEntries tree, _ → _))

/-- The remote tree is what the stored states say. -/
structure Matches (site : Site) (tree : RemoteTree) : Prop where
  stored : ∀ file ∈ storedFiles site.files, ∃ f ∈ remoteEntries tree, SameKey file f
  remote : NoneAdded site tree
  unchanged : NoneChanged site tree

/-- The file is on the server. -/
def Present (tree : RemoteTree) (file : SiteFile) : Prop := ∃ f ∈ remoteEntries tree, SameKey file f

instance (tree : RemoteTree) (file : SiteFile) : Decidable (Present tree file) :=
  inferInstanceAs (Decidable (∃ f ∈ remoteEntries tree, SameKey file f))

/-- The number of stored states that are missing from the server. -/
def missing (site : Site) (tree : RemoteTree) : ℕ :=
  (storedFiles site.files).countP fun file => ¬ Present tree file

/-- The number of stored states that are on the server. -/
def present (site : Site) (tree : RemoteTree) : ℕ :=
  (storedFiles site.files).countP fun file => Present tree file

/-- Some stored state has this name, whatever its type is. -/
def NameStored (files : List SiteFile) (name : Text) : Prop :=
  ∃ file ∈ storedFiles files, file.storedState.filename = some name

instance (files : List SiteFile) (name : Text) : Decidable (NameStored files name) :=
  inferInstanceAs (Decidable (∃ file ∈ storedFiles files, _))

/-- The number of entries in the root directory whose names are stored. -/
def matched (site : Site) (tree : RemoteTree) : ℕ :=
  (tree.listing []).countP fun f => NameStored site.files f.filename

/-- The verdict is true: `SITE_OK` if and only if the tree matches, and otherwise
`SITE_ERRORS` with the number of files missing. -/
def Truthful (site : Site) (tree : RemoteTree) (r : VerifyResult) : Prop :=
  (r.ret = SITE_OK ↔ Matches site tree) ∧
    (¬ Matches site tree → r.ret = SITE_ERRORS ∧ r.numremoved = some (missing site tree : ℤ))

lemma verifyFile_new_iff {o : SiteOptions} {files : List SiteFile} {f : ProtoFile} :
    verifyFile o files f = .new ↔ ¬ NameStored files f.filename := by
  unfold verifyFile
  cases hfind : files.find? fun file =>
      file.storedState.existing && file.storedState.filename = some f.filename with
  | none =>
    simp only [true_iff]
    rintro ⟨file, hfile, hname⟩
    obtain ⟨hmem, hex⟩ := List.mem_filter.mp hfile
    have hno := List.find?_eq_none.mp hfind file hmem
    simp [hex, hname] at hno
  | some file =>
    have hfound := List.find?_some hfind
    simp only [Bool.and_eq_true, decide_eq_true_eq] at hfound
    have hstored : NameStored files f.filename :=
      ⟨file, List.mem_filter.mpr ⟨List.mem_of_find?_eq_some hfind, hfound.1⟩, hfound.2⟩
    simp only [hstored, not_true, iff_false]
    split_ifs <;> simp

/-- The counter goes down by one for every remote file whose name is stored. -/
lemma verifyLoop_count (o : SiteOptions) (files : List SiteFile) (remote : List ProtoFile) (n : ℤ) :
    (verifyLoop o files remote n).1 =
      n - (remote.map ProtoFile.filename).countP fun name => NameStored files name := by
  induction remote generalizing n with
  | nil => simp [verifyLoop]
  | cons f remote ih =>
    simp only [verifyLoop, ih, verifyFile_new_iff, List.map_cons, List.countP_cons]
    by_cases h : NameStored files f.filename
    · simp only [h, not_true, if_false, decide_true, if_true]
      push_cast
      omega
    · simp only [h, not_false_eq_true, if_true, decide_false]
      simp

/-- The number that the comparison of the root listing comes to. -/
lemma compare_numremoved {site : Site} {tree : RemoteTree} {remote : List ProtoFile}
    (h : remote.map shown = (tree.listing []).map shown) :
    (verifyLoop site.opts site.files remote (storedFiles site.files).length).1 =
      (present site tree + missing site tree : ℤ) - matched site tree := by
  have hnames : remote.map ProtoFile.filename = (tree.listing []).map ProtoFile.filename := by
    have hsnd := congrArg (List.map Prod.snd) h
    simpa [shown, Function.comp_def] using hsnd
  have hcount : (storedFiles site.files).length = present site tree + missing site tree := by
    rw [present, missing, List.length_eq_countP_add_countP (fun file => decide (Present tree file))]
    congr 2
    funext file
    simp
  rw [verifyLoop_count, hnames, List.countP_map, hcount, matched]
  push_cast
  rfl

lemma missing_eq_zero {site : Site} {tree : RemoteTree} :
    missing site tree = 0 ↔ ∀ file ∈ storedFiles site.files, Present tree file := by
  rw [missing, List.countP_eq_zero]
  simp

lemma matches_iff {site : Site} {tree : RemoteTree} : Matches site tree ↔
    missing site tree = 0 ∧ NoneAdded site tree ∧ NoneChanged site tree := by
  rw [missing_eq_zero]
  exact ⟨fun h => ⟨h.stored, h.remote, h.unchanged⟩, fun h => ⟨h.1, h.2.1, h.2.2⟩⟩

/-! ### The whole verification -/

section Verify
variable {σ : Type} {env : FetchEnv σ} {site : Site} {tree : RemoteTree}

/-- The driver is connected to a server with this tree, and lists one directory at a time. -/
structure Served (env : FetchEnv σ) (o : SiteOptions) (tree : RemoteTree) : Prop where
  fetches : env.fetches = true
  opens : ∀ s, (env.exec .init s).1.code = SITE_OK
  lists : ∀ d need s,
    (env.exec (.fetchList (o.remoteRoot ++ d ++ slashAfter d) need) s).1.code = SITE_OK
  entries : ∀ d need s,
    (env.exec (.fetchList (o.remoteRoot ++ d ++ slashAfter d) need) s).1.files.map shown =
      (tree.listing d).map shown

lemma siteVerify_served (h : Served env site.opts tree) (sess : σ) :
    Ends (siteVerify env site) sess fun r _ => ∃ remote : List ProtoFile,
      remote.map shown = (tree.listing []).map shown ∧
        r = siteVerifyCompare site.opts site.files remote := by
  have hroot : site.opts.remoteRoot = site.opts.remoteRoot ++ [] ++ slashAfter [] := by
    simp [slashAfter]
  unfold siteVerify
  rw [ends_bind, ends_run]
  change Ends (if (env.exec .init sess).1.code ≠ SITE_OK then _ else _) _ _
  rw [if_neg (not_not.mpr (h.opens sess)), h.fetches, if_neg (by simp), ends_bind, ends_run]
  generalize (StateT.run (fetchCall env .init) sess).2 = s
  have hlist := h.lists [] true s
  have hentries := h.entries [] true s
  rw [← hroot] at hlist hentries
  rw [ends_bind]
  apply Ends.of_forall
  intro _ t
  change Ends (if (env.exec (.fetchList site.opts.remoteRoot true) s).1.code = SITE_OK
    then _ else _) _ _
  rw [if_pos hlist]
  exact ⟨_, hentries, rfl⟩

/-- The verdict is true exactly when the stored states that are on the server are as many
as the entries of its root directory whose names are stored, and nothing has been added or
changed where nothing is missing. -/
theorem verify_truthful_iff (env : FetchEnv σ) (site : Site) (tree : RemoteTree)
    (h : Served env site.opts tree) (sess : σ) :
    Truthful site tree ((siteVerify env site).run sess).1 ↔
      present site tree = matched site tree ∧
        (missing site tree = 0 → NoneAdded site tree ∧ NoneChanged site tree) := by
  have hserved := siteVerify_served h sess
  rw [ends_run] at hserved
  obtain ⟨remote, hremote, hr⟩ := hserved
  have hnum := @compare_numremoved site tree remote hremote
  have hret : (siteVerifyCompare site.opts site.files remote).ret = SITE_OK ↔
      (present site tree + missing site tree : ℤ) - matched site tree = 0 := by
    rw [siteVerifyCompare, hnum]
    split_ifs with hz
    · simp [hz, SITE_ERRORS, SITE_OK]
    · simpa using hz
  have herr : (siteVerifyCompare site.opts site.files remote).ret = SITE_OK ∨
      (siteVerifyCompare site.opts site.files remote).ret = SITE_ERRORS := by
    rw [siteVerifyCompare]
    split_ifs
    · exact Or.inr rfl
    · exact Or.inl rfl
  have hremoved : (siteVerifyCompare site.opts site.files remote).numremoved =
      some ((present site tree + missing site tree : ℤ) - matched site tree) := by
    rw [siteVerifyCompare, hnum]
  rw [hr, Truthful, hret, hremoved]
  constructor
  · rintro ⟨hiff, hno⟩
    by_cases hm : Matches site tree
    · have hzero := hiff.mpr hm
      have hparts := matches_iff.mp hm
      exact ⟨by omega, fun _ => hparts.2⟩
    · have hsome := Option.some.inj (hno hm).2
      refine ⟨by omega, fun hz => ?_⟩
      have hsound := hiff.mp (by omega)
      exact (matches_iff.mp hsound).2
  · rintro ⟨hsame, hmatch⟩
    have hiff : (present site tree + missing site tree : ℤ) - matched site tree = 0 ↔
        Matches site tree := by
      constructor
      · intro hz
        have hnone : missing site tree = 0 := by omega
        exact matches_iff.mpr ⟨hnone, hmatch hnone⟩
      · intro hm
        have hnone := (matches_iff.mp hm).1
        omega
    refine ⟨hiff, fun hm => ⟨?_, ?_⟩⟩
    · rcases herr with hok | herr
      · exact absurd (hiff.mp (hret.mp hok)) hm
      · exact herr
    · rw [hsame]
      congr 1
      omega

end Verify

lemma treeDriver_served (o : SiteOptions) (tree : RemoteTree) :
    Served (treeDriver o tree) o tree where
  fetches := rfl
  opens _ := rfl
  lists _ _ _ := rfl
  entries d need s := by rw [treeDriver_serves o tree d need s rfl]

theorem verify_truthful_iff_empty :
    Truthful { opts := {} } (wideTree 2)
        ((siteVerify (treeDriver {} (wideTree 2)) { opts := {} }).run PUnit.unit).1 ↔
      present { opts := {} } (wideTree 2) = matched { opts := {} } (wideTree 2) ∧
        (missing { opts := {} } (wideTree 2) = 0 →
          NoneAdded { opts := {} } (wideTree 2) ∧ NoneChanged { opts := {} } (wideTree 2)) :=
  verify_truthful_iff (treeDriver {} (wideTree 2)) { opts := {} } (wideTree 2)
    (treeDriver_served _ _) PUnit.unit

/-- One directory with one file, as it is on the server. -/
def deepSite : Site :=
  let site := (FileSet.fileSetStored .dir { filename := some (ascii "a"), existing := true } { opts := {} }).1
  (FileSet.fileSetStored .file { filename := some (ascii "a/f"), existing := true } site).1

theorem deep_tree_refused :
    Matches deepSite (wideTree 1) ∧
      ((siteVerify (treeDriver {} (wideTree 1)) deepSite).run PUnit.unit).1.ret = SITE_ERRORS ∧
      ¬ Truthful deepSite (wideTree 1)
        ((siteVerify (treeDriver {} (wideTree 1)) deepSite).run PUnit.unit).1 := by
  have hmatch : Matches deepSite (wideTree 1) := ⟨by decide, by decide, by decide⟩
  have hret : ((siteVerify (treeDriver {} (wideTree 1)) deepSite).run PUnit.unit).1.ret =
      SITE_ERRORS := by
    decide
  refine ⟨hmatch, hret, fun h => ?_⟩
  have hok := h.1.mpr hmatch
  rw [hret] at hok
  exact absurd hok (by decide)

end Sitecopy.SiteVerify
