import Mathlib

/-!
# The sitecopy data model

A site is a list of files, and every file carries a local, a stored and a server
state. Filenames belong to states, not to files: a moved file has two of them.
The statistics of the site are kept incrementally by every operation.
-/
namespace Sitecopy.SiteModel

/-- A C string: the bytes before its terminating NUL. -/
abbrev Text := List UInt8

/-- Plain ASCII text as bytes. -/
def ascii (s : String) : Text := s.toList.map fun c => UInt8.ofNat c.toNat

/-- A literal is its list of characters, so that its bytes need no decoding of UTF-8. -/
lemma ascii_ofList (l : List Char) :
    ascii (String.ofList l) = l.map fun c => UInt8.ofNat c.toNat := by
  rw [ascii, String.toList_ofList]

def slash : UInt8 := 47
def dot : UInt8 := 46

inductive StateMethod
  | timesize
  | checksum
  deriving DecidableEq, Repr

inductive FileDiff
  | unchanged
  | changed
  | new
  | deleted
  | moved
  deriving DecidableEq, Repr

inductive FileType
  | file
  | dir
  | link
  deriving DecidableEq, Repr

inductive PermMode
  | ignore
  | exec
  | all
  deriving DecidableEq, Repr

inductive SymlinkMode
  | ignore
  | follow
  | maintain
  deriving DecidableEq, Repr

inductive Protocol
  | ftp
  | dav
  | rsh
  | sftp
  | unknown
  deriving DecidableEq, Repr

/-- An MD5 checksum, always of sixteen bytes. -/
structure Checksum where
  bytes : List UInt8
  length_eq : bytes.length = 16
  deriving DecidableEq, Repr

def Checksum.zero : Checksum := ⟨List.replicate 16 0, rfl⟩

/-- `struct file_state`; the default is the cleared structure. -/
structure FileState where
  filename : Option Text := none
  time : ℤ := 0
  size : ℤ := 0
  checksum : Checksum := .zero
  linktarget : Option Text := none
  existing : Bool := false
  ascii : Bool := false
  mode : UInt32 := 0
  deriving DecidableEq, Repr

/-- `struct site_file`, together with the address of its list node. -/
structure SiteFile where
  addr : ℕ
  diff : FileDiff := .unchanged
  type : FileType := .file
  ignore : Bool := false
  localState : FileState := {}
  storedState : FileState := {}
  serverState : FileState := {}
  deriving DecidableEq, Repr

/-- One pattern of an exclude, ignore or ascii list. -/
structure FnPattern where
  pattern : Text
  haspath : Bool
  deriving DecidableEq, Repr

/-- The rcfile options of a site. `fnmatch` is the C library's matcher; its first
argument is set for patterns with a path (`FNM_PATHNAME | FNM_LEADING_DIR`). -/
structure SiteOptions where
  protocol : Protocol := .ftp
  perms : PermMode := .ignore
  dirperms : Bool := false
  symlinks : SymlinkMode := .follow
  nodelete : Bool := false
  checkmoved : Bool := false
  checkrenames : Bool := false
  nooverwrite : Bool := false
  safemode : Bool := false
  lowercase : Bool := false
  tempupload : Bool := false
  keepGoing : Bool := false
  stateMethod : StateMethod := .timesize
  remoteIsrel : Bool := false
  remoteRoot : Text := []
  localRoot : Text := [slash]
  excludes : List FnPattern := []
  ignores : List FnPattern := []
  asciis : List FnPattern := []
  fnmatch : Bool → Text → Text → Bool := fun _ _ _ => false

/-- The counters and totals of `struct site`, taken as mathematical integers. -/
structure Stats where
  numnew : ℤ := 0
  numchanged : ℤ := 0
  numignored : ℤ := 0
  numdeleted : ℤ := 0
  nummoved : ℤ := 0
  numunchanged : ℤ := 0
  totalnew : ℤ := 0
  totalchanged : ℤ := 0
  remoteIsDifferent : Bool := false
  localIsDifferent : Bool := false
  deriving DecidableEq, Repr

/-- The mutable part of `struct site`. `freshAddr` is above every address in use. -/
structure Site where
  opts : SiteOptions
  files : List SiteFile := []
  stats : Stats := {}
  storedStateMethod : StateMethod := .timesize
  freshAddr : ℕ := 0

def SITE_OK : ℤ := 0
def SITE_LOOKUP : ℤ := -1
def SITE_PROXYLOOKUP : ℤ := -2
def SITE_CONNECT : ℤ := -3
def SITE_ERRORS : ℤ := -4
def SITE_AUTH : ℤ := -5
def SITE_PROXYAUTH : ℤ := -6
def SITE_FAILED : ℤ := -7
def SITE_UNSUPPORTED : ℤ := -9

/-! ### Checking the options -/

/-- The codes with which `rcfile_verify` refuses a combination of options. -/
inductive VerifyError
  | unsupported
  | noMaintain
  | noRemoteRel
  | noPerms
  | noRenames
  | noSafeOver
  | noSafeTempUp
  deriving DecidableEq, Repr

/-- `rcfile_verify` with every driver built in, as far as it concerns the options. -/
def rcfileVerify (o : SiteOptions) : Except VerifyError PUnit := do
  match o.protocol with
  | .ftp => if o.symlinks = .maintain then throw .noMaintain
  | .dav =>
    if o.remoteIsrel then throw .noRemoteRel
    if o.perms = .all ∨ o.dirperms then throw .noPerms
    if o.symlinks = .maintain then throw .noMaintain
  | .rsh | .sftp => pure ⟨⟩
  | .unknown => throw .unsupported
  if o.checkrenames ∧ o.stateMethod ≠ .checksum then throw .noRenames
  if o.safemode ∧ o.nooverwrite then throw .noSafeOver
  if o.safemode ∧ o.tempupload then throw .noSafeTempUp

/-! ### Names -/

/-- The part after the last slash. -/
def afterSlash : Text → Text
  | [] => []
  | c :: cs => if slash ∈ cs then afterSlash cs else if c = slash then cs else c :: cs

/-- `base_name`: the last component, or a slash for a name of slashes only. -/
def baseName (name : Text) : Text :=
  if name ≠ [] ∧ ∀ c ∈ name, c = slash then [slash] else afterSlash name

/-- `fnlist_match`. -/
def fnlistMatch (o : SiteOptions) (filename : Text) (list : List FnPattern) : Bool :=
  list.any fun item =>
    if item.haspath then o.fnmatch true item.pattern filename
    else o.fnmatch false item.pattern (baseName filename)

def fileIsexcluded (filename : Text) (o : SiteOptions) : Bool := fnlistMatch o filename o.excludes
def fileIsignored (filename : Text) (o : SiteOptions) : Bool := fnlistMatch o filename o.ignores
def fileIsascii (filename : Text) (o : SiteOptions) : Bool := fnlistMatch o filename o.asciis

def tolower (c : UInt8) : UInt8 := if 65 ≤ c ∧ c ≤ 90 then c + 32 else c

/-- `file_full_remote`. The source follows a null pointer where the name is missing. -/
def fileFullRemote (s : FileState) (o : SiteOptions) : Text :=
  let name := s.filename.getD []
  o.remoteRoot ++ if o.lowercase then name.map tolower else name

def fileFullLocal (s : FileState) (o : SiteOptions) : Text := o.localRoot ++ s.filename.getD []

/-! ### Statistics -/

/-- `site_stats_increase`. -/
def siteStatsIncrease (file : SiteFile) (st : Stats) : Stats :=
  match file.diff with
  | .unchanged => { st with numunchanged := st.numunchanged + 1 }
  | .changed =>
    if file.ignore then { st with numignored := st.numignored + 1 }
    else { st with
      numchanged := st.numchanged + 1
      totalchanged := st.totalchanged + file.localState.size }
  | .new => { st with
      numnew := st.numnew + 1
      totalnew := st.totalnew + file.localState.size }
  | .moved => { st with nummoved := st.nummoved + 1 }
  | .deleted => { st with numdeleted := st.numdeleted + 1 }

/-- `site_stats_decrease`. -/
def siteStatsDecrease (file : SiteFile) (st : Stats) : Stats :=
  match file.diff with
  | .unchanged => { st with numunchanged := st.numunchanged - 1 }
  | .changed =>
    if file.ignore then { st with numignored := st.numignored - 1 }
    else { st with
      numchanged := st.numchanged - 1
      totalchanged := st.totalchanged - file.localState.size }
  | .new => { st with
      numnew := st.numnew - 1
      totalnew := st.totalnew - file.localState.size }
  | .moved => { st with nummoved := st.nummoved - 1 }
  | .deleted => { st with numdeleted := st.numdeleted - 1 }

/-- `site_stats_update`: the two flags as the counters define them. -/
def siteStatsUpdate (o : SiteOptions) (st : Stats) : Stats :=
  { st with
    remoteIsDifferent := decide (st.nummoved + st.numnew +
      (if o.nodelete then 0 else st.numdeleted) + st.numchanged > 0)
    localIsDifferent := decide (st.nummoved + st.numnew + st.numdeleted + st.numchanged +
      st.numignored > 0) }

/-! ### Comparing two states -/

/-- The owner's execute bit, `S_IXUSR`. -/
def S_IXUSR : UInt32 := 0o100

/-- The state method's own test: time and size, or the checksum. -/
def methodDiffers (o : SiteOptions) (first second : FileState) : Bool :=
  match o.stateMethod with
  | .timesize => first.time ≠ second.time || first.size ≠ second.size
  | .checksum => first.checksum ≠ second.checksum

/-- Whether permissions are compared: in mode `exec` when either state is executable. -/
def permsCompared (o : SiteOptions) (first second : FileState) : Bool :=
  o.perms = .all ||
    ((first.mode &&& S_IXUSR ≠ 0 || second.mode &&& S_IXUSR ≠ 0) && o.perms = .exec)

/-- `file_compare`. -/
def fileCompare (type : FileType) (first second : FileState) (o : SiteOptions) : FileDiff :=
  if !first.existing then .deleted
  else if !second.existing then .new
  else match type with
    | .dir => if o.dirperms && first.mode ≠ second.mode then .changed else .unchanged
    | .link => if first.linktarget ≠ second.linktarget then .changed else .unchanged
    | .file =>
      if methodDiffers o first second then .changed
      else if first.ascii ≠ second.ascii then .changed
      else if permsCompared o first second && first.mode ≠ second.mode then .changed
      else if o.checkmoved && first.filename ≠ second.filename then .moved
      else .unchanged

theorem methodDiffers_comm (o : SiteOptions) (s t : FileState) :
    methodDiffers o s t = methodDiffers o t s := by
  unfold methodDiffers
  cases o.stateMethod <;> simp [ne_comm]

theorem permsCompared_comm (o : SiteOptions) (s t : FileState) :
    permsCompared o s t = permsCompared o t s := by
  simp only [permsCompared, Bool.or_comm (decide (s.mode &&& S_IXUSR ≠ 0))]

/-- Between existing states the comparison does not depend on the argument order. -/
theorem fileCompare_comm {type : FileType} {s t : FileState} (o : SiteOptions)
    (hs : s.existing = true) (ht : t.existing = true) :
    fileCompare type s t o = fileCompare type t s o := by
  simp only [fileCompare, hs, ht, methodDiffers_comm o s t, permsCompared_comm o s t,
    ne_comm (a := s.mode), ne_comm (a := s.ascii), ne_comm (a := s.linktarget),
    ne_comm (a := s.filename)]

theorem fileCompare_deleted_iff {type : FileType} {s t : FileState} {o : SiteOptions} :
    fileCompare type s t o = .deleted ↔ s.existing = false := by
  unfold fileCompare
  cases s.existing <;> cases t.existing <;> cases type <;> simp <;> split_ifs <;> simp

theorem fileCompare_new_iff {type : FileType} {s t : FileState} {o : SiteOptions} :
    fileCompare type s t o = .new ↔ s.existing = true ∧ t.existing = false := by
  unfold fileCompare
  cases s.existing <;> cases t.existing <;> cases type <;> simp <;> split_ifs <;> simp

section BothExist
variable {type : FileType} {s t : FileState} {o : SiteOptions}

theorem fileCompare_dir (hs : s.existing = true) (ht : t.existing = true) :
    fileCompare .dir s t o = if o.dirperms && s.mode ≠ t.mode then .changed else .unchanged := by
  simp [fileCompare, hs, ht]

theorem fileCompare_link (hs : s.existing = true) (ht : t.existing = true) :
    fileCompare .link s t o = if s.linktarget ≠ t.linktarget then .changed else .unchanged := by
  simp [fileCompare, hs, ht]

theorem fileCompare_file (hs : s.existing = true) (ht : t.existing = true) :
    fileCompare .file s t o =
      if methodDiffers o s t then .changed
      else if s.ascii ≠ t.ascii then .changed
      else if permsCompared o s t && s.mode ≠ t.mode then .changed
      else if o.checkmoved && s.filename ≠ t.filename then .moved
      else .unchanged := by
  simp [fileCompare, hs, ht]

/-- Every diff but `file_new` and `file_deleted` compares two existing states. -/
theorem fileCompare_both {d : FileDiff} (h : fileCompare type s t o = d) (hnew : d ≠ .new)
    (hdel : d ≠ .deleted) : s.existing = true ∧ t.existing = true := by
  have hs : s.existing = true := by
    by_contra hs
    exact hdel (h.symm.trans (fileCompare_deleted_iff.mpr (Bool.eq_false_of_not_eq_true hs)))
  refine ⟨hs, ?_⟩
  by_contra ht
  exact hnew (h.symm.trans (fileCompare_new_iff.mpr ⟨hs, Bool.eq_false_of_not_eq_true ht⟩))

end BothExist

theorem fileCompare_moved {type : FileType} {s t : FileState} {o : SiteOptions}
    (h : fileCompare type s t o = .moved) :
    type = .file ∧ o.checkmoved = true ∧ s.existing = true ∧ t.existing = true ∧
      s.filename ≠ t.filename := by
  obtain ⟨hs, ht⟩ := fileCompare_both h (by decide) (by decide)
  cases type with
  | dir =>
    rw [fileCompare_dir hs ht] at h
    split_ifs at h
  | link =>
    rw [fileCompare_link hs ht] at h
    split_ifs at h
  | file =>
    rw [fileCompare_file hs ht] at h
    split_ifs at h with _ _ _ hm
    simp only [Bool.and_eq_true, decide_eq_true_eq] at hm
    exact ⟨rfl, hm.1, hs, ht, hm.2⟩

end Sitecopy.SiteModel
