import Sitecopy.SiteModel

/-!
# The files list and `file_set`

`fileSet` places one scanned or stored state into the list. It looks for an entry with
the same name on the opposite side and, for regular files, for a moved or renamed one.
The choice of the entry (`choosePlacement`) is kept apart from the writing.
-/
namespace Sitecopy.FileSet
open SiteModel

/-- A cleared node at a new address, as `ne_calloc` returns it. -/
def fresh (site : Site) : SiteFile := { addr := site.freshAddr }

/-- Directories go to the end of the list, everything else to its front. -/
def insertFile (type : FileType) (file : SiteFile) (files : List SiteFile) : List SiteFile :=
  if files = [] then [file]
  else if type = .dir then files ++ [file]
  else file :: files

/-- `file_insert` of a node that the caller has filled. -/
def fileInsert (type : FileType) (file : SiteFile) (site : Site) : Site :=
  { site with
    files := insertFile type file site.files
    freshAddr := site.freshAddr + 1 }

/-- Store an entry back through its pointer. -/
def write (file : SiteFile) (site : Site) : Site :=
  { site with files := site.files.map fun f => if f.addr = file.addr then file else f }

/-- `file_set_diff`: the entry and the statistics after the diff is recomputed. -/
def fileSetDiff (o : SiteOptions) (file : SiteFile) (st : Stats) : SiteFile × Stats :=
  let file' := { file with diff := fileCompare file.type file.localState file.storedState o }
  (file', siteStatsUpdate o (siteStatsIncrease file' (siteStatsDecrease file st)))

/-- What `file_delete` does to the statistics; the node itself is dropped by the caller. -/
def fileDelete (o : SiteOptions) (file : SiteFile) (st : Stats) : Stats :=
  siteStatsUpdate o (siteStatsDecrease file st)

/-! ### Finding the entry -/

/-- The offsets `alpha_off` and `beta_off` of `file_set`. -/
inductive Slot
  | localSlot
  | storedSlot
  deriving DecidableEq, Repr

def Slot.other : Slot → Slot
  | .localSlot => .storedSlot
  | .storedSlot => .localSlot

/-- `FS_ALPHA` and `FS_BETA`. -/
def Slot.get (s : Slot) (file : SiteFile) : FileState :=
  match s with
  | .localSlot => file.localState
  | .storedSlot => file.storedState

def Slot.put (s : Slot) (state : FileState) (file : SiteFile) : SiteFile :=
  match s with
  | .localSlot => { file with localState := state }
  | .storedSlot => { file with storedState := state }

theorem Slot.other_ne (s : Slot) : s.other ≠ s := by cases s <;> decide

theorem Slot.eq_or_other (s t : Slot) : s = t ∨ s = t.other := by
  cases s <;> cases t <;> simp [Slot.other]

@[simp] theorem Slot.other_other (s : Slot) : s.other.other = s := by cases s <;> rfl

@[simp] theorem Slot.get_put (s : Slot) (state : FileState) (file : SiteFile) :
    s.get (s.put state file) = state := by cases s <;> rfl

@[simp] theorem Slot.other_get_put (s : Slot) (state : FileState) (file : SiteFile) :
    s.other.get (s.put state file) = s.other.get file := by cases s <;> rfl

@[simp] theorem Slot.put_addr (s : Slot) (state : FileState) (file : SiteFile) :
    (s.put state file).addr = file.addr := by cases s <;> rfl

@[simp] theorem Slot.put_type (s : Slot) (state : FileState) (file : SiteFile) :
    (s.put state file).type = file.type := by cases s <;> rfl

@[simp] theorem Slot.put_diff (s : Slot) (state : FileState) (file : SiteFile) :
    (s.put state file).diff = file.diff := by cases s <;> rfl

@[simp] theorem Slot.put_ignore (s : Slot) (state : FileState) (file : SiteFile) :
    (s.put state file).ignore = file.ignore := by cases s <;> rfl

/-- The pointers `direct`, `moved` and `frename`. -/
structure Candidates where
  direct : Option SiteFile := none
  moved : Option SiteFile := none
  frename : Option SiteFile := none
  deriving DecidableEq, Repr

/-- Whether `file` is the direct match. -/
def isDirect (type : FileType) (state : FileState) (beta : Slot) (file : SiteFile) : Bool :=
  (beta.get file).existing && file.type = type && (beta.get file).filename = state.filename

/-- Whether `file` may be taken as a moved or renamed version of `state`. -/
def isCandidate (o : SiteOptions) (type : FileType) (state : FileState) (beta : Slot)
    (file : SiteFile) : Bool :=
  o.checkmoved && type = .file && file.type = .file && file.diff ≠ .unchanged &&
    fileCompare .file state (beta.get file) o = .moved

/-- One turn of the search loop. -/
def considerFile (o : SiteOptions) (type : FileType) (state : FileState) (beta : Slot)
    (c : Candidates) (file : SiteFile) : Candidates :=
  if c.direct = none ∧ isDirect type state beta file then { c with direct := some file }
  else if isCandidate o type state beta file then
    if c.moved = none ∧
        state.filename.map baseName = (beta.get file).filename.map baseName then
      { c with moved := some file }
    else if o.checkrenames ∧ c.frename = none then { c with frename := some file }
    else c
  else c

/-- The search loop; it stops early once every kind of candidate is found. -/
def findCandidates (o : SiteOptions) (type : FileType) (state : FileState) (beta : Slot) :
    Candidates → List SiteFile → Candidates
  | c, [] => c
  | c, file :: rest =>
    let c := considerFile o type state beta c file
    if c.direct.isSome ∧ c.moved.isSome ∧ c.frename.isSome then c
    else findCandidates o type state beta c rest

/-- Where the state goes: into a new entry, or over an entry with a new diff. -/
inductive Placement
  | create
  | reuse (file : SiteFile) (diff : FileDiff)
  deriving DecidableEq, Repr

/-- The decision of `file_set`: a direct match is preferred only when it is unchanged. -/
def choosePlacement (type : FileType) (state : FileState) (site : Site) (beta : Slot) :
    Placement :=
  let c := findCandidates site.opts type state beta {} site.files
  let moved := c.moved <|> c.frename
  match c.direct, moved with
  | none, none => .create
  -- without a direct match `dir_diff` is the default, which is never `file_unchanged`
  | none, some m => .reuse m .moved
  | some d, none =>
    let dirDiff := fileCompare type state (beta.get d) site.opts
    if d.diff = .moved ∧ dirDiff ≠ .unchanged then .create else .reuse d dirDiff
  | some d, some m =>
    let dirDiff := fileCompare type state (beta.get d) site.opts
    if dirDiff ≠ .unchanged then .reuse m .moved else .reuse d dirDiff

/-! ### Writing the state -/

/-- A new entry holding only `state`. -/
def newEntry (type : FileType) (state : FileState) (site : Site) (alpha : Slot)
    (defaultDiff : FileDiff) : SiteFile :=
  alpha.put state { fresh site with
    type := type
    diff := defaultDiff
    ignore := if type = .file then fileIsignored (state.filename.getD []) site.opts else false }

/-- The entry that takes the state shoved out of `file`. -/
def shovedEntry (file : SiteFile) (site : Site) (alpha : Slot) (defaultDiff : FileDiff) :
    SiteFile :=
  alpha.put (alpha.get file) { fresh site with
    type := file.type
    diff := defaultDiff
    ignore := file.ignore }

def addStats (file : SiteFile) (site : Site) : Site :=
  { site with stats := siteStatsIncrease file site.stats }

def dropStats (file : SiteFile) (site : Site) : Site :=
  { site with stats := siteStatsDecrease file site.stats }

def updateStats (site : Site) : Site := { site with stats := siteStatsUpdate site.opts site.stats }

/-- `file_set`. It returns the site and the entry that now holds `state`. -/
def fileSet (type : FileType) (state : FileState) (site : Site) (alpha beta : Slot)
    (defaultDiff : FileDiff) : Site × SiteFile :=
  match choosePlacement type state site beta with
  | .create =>
    let file := newEntry type state site alpha defaultDiff
    (updateStats (addStats file (fileInsert type file site)), file)
  | .reuse old diff =>
    let file := alpha.put state { old with diff := diff }
    let site := dropStats old site
    let site :=
      if (alpha.get old).existing then
        let other := shovedEntry old site alpha defaultDiff
        addStats other (fileInsert old.type other site)
      else site
    (updateStats (addStats file (write file site)), file)

/-- `file_set_local`. -/
def fileSetLocal (type : FileType) (state : FileState) (site : Site) : Site × SiteFile :=
  fileSet type state site .localSlot .storedSlot .new

/-- `file_set_stored`. -/
def fileSetStored (type : FileType) (state : FileState) (site : Site) : Site × SiteFile :=
  fileSet type state site .storedSlot .localSlot .deleted

/-- The default diff of the side being set. -/
def Slot.defaultDiff : Slot → FileDiff
  | .localSlot => .new
  | .storedSlot => .deleted

/-- `file_set_local` and `file_set_stored` by the side they set. -/
def setSlot (alpha : Slot) (type : FileType) (state : FileState) (site : Site) : Site × SiteFile :=
  fileSet type state site alpha alpha.other alpha.defaultDiff

theorem setSlot_local (type : FileType) (state : FileState) (site : Site) :
    setSlot .localSlot type state site = fileSetLocal type state site := rfl

theorem setSlot_stored (type : FileType) (state : FileState) (site : Site) :
    setSlot .storedSlot type state site = fileSetStored type state site := rfl

end Sitecopy.FileSet
