import Sitecopy.FileSet
import Sitecopy.StateProgram

/-!
# Operations on the whole list

Catchup, the removal of the stored states and of all files, and the merging of one
fetched remote file into the list.
-/
namespace Sitecopy.SiteOperations
open SiteModel FileSet StateProgram

/-- `file_set_diff` as a step on the statistics. -/
def setDiff (o : SiteOptions) (file : SiteFile) : StateM Stats SiteFile := fileSetDiff o file

/-- `file_delete` as a step on the statistics. -/
def dropFile (o : SiteOptions) (file : SiteFile) : StateM Stats PUnit := modify (fileDelete o file)

/-- Run a loop over the files that only touches the entries and the statistics. -/
def visitFiles (body : SiteFile → StateM Stats (Option SiteFile × Bool)) (site : Site) : Site :=
  let r := (forEach body site.files).run site.stats
  { site with files := r.1.1, stats := r.2 }

def catchupFile (o : SiteOptions) (file : SiteFile) : StateM Stats (Option SiteFile × Bool) :=
  match file.diff with
  | .deleted => do
    dropFile o file
    pure (none, false)
  | .changed | .new | .moved => do
    let file ← setDiff o { file with storedState := file.localState }
    pure (some file, false)
  | .unchanged => pure (some file, false)

/-- `site_catchup`: pretend the remote site is the same as the local site. -/
def siteCatchup (site : Site) : Site := visitFiles (catchupFile site.opts) site

def destroyStoredFile (o : SiteOptions) (file : SiteFile) :
    StateM Stats (Option SiteFile × Bool) :=
  if !file.localState.existing then do
    dropFile o file
    pure (none, false)
  else do
    let file ← setDiff o { file with storedState := {} }
    pure (some file, false)

/-- `site_destroy_stored`. -/
def siteDestroyStored (site : Site) : Site := visitFiles (destroyStoredFile site.opts) site

/-- `site_initialize`: pretend there are no files held remotely. -/
def siteInitialize (site : Site) : Site := siteDestroyStored site

/-- `site_destroy`. -/
def siteDestroy (site : Site) : Site :=
  visitFiles (fun file => do dropFile site.opts file; pure (none, false)) site

inductive ProtoFiletype
  | file
  | link
  | dir
  deriving DecidableEq, Repr

/-- `struct proto_file`, as a driver's `fetch_list` returns it. -/
structure ProtoFile where
  filename : Text
  type : ProtoFiletype
  size : ℤ := 0
  modtime : ℤ := 0
  mode : UInt32 := 0
  checksum : Checksum := .zero
  deriving DecidableEq, Repr

/-- `munge_modtime`; `now` is the result of `time(NULL)`. -/
def mungeModtime (o : SiteOptions) (file : SiteFile) (remoteMtime now : ℤ) (st : Stats) :
    SiteFile × Stats :=
  if file.type = .file ∧ o.stateMethod = .timesize then
    let time :=
      if file.localState.existing then
        -- in safe mode the server's own time tells whether the remote file changed
        if o.safemode ∧ file.serverState.existing ∧ file.serverState.time ≠ remoteMtime then
          file.localState.time + 1
        else file.localState.time
      else now
    fileSetDiff o { file with storedState := { file.storedState with time := time } } st
  else (file, st)

/-- The state and type that `fetch_add_file` builds from a fetched file. -/
def fetchedType : ProtoFiletype → FileType
  | .file => .file
  | .link => .link
  | .dir => .dir

def fetchedState (o : SiteOptions) (pf : ProtoFile) : FileState where
  size := pf.size
  time := pf.modtime
  existing := true
  filename := some pf.filename
  mode := pf.mode
  ascii := fileIsascii pf.filename o
  checksum := pf.checksum

/-- `fetch_add_file`. -/
def fetchAddFile (pf : ProtoFile) (now : ℤ) (site : Site) : Site × SiteFile :=
  let r := fileSetStored (fetchedType pf.type) (fetchedState site.opts pf) site
  let m := mungeModtime site.opts r.2 pf.modtime now r.1.stats
  let file :=
    if site.opts.safemode then
      { m.1 with serverState := { m.1.serverState with time := pf.modtime, existing := true } }
    else m.1
  (write file { r.1 with stats := m.2 }, file)

end Sitecopy.SiteOperations
