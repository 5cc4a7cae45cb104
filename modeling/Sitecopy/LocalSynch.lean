import Sitecopy.SiteUpdate

/-!
# Resynchronizing the local site

The three passes of `site_synch` over a driver that downloads files and a C library whose
calls on local files may each succeed or fail.
-/
namespace Sitecopy.LocalSynch
open SiteModel FileSet StateProgram SiteUpdate

/-- The driver methods that a synch calls. -/
inductive SynchCall
  | init
  | finish
  | error
  | fileDownload (localName remote : Text) (ascii : Bool)
  deriving DecidableEq, Repr

/-- The calls on local files. -/
inductive LocalCall
  | mkdir (path : Text) (mode : UInt32)
  | chmod (path : Text) (mode : UInt32)
  | utime (path : Text) (modtime : ℤ)
  | unlink (path : Text)
  | rename (src dst : Text)
  | rmdir (path : Text)
  deriving DecidableEq, Repr

/-- A driver and a file system over common sessions. A local call returns 0 or -1, which
the second function tells as success or failure. -/
structure SynchEnv (σ : Type) where
  driver : SynchCall → σ → ℤ × σ
  local' : LocalCall → σ → Bool × σ

inductive SynchEvent
  /-- a driver call, the address of the entry it serves, and its code -/
  | driver (owner : Option ℕ) (c : SynchCall) (code : ℤ)
  /-- a local call for an entry, and whether it returned 0 -/
  | localCall (owner : ℕ) (c : LocalCall) (ok : Bool)
  deriving DecidableEq, Repr

structure SynchRun (σ : Type) where
  stats : Stats
  sess : σ
  trace : List SynchEvent := []

variable {σ : Type}

def driverCall (env : SynchEnv σ) (owner : Option ℕ) (c : SynchCall) :
    StateM (SynchRun σ) ℤ := do
  let r ← get
  let a := env.driver c r.sess
  set { r with sess := a.2, trace := r.trace ++ [SynchEvent.driver owner c a.1] }
  pure a.1

/-- A call on local files; the result is whether it returned 0. -/
def localCall (env : SynchEnv σ) (owner : ℕ) (c : LocalCall) : StateM (SynchRun σ) Bool := do
  let r ← get
  let a := env.local' c r.sess
  set { r with sess := a.2, trace := r.trace ++ [SynchEvent.localCall owner c a.1] }
  pure a.1

/-- `file_set_diff`. -/
def synchSetDiff (o : SiteOptions) (file : SiteFile) : StateM (SynchRun σ) SiteFile := do
  let r ← get
  let a := fileSetDiff o file r.stats
  set { r with stats := a.2 }
  pure a.1

/-- `file_delete`, with the entry dropped from the list by the loop. -/
def synchDelete (o : SiteOptions) (file : SiteFile) : StateM (SynchRun σ) PUnit :=
  modify fun r => { r with stats := FileSet.fileDelete o file r.stats }

/-- The local state that `file_downloaded` leaves. -/
def downloadedState (o : SiteOptions) (file : SiteFile) : FileState :=
  let s := file.storedState
  let loc := { file.localState with size := s.size }
  let loc :=
    match o.stateMethod with
    | .checksum => { loc with checksum := s.checksum }
    | .timesize => { loc with time := s.time }
  { loc with filename := s.filename, ascii := s.ascii, existing := s.existing, mode := s.mode }

/-- `file_downloaded`. The local state is overwritten before the old one is taken out of
the statistics. -/
def fileDownloaded (o : SiteOptions) (file : SiteFile) : StateM (SynchRun σ) SiteFile :=
  synchSetDiff o { file with localState := downloadedState o file }

section DownloadedState
variable (o : SiteOptions) (file : SiteFile)

@[simp] theorem downloadedState_filename :
    (downloadedState o file).filename = file.storedState.filename := rfl

@[simp] theorem downloadedState_existing :
    (downloadedState o file).existing = file.storedState.existing := rfl

@[simp] theorem downloadedState_ascii :
    (downloadedState o file).ascii = file.storedState.ascii := rfl

@[simp] theorem downloadedState_mode :
    (downloadedState o file).mode = file.storedState.mode := rfl

@[simp] theorem downloadedState_size :
    (downloadedState o file).size = file.storedState.size := by
  cases hm : o.stateMethod <;> simp [downloadedState, hm]

theorem methodDiffers_downloaded :
    methodDiffers o (downloadedState o file) file.storedState = false := by
  cases hm : o.stateMethod <;> simp [methodDiffers, downloadedState, hm]

end DownloadedState

section Primitives
variable (env : SynchEnv σ) (o : SiteOptions) (file : SiteFile) (r : SynchRun σ)

@[simp] theorem ends_driverCall (owner : Option ℕ) (c : SynchCall)
    (Q : ℤ → SynchRun σ → Prop) :
    Ends (driverCall env owner c) r Q ↔ Q (env.driver c r.sess).1
      { r with
        sess := (env.driver c r.sess).2
        trace := r.trace ++ [SynchEvent.driver owner c (env.driver c r.sess).1] } := Iff.rfl

@[simp] theorem ends_localCall (owner : ℕ) (c : LocalCall) (Q : Bool → SynchRun σ → Prop) :
    Ends (localCall env owner c) r Q ↔ Q (env.local' c r.sess).1
      { r with
        sess := (env.local' c r.sess).2
        trace := r.trace ++ [SynchEvent.localCall owner c (env.local' c r.sess).1] } := Iff.rfl

@[simp] theorem ends_synchDelete (Q : PUnit → SynchRun σ → Prop) :
    Ends (synchDelete o file) r Q ↔
      Q ⟨⟩ { r with stats := FileSet.fileDelete o file r.stats } := Iff.rfl

@[simp] theorem ends_fileDownloaded (Q : SiteFile → SynchRun σ → Prop) :
    Ends (fileDownloaded o file) r Q ↔
      Q (fileSetDiff o { file with localState := downloadedState o file } r.stats).1
        { r with
          stats := (fileSetDiff o { file with localState := downloadedState o file } r.stats).2 } :=
  Iff.rfl

end Primitives

/-! ### The passes -/

def synchCreateDirectory (env : SynchEnv σ) (o : SiteOptions) (file : SiteFile) :
    StateM (SynchRun σ) Outcome :=
  if file.type = .dir ∧ file.diff = .deleted then do
    let ok ← localCall env file.addr (.mkdir (fileFullLocal file.storedState o) 0o755)
    if ok then pure (some file, false)
    else do
      -- recorded as downloaded although it was not created
      let file ← fileDownloaded o file
      pure (some file, true)
  else pure (some file, false)

/-- After a download, so that the file does not look changed. A failure is only a warning. -/
def restoreTime (env : SynchEnv σ) (o : SiteOptions) (file : SiteFile) :
    StateM (SynchRun σ) PUnit :=
  if o.stateMethod = .timesize then do
    let _ ← localCall env file.addr
      (.utime (fileFullLocal file.storedState o) file.storedState.time)
    pure ⟨⟩
  else pure ⟨⟩

/-- The permissions after a download; a failure is only displayed. -/
def restorePerms (env : SynchEnv σ) (o : SiteOptions) (file : SiteFile) :
    StateM (SynchRun σ) PUnit :=
  if filePermsChanged o file then do
    let _ ← localCall env file.addr
      (.chmod (fileFullLocal file.storedState o) file.storedState.mode)
    pure ⟨⟩
  else pure ⟨⟩

/-- The `file_deleted` case of `synch_files`, into which a changed file falls through. -/
def downloadFile (env : SynchEnv σ) (o : SiteOptions) (file : SiteFile) :
    StateM (SynchRun σ) Outcome := do
  let ret ← driverCall env file.addr
    (.fileDownload (fileFullLocal file.storedState o) (fileFullRemote file.storedState o)
      file.storedState.ascii)
  if ret ≠ SITE_OK then do
    let _ ← driverCall env file.addr .error
    pure (some file, true)
  else do
    restoreTime env o file
    restorePerms env o file
    let file ← fileDownloaded o file
    pure (some file, false)

def synchFile (env : SynchEnv σ) (o : SiteOptions) (file : SiteFile) :
    StateM (SynchRun σ) Outcome :=
  if file.type ≠ .file then pure (some file, false)
  else match file.diff with
    | .changed =>
      if !fileContentsChanged o file then do
        -- the result of chmod is only displayed
        let _ ← localCall env file.addr
          (.chmod (fileFullLocal file.storedState o) file.storedState.mode)
        pure (some file, false)
      else downloadFile env o file
    | .deleted => downloadFile env o file
    | .new => do
      let ok ← localCall env file.addr (.unlink (fileFullLocal file.localState o))
      pure (some file, !ok)
    | .moved => do
      let ok ← localCall env file.addr
        (.rename (fileFullLocal file.localState o) (fileFullLocal file.storedState o))
      pure (some file, !ok)
    | .unchanged => pure (some file, false)

def synchDeleteDirectory (env : SynchEnv σ) (o : SiteOptions) (file : SiteFile) :
    StateM (SynchRun σ) Outcome :=
  if file.type = .dir ∧ file.diff = .new then do
    let ok ← localCall env file.addr (.rmdir (fileFullLocal file.localState o))
    if ok then do
      synchDelete o file
      pure (none, false)
    else pure (some file, true)
  else pure (some file, false)

/-- A pass: the files that remain, and whether its `ret` is nonzero. -/
abbrev SynchPass (σ : Type) := List SiteFile → StateM (SynchRun σ) (List SiteFile × Bool)

def synchCreateDirectories (env : SynchEnv σ) (o : SiteOptions) : SynchPass σ :=
  forEach (synchCreateDirectory env o)

def synchFiles (env : SynchEnv σ) (o : SiteOptions) : SynchPass σ := forEach (synchFile env o)

def synchDeleteDirectories (env : SynchEnv σ) (o : SiteOptions) : SynchPass σ :=
  forEachBackward (synchDeleteDirectory env o)

/-! ### The whole synch -/

/-- The three passes; `ret` is that of the last one that ran. -/
def synchPasses (env : SynchEnv σ) (o : SiteOptions) (files : List SiteFile) :
    StateM (SynchRun σ) (List SiteFile × Bool) := do
  let r ← synchCreateDirectories env o files
  if !r.2 || o.keepGoing then do
    let r ← synchFiles env o r.1
    if !r.2 || o.keepGoing then synchDeleteDirectories env o r.1
    else pure r
  else pure r

/-- `proto_finish`, which first fetches the last error. -/
def synchFinish (env : SynchEnv σ) : StateM (SynchRun σ) PUnit := do
  let _ ← driverCall env none .error
  let _ ← driverCall env none .finish
  pure ⟨⟩

def exitCode (failed : Bool) : ℤ := if failed then SITE_ERRORS else SITE_OK

/-- `site_synch` on the files list. `needConn` is whether anything is to be downloaded as
far as the counters tell. -/
def synchSiteFiles (env : SynchEnv σ) (o : SiteOptions) (needConn : Bool)
    (files : List SiteFile) : StateM (SynchRun σ) (List SiteFile × ℤ) :=
  if needConn then do
    let ret ← driverCall env none .init
    if ret ≠ SITE_OK then do
      let _ ← driverCall env none .error
      synchFinish env
      pure (files, ret)
    else do
      let r ← synchPasses env o files
      synchFinish env
      pure (r.1, exitCode r.2)
  else do
    let r ← synchPasses env o files
    pure (r.1, exitCode r.2)

def needConn (st : Stats) : Bool := st.numchanged + st.numdeleted + st.numignored > 0

structure SynchResult (σ : Type) where
  site : Site
  ret : ℤ
  sess : σ
  trace : List SynchEvent

/-- `site_synch`. -/
def siteSynch (env : SynchEnv σ) (site : Site) (sess : σ) : SynchResult σ :=
  let r := (synchSiteFiles env site.opts (needConn site.stats) site.files).run
    { stats := site.stats, sess := sess }
  { site := { site with files := r.1.1, stats := r.2.stats }
    ret := r.1.2
    sess := r.2.sess
    trace := r.2.trace }

end Sitecopy.LocalSynch
