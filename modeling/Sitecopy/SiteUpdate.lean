import Sitecopy.SiteOperations

/-!
# Updating the remote site

The six passes of `site_update` over a driver that may answer every call with any
code. A run records each driver call with its code and the entry it was made for, and
each time an entry's stored state is overwritten or the entry is removed.
-/
namespace Sitecopy.SiteUpdate
open SiteModel FileSet StateProgram

/-- The driver methods that an update calls, with their arguments. -/
inductive DriverCall
  | init
  | finish
  | error
  | fileMove (src dst : Text)
  | fileUpload (localName remote : Text) (ascii : Bool)
  | fileUploadCond (localName remote : Text) (ascii : Bool) (t : ℤ)
  | fileGetModtime (remote : Text)
  | fileDelete (filename : Text)
  | fileChmod (filename : Text) (mode : UInt32)
  | dirCreate (dirname : Text)
  | dirRemove (dirname : Text)
  | linkCreate (fn target : Text)
  | linkChange (fn target : Text)
  | linkDelete (fn : Text)
  deriving DecidableEq, Repr

/-- The code of a call, and the time that `file_get_modtime` stores through its pointer. -/
structure Reply where
  code : ℤ
  modtime : ℤ := 0
  deriving DecidableEq, Repr

/-- A protocol driver over sessions `σ`, and the user who answers `fe_can_update`. -/
structure Env (σ : Type) where
  exec : DriverCall → σ → Reply × σ
  canUpdate : SiteFile → σ → Bool × σ

inductive Event
  /-- a driver call, the address of the entry it serves, and its code -/
  | call (owner : Option ℕ) (c : DriverCall) (code : ℤ)
  /-- `file_uploaded`: the stored state of the entry becomes its local state -/
  | uploaded (owner : ℕ)
  /-- `file_delete`: the entry leaves the list -/
  | removed (owner : ℕ)
  deriving DecidableEq, Repr

/-- What a pass works on besides the files. -/
structure Run (σ : Type) where
  stats : Stats
  sess : σ
  trace : List Event := []

variable {σ : Type}

/-- `CALL(method)(session, ...)`. -/
def call (env : Env σ) (owner : Option ℕ) (c : DriverCall) : StateM (Run σ) Reply := do
  let r ← get
  let a := env.exec c r.sess
  set { r with sess := a.2, trace := r.trace ++ [Event.call owner c a.1.code] }
  pure a.1

/-- `DRIVER_ERR`, whose text only goes to the front end. -/
def driverErr (env : Env σ) (owner : Option ℕ) : StateM (Run σ) PUnit := do
  let _ ← call env owner .error
  pure ⟨⟩

/-- `fe_can_update`. -/
def feCanUpdate (env : Env σ) (file : SiteFile) : StateM (Run σ) Bool := do
  let r ← get
  let a := env.canUpdate file r.sess
  set { r with sess := a.2 }
  pure a.1

/-- `file_set_diff`. -/
def setDiff (o : SiteOptions) (file : SiteFile) : StateM (Run σ) SiteFile := do
  let r ← get
  let a := fileSetDiff o file r.stats
  set { r with stats := a.2 }
  pure a.1

/-- `file_delete`, with the entry dropped from the list by the loop. -/
def deleteEntry (o : SiteOptions) (file : SiteFile) : StateM (Run σ) PUnit :=
  modify fun r =>
    { r with stats := fileDelete o file r.stats, trace := r.trace ++ [Event.removed file.addr] }

/-- The stored state that `file_uploaded` leaves. -/
def uploadedState (o : SiteOptions) (file : SiteFile) : FileState :=
  let l := file.localState
  let stored := { file.storedState with size := l.size }
  let stored :=
    match o.stateMethod with
    | .checksum => { stored with checksum := l.checksum }
    | .timesize => { stored with time := l.time }
  { stored with filename := l.filename, ascii := l.ascii, existing := l.existing, mode := l.mode }

section UploadedState
variable (o : SiteOptions) (file : SiteFile)

@[simp] theorem uploadedState_filename :
    (uploadedState o file).filename = file.localState.filename := rfl

@[simp] theorem uploadedState_existing :
    (uploadedState o file).existing = file.localState.existing := rfl

@[simp] theorem uploadedState_ascii : (uploadedState o file).ascii = file.localState.ascii := rfl

@[simp] theorem uploadedState_mode : (uploadedState o file).mode = file.localState.mode := rfl

/-- What the state method looks at is uploaded with the file. -/
theorem methodDiffers_uploaded : methodDiffers o file.localState (uploadedState o file) = false := by
  cases hm : o.stateMethod <;> simp [methodDiffers, uploadedState, hm]

end UploadedState

/-- `file_uploaded`. -/
def fileUploaded (o : SiteOptions) (file : SiteFile) : StateM (Run σ) SiteFile := do
  modify fun r => { r with trace := r.trace ++ [Event.uploaded file.addr] }
  setDiff o { file with storedState := uploadedState o file }

section Primitives
variable (env : Env σ) (o : SiteOptions) (owner : Option ℕ) (c : DriverCall) (file : SiteFile)
  (r : Run σ)

@[simp] theorem ends_call (Q : Reply → Run σ → Prop) :
    Ends (call env owner c) r Q ↔ Q (env.exec c r.sess).1
      { r with
        sess := (env.exec c r.sess).2
        trace := r.trace ++ [Event.call owner c (env.exec c r.sess).1.code] } := Iff.rfl

@[simp] theorem ends_driverErr (Q : PUnit → Run σ → Prop) :
    Ends (driverErr env owner) r Q ↔ Q ⟨⟩
      { r with
        sess := (env.exec .error r.sess).2
        trace := r.trace ++ [Event.call owner .error (env.exec .error r.sess).1.code] } := Iff.rfl

@[simp] theorem ends_feCanUpdate (Q : Bool → Run σ → Prop) :
    Ends (feCanUpdate env file) r Q ↔
      Q (env.canUpdate file r.sess).1 { r with sess := (env.canUpdate file r.sess).2 } := Iff.rfl

@[simp] theorem ends_setDiff (Q : SiteFile → Run σ → Prop) :
    Ends (setDiff o file) r Q ↔
      Q (fileSetDiff o file r.stats).1 { r with stats := (fileSetDiff o file r.stats).2 } := Iff.rfl

@[simp] theorem ends_deleteEntry (Q : PUnit → Run σ → Prop) :
    Ends (deleteEntry o file) r Q ↔ Q ⟨⟩
      { r with
        stats := FileSet.fileDelete o file r.stats
        trace := r.trace ++ [Event.removed file.addr] } := Iff.rfl

@[simp] theorem ends_fileUploaded (Q : SiteFile → Run σ → Prop) :
    Ends (fileUploaded o file) r Q ↔
      Q (fileSetDiff o { file with storedState := uploadedState o file } r.stats).1
        { r with
          stats := (fileSetDiff o { file with storedState := uploadedState o file } r.stats).2
          trace := r.trace ++ [Event.uploaded file.addr] } := Iff.rfl

end Primitives

/-- `file_contents_changed`. -/
def fileContentsChanged (o : SiteOptions) (file : SiteFile) : Bool :=
  (match o.stateMethod with
    | .checksum => file.storedState.checksum ≠ file.localState.checksum
    | .timesize => file.storedState.size ≠ file.localState.size ||
        file.storedState.time ≠ file.localState.time) ||
  file.storedState.ascii ≠ file.localState.ascii

/-- `file_perms_changed`. -/
def filePermsChanged (o : SiteOptions) (file : SiteFile) : Bool :=
  (o.perms = .all ||
    ((file.localState.mode ||| file.storedState.mode) &&& S_IXUSR ≠ 0 && o.perms = .exec)) &&
  (o.tempupload || o.nooverwrite || file.localState.mode ≠ file.storedState.mode ||
    file.localState.existing ≠ file.storedState.existing)

/-- `file_chmod`: the entry, and whether the call failed. -/
def fileChmod (env : Env σ) (o : SiteOptions) (file : SiteFile) :
    StateM (Run σ) (SiteFile × Bool) :=
  if filePermsChanged o file then do
    let ret ← call env file.addr
      (.fileChmod (fileFullRemote file.localState o) file.localState.mode)
    if ret.code ≠ SITE_OK then do
      driverErr env file.addr
      pure (file, true)
    else do
      let file ← setDiff o
        { file with storedState := { file.storedState with mode := file.localState.mode } }
      pure (file, false)
  else pure (file, false)

/-- `file_retrieve_server`. -/
def fileRetrieveServer (env : Env σ) (o : SiteOptions) (file : SiteFile) :
    StateM (Run σ) SiteFile := do
  let ret ← call env file.addr (.fileGetModtime (fileFullRemote file.localState o))
  if ret.code = SITE_OK then
    pure { file with serverState := { file.serverState with time := ret.modtime, existing := true } }
  else do
    driverErr env file.addr
    pure { file with serverState := { file.serverState with existing := false } }

/-- What becomes of the current entry (`none` when deleted), and whether something failed. -/
abbrev Outcome := Option SiteFile × Bool

/-! ### The passes -/

def updateDeleteFile (env : Env σ) (o : SiteOptions) (file : SiteFile) :
    StateM (Run σ) Outcome :=
  if file.diff = .deleted ∧ file.type = .file then do
    let ok ← feCanUpdate env file
    if ok then do
      let ret ← call env file.addr (.fileDelete (fileFullRemote file.storedState o))
      if ret.code ≠ SITE_OK then do
        driverErr env file.addr
        pure (some file, true)
      else do
        deleteEntry o file
        pure (none, false)
    else pure (some file, false)
  else pure (some file, false)

/-- The end of a turn of `update_create_directories`, given `oret`. -/
def finishDirectory (o : SiteOptions) (file : SiteFile) (oret : ℤ) : StateM (Run σ) Outcome :=
  if oret ≠ SITE_OK then pure (some file, true)
  else do
    let file ← fileUploaded o file
    pure (some file, false)

def updateCreateDirectory (env : Env σ) (o : SiteOptions) (file : SiteFile) :
    StateM (Run σ) Outcome :=
  if file.type = .dir ∧ (file.diff = .new ∨ file.diff = .changed) then do
    let ok ← feCanUpdate env file
    if ok then do
      let remote := fileFullRemote file.localState o
      let oret ←
        if file.diff = .new then do
          let ret ← call env file.addr (.dirCreate remote)
          if ret.code ≠ SITE_OK then driverErr env file.addr
          pure ret.code
        else pure SITE_OK
      let oret ←
        if o.dirperms ∧ oret = SITE_OK then do
          let ret ← call env file.addr (.fileChmod remote file.localState.mode)
          if ret.code ≠ SITE_OK then driverErr env file.addr
          pure ret.code
        else pure oret
      finishDirectory o file oret
    else pure (some file, false)
  else pure (some file, false)

def updateMoveFile (env : Env σ) (o : SiteOptions) (file : SiteFile) :
    StateM (Run σ) Outcome :=
  if file.diff = .moved then do
    let ok ← feCanUpdate env file
    if ok then do
      let ret ← call env file.addr
        (.fileMove (fileFullRemote file.storedState o) (fileFullRemote file.localState o))
      if ret.code ≠ SITE_OK then do
        driverErr env file.addr
        pure (some file, true)
      else do
        let file ← fileUploaded o file
        pure (some file, false)
    else pure (some file, false)
  else pure (some file, false)

/-- `temp_upload_filename`: `.in.` before the last component. -/
def tempUploadFilename (filename : Text) : Text :=
  let base := afterSlash filename
  filename.take (filename.length - base.length) ++ ascii ".in." ++ base

/-- After a successful upload: permissions, then the stored state. -/
def finishUpload (env : Env σ) (o : SiteOptions) (file : SiteFile) :
    StateM (Run σ) Outcome := do
  let r ← fileChmod env o file
  let file ← fileUploaded o r.1
  pure (some file, r.2)

/-- After a successful unconditional upload. -/
def finishPlainUpload (env : Env σ) (o : SiteOptions) (file : SiteFile) :
    StateM (Run σ) Outcome := do
  let file ← if o.safemode then fileRetrieveServer env o file else pure file
  finishUpload env o file

/-- The three ways to upload one file. -/
def uploadFile (env : Env σ) (o : SiteOptions) (file : SiteFile) : StateM (Run σ) Outcome :=
  let loc := fileFullLocal file.localState o
  let remote := fileFullRemote file.localState o
  if o.safemode ∧ file.serverState.existing then do
    let cret ← call env file.addr
      (.fileUploadCond loc remote file.localState.ascii file.serverState.time)
    -- the switch names two failures and takes every other code for a success
    if cret.code = SITE_ERRORS then do
      driverErr env file.addr
      pure (some file, true)
    else if cret.code = SITE_FAILED then pure (some file, true)
    else do
      let file ← fileRetrieveServer env o file
      finishUpload env o file
  else if o.tempupload then do
    let temp := tempUploadFilename remote
    let ret ← call env file.addr (.fileUpload loc temp file.localState.ascii)
    if ret.code ≠ SITE_OK then do
      driverErr env file.addr
      pure (some file, true)
    else do
      let ret ← call env file.addr (.fileMove temp remote)
      if ret.code ≠ SITE_OK then do
        driverErr env file.addr
        pure (some file, true)
      else finishPlainUpload env o file
  else do
    let ret ← call env file.addr (.fileUpload loc remote file.localState.ascii)
    if ret.code ≠ SITE_OK then do
      driverErr env file.addr
      pure (some file, true)
    else finishPlainUpload env o file

/-- The `file_new` case, into which a changed file falls through. -/
def updateNewFile (env : Env σ) (o : SiteOptions) (file : SiteFile) : StateM (Run σ) Outcome := do
  let ok ← feCanUpdate env file
  if ok then
    if file.diff = .changed ∧ o.nooverwrite then do
      let ret ← call env file.addr (.fileDelete (fileFullRemote file.localState o))
      if ret.code ≠ SITE_OK then do
        driverErr env file.addr
        pure (some file, true)
      else uploadFile env o file
    else uploadFile env o file
  else pure (some file, false)

def updateFile (env : Env σ) (o : SiteOptions) (file : SiteFile) : StateM (Run σ) Outcome :=
  if file.type ≠ .file then pure (some file, false)
  else match file.diff with
    | .changed =>
      if file.ignore then pure (some file, false)
      else if !fileContentsChanged o file then do
        let r ← fileChmod env o file
        pure (some r.1, r.2)
      else updateNewFile env o file
    | .new => updateNewFile env o file
    | .deleted | .moved | .unchanged => pure (some file, false)

def updateDeleteDirectory (env : Env σ) (o : SiteOptions) (file : SiteFile) :
    StateM (Run σ) Outcome :=
  if file.type = .dir ∧ file.diff = .deleted then do
    let ok ← feCanUpdate env file
    if ok then do
      let ret ← call env file.addr (.dirRemove (fileFullRemote file.storedState o))
      if ret.code ≠ SITE_OK then do
        driverErr env file.addr
        pure (some file, true)
      else do
        deleteEntry o file
        pure (none, false)
    else pure (some file, false)
  else pure (some file, false)

/-- One link of `update_links`; its diff is set without `file_set_diff`. -/
def updateLink (env : Env σ) (o : SiteOptions) (file : SiteFile) : StateM (Run σ) Outcome :=
  if file.type ≠ .link then pure (some file, false)
  else
    let remote := fileFullRemote file.localState o
    let target := file.localState.linktarget.getD []
    match file.diff with
    | .new => do
      let ret ← call env file.addr (.linkCreate remote target)
      if ret.code ≠ SITE_OK then do
        driverErr env file.addr
        pure (some file, true)
      else pure (some { file with diff := .unchanged }, false)
    | .changed => do
      let ret ← call env file.addr (.linkChange remote target)
      if ret.code ≠ SITE_OK then do
        driverErr env file.addr
        pure (some file, true)
      else pure (some { file with diff := .unchanged }, false)
    | .deleted => do
      let ret ← call env file.addr (.linkDelete remote)
      if ret.code ≠ SITE_OK then do
        driverErr env file.addr
        pure (some file, true)
      else do
        deleteEntry o file
        pure (none, false)
    | .moved | .unchanged => pure (some file, false)

/-- A pass: the files that remain, and whether its `ret` is nonzero. -/
abbrev Pass (σ : Type) := List SiteFile → StateM (Run σ) (List SiteFile × Bool)

def updateDeleteFiles (env : Env σ) (o : SiteOptions) : Pass σ := forEach (updateDeleteFile env o)

def updateCreateDirectories (env : Env σ) (o : SiteOptions) : Pass σ :=
  forEach (updateCreateDirectory env o)

def updateMoveFiles (env : Env σ) (o : SiteOptions) : Pass σ := forEach (updateMoveFile env o)

def updateFiles (env : Env σ) (o : SiteOptions) : Pass σ := forEach (updateFile env o)

def updateLinks (env : Env σ) (o : SiteOptions) : Pass σ := forEach (updateLink env o)

def updateDeleteDirectories (env : Env σ) (o : SiteOptions) : Pass σ :=
  forEachBackward (updateDeleteDirectory env o)

/-! ### The whole update -/

/-- The table `handlers` of `site_update`, each function with its guard. -/
def handlers (env : Env σ) (o : SiteOptions) : List (Pass σ × Bool) :=
  [(updateDeleteFiles env o, !o.nodelete),
   (updateCreateDirectories env o, true),
   (updateMoveFiles env o, o.checkmoved),
   (updateFiles env o, true),
   (updateLinks env o, o.symlinks = .maintain),
   (updateDeleteDirectories env o, !o.nodelete)]

/-- The loop over the handlers. -/
def runHandlers (o : SiteOptions) :
    List (Pass σ × Bool) → Bool → List SiteFile → StateM (Run σ) (List SiteFile × Bool)
  | [], failed, files => pure (files, failed)
  | (func, guard) :: rest, failed, files =>
    if !failed || o.keepGoing then
      if guard then do
        let r ← func files
        runHandlers o rest (failed || r.2) r.1
      else runHandlers o rest failed files
    else pure (files, failed)

/-- `proto_init`. -/
def protoInit (env : Env σ) : StateM (Run σ) ℤ := do
  let ret ← call env none .init
  if ret.code ≠ SITE_OK then driverErr env none
  pure ret.code

/-- `proto_finish`, which first fetches the last error. -/
def protoFinish (env : Env σ) : StateM (Run σ) PUnit := do
  driverErr env none
  let _ ← call env none .finish
  pure ⟨⟩

/-- `site_update` on the files list: the files that remain and the return code. -/
def updateSiteFiles (env : Env σ) (o : SiteOptions) (files : List SiteFile) :
    StateM (Run σ) (List SiteFile × ℤ) := do
  let ret ← protoInit env
  if ret ≠ SITE_OK then do
    protoFinish env
    pure (files, ret)
  else do
    let r ← runHandlers o (handlers env o) false files
    protoFinish env
    pure (r.1, if r.2 then SITE_ERRORS else SITE_OK)

/-- What an update leaves behind. -/
structure UpdateResult (σ : Type) where
  site : Site
  ret : ℤ
  sess : σ
  trace : List Event

/-- `site_update`. -/
def siteUpdate (env : Env σ) (site : Site) (sess : σ) : UpdateResult σ :=
  let r := (updateSiteFiles env site.opts site.files).run { stats := site.stats, sess := sess }
  { site := { site with files := r.1.1, stats := r.2.stats }
    ret := r.1.2
    sess := r.2.sess
    trace := r.2.trace }

end Sitecopy.SiteUpdate
