import Sitecopy.FtpSession

/-!
# FTP transfers and operations

Data connections, uploads with their own retry loop, downloads, listings, and the
remaining operations that the driver calls.
-/
namespace Sitecopy.FtpTransfer
open SiteModel SiteOperations Numerals StateProgram FtpSession

variable {ω κ : Type} (net : Network ω)

/-! ### The data connection -/

/-- `dtp_open_passive`. -/
def dtpOpenPassive : Ftp ω Bool := do
  let s ← get
  modify fun s => { s with data := [] }
  outside (net.dtpConnect s.sess.dtpAddr s.sess.dtpPort)

def portCommand (numbers : List ℕ) : Text :=
  ascii "PORT " ++ [(44 : UInt8)].intercalate (numbers.map (printNat 10))

/-- `dtp_open_active`. -/
def dtpOpenActive (command : Text) : Ftp ω FtpCode := do
  let ret ← ftpOpen net
  if ret ≠ .ok then pure ret
  else
    match ← outside net.listen with
    | none => pure .error
    | some numbers => do
      let ret ← execute net (portCommand numbers)
      if ret ≠ .ok then pure ret
      else do
        let ret ← execute net command
        if ret ≠ .ready then pure ret
        else do
          modify fun s => { s with data := [] }
          let success ← outside net.accept
          record (.accepted success)
          -- the final reply of the accepted transfer stays unread when this fails
          if success then pure .ready else pure .error

/-- The first part of the passive branch of `ftp_data_open`: `EPSV` over IPv6. -/
def askEpsv : Ftp ω FtpCode := do
  let s ← get
  if s.sess.rfc2428 ≠ .bad ∧ s.sess.piCuraddr.map (·.type) = some .ipv6 then do
    let ret ← execute net (ascii "EPSV")
    updateSession fun s => { s with rfc2428 := if ret = .passive then .ok else s.rfc2428 }
    pure ret
  else pure .error

/-- The second part: `PASV`, unless `EPSV` gave an address or is known to work. -/
def askPasv (ret : FtpCode) : Ftp ω FtpCode := do
  let s ← get
  if (s.sess.rfc2428 = .unknown ∧ ret ≠ .passive) ∨ s.sess.rfc2428 = .bad then
    execute net (ascii "PASV")
  else pure ret

/-- `ftp_data_open`. -/
def ftpDataOpen (command : Text) : Ftp ω FtpCode := do
  let buf := printInto bufsiz command
  let s ← get
  if s.sess.usePassive then do
    let ret ← askEpsv net
    let ret ← askPasv net ret
    if ret ≠ .passive then pure .nopassive
    else if ← dtpOpenPassive net then execute net buf
    else pure .error
  else dtpOpenActive net buf

/-- `dtp_close`. -/
def dtpClose : Ftp ω FtpCode := do
  let success ← outside net.dtpClose
  record (.dataClosed success)
  -- the final reply of the transfer stays unread when this fails
  if !success then pure .error
  else do
    let s ← get
    match ← readReply net (.final s.sent) with
    | .error ret => pure ret
    | .ok code => do
      let ret ← parseReply net code
      if ret = .ok ∨ ret = .sent then pure .sent else pure .error

/-! ### Sending a file -/

/-- Cut what is read into pieces of at most `max` bytes, also after a byte that `stop` holds of. -/
def pieces (stop : UInt8 → Bool) (max : ℕ) : Text → Text → List Text
  | acc, [] => if acc = [] then [] else [acc]
  | acc, b :: rest =>
    let acc := acc ++ [b]
    if stop b || acc.length = max then acc :: pieces stop max [] rest
    else pieces stop max acc rest

/-- The bytes that `send_file_ascii` writes for one buffer that `fgets` filled. -/
def asciiBuffer (buffer : Text) : Text :=
  let str := buffer.takeWhile (· ≠ 0)
  if 13 ∈ str then str.takeWhile (· ≠ 13) ++ [13, 10]
  else if 10 ∈ str then str.takeWhile (· ≠ 10) ++ [13, 10]
  else str

/-- Write the buffers to the data connection until one fails. -/
def sendBuffers : List Text → Ftp ω Bool
  | [] => pure true
  | buffer :: rest => do
    match ← outside (net.dtpWrite buffer) with
    | some _ => pure false
    | none => do
      modify fun s => { s with data := s.data ++ buffer }
      sendBuffers rest

/-- `send_file_ascii` and `send_file_binary`; the result is whether they return zero. -/
def sendFile (asc : Bool) (content : Text) : Ftp ω Bool := do
  let fault ← outside net.ferror
  let readable := match fault with
    | some n => content.take n
    | none => content
  let buffers :=
    if asc then (pieces (· = 10) (bufsiz - 2) [] readable).map asciiBuffer
    else pieces (fun _ => false) bufsiz [] readable
  let sent ← sendBuffers net buffers
  pure (sent && fault.isNone)

/-! ### Uploads -/

/-- The part before the last slash, and the part after it. -/
def splitSlash (fn : Text) : Text × Text :=
  let base := (fn.reverse.takeWhile (· ≠ slash)).reverse
  (fn.take (fn.length - base.length - 1), base)

/-- `maybe_chdir`, with the new value of `*remotefile`. -/
def maybeChdir (fn : Text) : Ftp ω (FtpCode × Text) := do
  let s ← get
  if !s.sess.useCwd || fn.head? ≠ some slash || pathMax < fn.length then pure (.ok, fn)
  else do
    let (dir, base) := splitSlash fn
    if dir ≠ s.sess.cwd then do
      let ret ← execute net (ascii "CWD " ++ dir)
      updateSession fun s => { s with cwd := if ret = .ok then dir else s.cwd }
      pure (ret, base)
    else pure (.ok, base)

/-- What one turn of the loop of `ftp_put` does once the file pointer is in place: either
`ftp_put` returns, or `dret` decides, with the new `remotefile`. -/
def putAttempt (asc : Bool) (content remotefile : Text) : Ftp ω (Except FtpCode FtpCode × Text) := do
  let (ret, remotefile) ← maybeChdir net remotefile
  if ret ≠ .ok then pure (.error ret, remotefile)
  else do
    record .located
    let ret ← ftpDataOpen net (ascii "STOR " ++ remotefile)
    if ret = .ready then do
      let sent ← sendFile net asc content
      let dret ← dtpClose net
      if dret = .sent ∧ sent then pure (.error .ok, remotefile)
      else pure (.ok dret, remotefile)
    else pure (.ok .error, remotefile)

/-- Attempts other than the first start with the file pointer at the beginning. -/
def rewind (again : Bool) : Ftp ω Bool := if again then outside net.fseek else pure true

/-- The loop of `ftp_put`, with the number of turns left. -/
def putLoop (asc : Bool) (content : Text) : ℕ → Bool → Text → Ftp ω FtpCode
  | 0, _, _ => pure .error
  | n + 1, again, remotefile => do
    let placed ← rewind net again
    if !placed then pure .error
    else do
      let r ← putAttempt net asc content remotefile
      match r.1 with
      | .error ret => pure ret
      | .ok dret => if dret = .broken then putLoop asc content n true r.2 else pure .error

/-- The body of `ftp_put`. -/
def putFile (localfile remotefile : Text) (asc : Bool) : Ftp ω FtpCode := do
  let ret ← setMode net (if asc then .ascii else .binary)
  if ret ≠ .ok then pure .error
  else
    match ← outside (net.fopen localfile) with
    | none => pure .error
    | some content => do
      if !(← outside net.fstat) then pure .error
      else putLoop net asc content 3 false remotefile

/-- `ftp_put`. -/
def ftpPut (localfile remotefile : Text) (asc : Bool) : Ftp ω FtpCode := do
  record (.put remotefile)
  let ret ← putFile net localfile remotefile asc
  record .putDone
  pure ret

/-- `get_modtime`. -/
def getModtime (root filename : Text) : Ftp ω FtpCode := do
  let ret ← execute net (ascii "MDTM " ++ root ++ filename)
  pure (if ret = .modtime then .ok else .error)

/-- `ftp_put_cond`. -/
def ftpPutCond (localfile remotefile : Text) (asc : Bool) (mtime : ℤ) : Ftp ω FtpCode := do
  let ret ← getModtime net remotefile []
  if ret ≠ .ok then pure ret
  else do
    let s ← get
    if s.sess.getModtime ≠ mtime then pure .failed
    else ftpPut net localfile remotefile asc

/-! ### Downloads and listings -/

/-- The bytes of a created local file. -/
def setCreated (localfile content : Text) : Ftp ω PUnit := modify fun s =>
  { s with created := (localfile, content) :: s.created.filter (·.1 ≠ localfile) }

/-- The loop of `receive_file` over the blocks; `content` is what the file holds. -/
def writeBlocks (localfile : Text) : Text → List Text → Ftp ω Bool
  | _, [] => pure true
  | content, block :: rest => do
    match ← outside net.fwrite with
    | some n => do
      setCreated localfile (content ++ block.take n)
      pure false
    | none => do
      setCreated localfile (content ++ block)
      writeBlocks localfile (content ++ block) rest

/-- `receive_file`; the result is whether it returns zero. -/
def receiveFile (localfile : Text) : Ftp ω Bool := do
  let (blocks, ended) ← outside net.dtpRead
  let written ← writeBlocks net localfile [] blocks
  pure (written && ended = .closed)

/-- `ftp_get`. -/
def ftpGet (localfile remotefile : Text) (asc : Bool) : Ftp ω FtpCode := do
  if !(← outside (net.fcreate localfile)) then pure .error
  else do
    setCreated localfile []
    let ret ← setMode net (if asc then .ascii else .binary)
    if ret ≠ .ok then pure .error
    else do
      let ret ← ftpDataOpen net (ascii "RETR " ++ remotefile)
      if ret ≠ .ready then pure .error
      else do
        let received ← receiveFile net localfile
        let clo ← outside net.fclose
        let dret ← dtpClose net
        if dret = .sent ∧ received ∧ clo then pure .ok else pure .error

/-- `ftp_read_file`, with the blocks that the reader gets. -/
def ftpReadFile (remotefile : Text) : Ftp ω (FtpCode × List Text) := do
  let ret ← setMode net .binary
  if ret ≠ .ok then pure (.error, [])
  else do
    let ret ← ftpDataOpen net (ascii "RETR " ++ remotefile)
    if ret ≠ .ready then pure (.error, [])
    else do
      let (blocks, ended) ← outside net.dtpRead
      let dret ← dtpClose net
      pure (if dret = .sent ∧ ended = .closed then .ok else .error, blocks)

/-- What `ls_parse` makes of a line. -/
inductive LsResult
  | directory (name : Text) (mode : UInt32)
  | file (name : Text) (mode : UInt32) (size : ℤ)
  | nothing
  | error
  deriving DecidableEq, Repr

/-- `ls_init` and `ls_parse` over contexts `κ`. -/
structure LsParser (κ : Type) where
  init : Text → κ
  parse : κ → Text → κ × LsResult

/-- `*list` and `*tail`, the latter as the number of nodes after the one it points to. -/
structure PfList where
  list : List ProtoFile := []
  tail : Option ℕ := none
  deriving DecidableEq, Repr

/-- `ls_pflist_add`: files go to the front and directories after the tail. -/
def lsPflistAdd (l : PfList) : LsResult → PfList
  | .file filename mode size =>
    { list := { filename, mode, type := .file, size } :: l.list
      tail := some (l.tail.getD l.list.length) }
  | .directory filename mode =>
    let pf : ProtoFile := { filename, mode, type := .dir }
    match l.tail with
    | none => { list := [pf], tail := some 0 }
    | some after => { list := l.list.take (l.list.length - after) ++ [pf], tail := some 0 }
  | .nothing | .error => l

/-- The loop of `ftp_fetch` over the lines of the listing, and how the listing ended. -/
def readListing (ls : LsParser κ) (ended : SockError) :
    List Text → κ → PfList → Bool × PfList
  | [], _, l => (ended = .closed, l)
  | line :: rest, ctx, l =>
    match ls.parse ctx line with
    | (_, .error) => (false, l)
    | (ctx, r) => readListing ls ended rest ctx (lsPflistAdd l r)

/-- `ftp_fetch`. -/
def ftpFetch (ls : LsParser κ) (startdir : Text) (list : List ProtoFile) :
    Ftp ω (FtpCode × List ProtoFile) := do
  let ret ← ftpDataOpen net (ascii "LIST -la " ++ startdir)
  if ret ≠ .ready then pure (.error, list)
  else do
    let (lines, ended) ← outside net.dtpRead
    let r := readListing ls ended lines (ls.init startdir) { list }
    let dret ← dtpClose net
    pure (if r.1 ∧ dret = .sent then .ok else .error, r.2.list)

/-- `ftp_fetch_modtimes`. -/
def ftpFetchModtimes (rootdir : Text) : List ProtoFile → Ftp ω (FtpCode × List ProtoFile)
  | [] => pure (.ok, [])
  | file :: rest =>
    if file.type ≠ .file then do
      let r ← ftpFetchModtimes rootdir rest
      pure (r.1, file :: r.2)
    else do
      let ret ← getModtime net rootdir file.filename
      if ret ≠ .ok then pure (.error, file :: rest)
      else do
        let s ← get
        let r ← ftpFetchModtimes rootdir rest
        pure (r.1, { file with modtime := s.sess.getModtime } :: r.2)

/-! ### The other operations -/

/-- `ftp_finish`. -/
def ftpFinish : Ftp ω FtpCode := do
  let s ← get
  if s.sess.connected then do
    let ret ← runCommand net (ascii "QUIT")
    closePi
    pure (if ret = .closed then .ok else .error)
  else pure .ok

/-- `ftp_mkdir`. -/
def ftpMkdir (dir : Text) : Ftp ω FtpCode := execute net (ascii "MKD " ++ dir)

/-- `ftp_move`. -/
def ftpMove (src dst : Text) : Ftp ω FtpCode := do
  let ret ← execute net (ascii "RNFR " ++ src)
  if ret = .filemore then execute net (ascii "RNTO " ++ dst) else pure .error

/-- `ftp_delete`. -/
def ftpDelete (filename : Text) : Ftp ω FtpCode := execute net (ascii "DELE " ++ filename)

/-- `ftp_rmdir`. -/
def ftpRmdir (filename : Text) : Ftp ω FtpCode := execute net (ascii "RMD " ++ filename)

/-- `ftp_chmod`. -/
def ftpChmod (filename : Text) (mode : UInt32) : Ftp ω FtpCode :=
  execute net (ascii "SITE CHMOD " ++ padZeros 3 (printNat 8 (mode &&& 511).toNat) ++ [32] ++
    filename)

/-- `ftp_get_modtime`, with the time that it stores. -/
def ftpGetModtime (filename : Text) : Ftp ω (FtpCode × ℤ) := do
  let ret ← getModtime net filename []
  let s ← get
  pure (if ret = .ok then (.ok, s.sess.getModtime) else (.error, -1))

/-! ### Runs -/

/-- The operations that the driver calls. -/
inductive Op
  | open
  | finish
  | put (localfile remotefile : Text) (asc : Bool)
  | putCond (localfile remotefile : Text) (asc : Bool) (mtime : ℤ)
  | get (localfile remotefile : Text) (asc : Bool)
  | readFile (remotefile : Text)
  | fetch (startdir : Text)
  | fetchModtimes (rootdir : Text) (files : List ProtoFile)
  | mkdir (dir : Text)
  | move (src dst : Text)
  | delete (filename : Text)
  | rmdir (filename : Text)
  | chmod (filename : Text) (mode : UInt32)
  | getModtime (filename : Text)
  deriving DecidableEq, Repr

def runOp (ls : LsParser κ) : Op → Ftp ω FtpCode
  | .open => ftpOpen net
  | .finish => ftpFinish net
  | .put localfile remotefile asc => ftpPut net localfile remotefile asc
  | .putCond localfile remotefile asc mtime => ftpPutCond net localfile remotefile asc mtime
  | .get localfile remotefile asc => ftpGet net localfile remotefile asc
  | .readFile remotefile => (·.1) <$> ftpReadFile net remotefile
  | .fetch startdir => (·.1) <$> ftpFetch net ls startdir []
  | .fetchModtimes rootdir files => (·.1) <$> ftpFetchModtimes net rootdir files
  | .mkdir dir => ftpMkdir net dir
  | .move src dst => ftpMove net src dst
  | .delete filename => ftpDelete net filename
  | .rmdir filename => ftpRmdir net filename
  | .chmod filename mode => ftpChmod net filename mode
  | .getModtime filename => (·.1) <$> ftpGetModtime net filename

/-- Run the operations in order, with their results. -/
def runOps (ls : LsParser κ) : List Op → Ftp ω (List FtpCode)
  | [] => pure []
  | op :: rest => do
    let ret ← runOp net ls op
    let more ← runOps ls rest
    pure (ret :: more)

/-- The session that `ftp_init`, `ftp_set_server`, `ftp_set_passive` and
`ftp_set_usecwd` leave. -/
def startSession (usePassive useCwd : Bool) (username password : Text) (piAddr : List InetAddr) :
    Session := { usePassive, useCwd, username, password, piAddr }

end Sitecopy.FtpTransfer
