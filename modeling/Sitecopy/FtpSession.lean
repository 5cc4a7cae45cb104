import Sitecopy.SiteOperations
import Sitecopy.Numerals

/-!
# The FTP control connection

Commands, replies, logins and the two retry loops of the FTP client. The network, the
server and the local system answer every call as they like. A run keeps the lines that
the server has sent and the client has not read, the server's working directory, and a
trace of what happened, newest first.
-/
namespace Sitecopy.FtpSession
open SiteModel SiteOperations Numerals StateProgram

/-- The `FTP_*` codes. -/
inductive FtpCode
  | ok
  | needpassword
  | passive
  | ready
  | filemore
  | modtime
  | sent
  | closed
  | filebad
  | failed
  | lookup
  | connect
  | hello
  | login
  | broken
  | denied
  | unsupported
  | nopassive
  | error
  deriving DecidableEq, Repr

/-- The `NE_SOCK_*` errors. -/
inductive SockError
  | error
  | timeout
  | closed
  | reset
  | trunc
  deriving DecidableEq, Repr

/-- `FTP_PI_BROKEN`. -/
def SockError.piBroken : SockError → Bool
  | .reset | .closed | .timeout => true
  | .error | .trunc => false

inductive TranMode
  | unknown
  | binary
  | ascii
  deriving DecidableEq, Repr

inductive Rfc2428Mode
  | unknown
  | ok
  | bad
  deriving DecidableEq, Repr

inductive IaddrType
  | ipv4
  | ipv6
  deriving DecidableEq, Repr

/-- `ne_inet_addr`. -/
structure InetAddr where
  type : IaddrType
  raw : List UInt8
  deriving DecidableEq, Repr

/-- `struct ftp_session_s`, as `ftp_init` clears it. -/
structure Session where
  usePassive : Bool := false
  useCwd : Bool := false
  connected : Bool := false
  username : Text := []
  password : Text := []
  piAddr : List InetAddr := []
  piCuraddr : Option InetAddr := none
  dtpAddr : Option InetAddr := none
  dtpPort : ℕ := 0
  mode : TranMode := .unknown
  rfc2428 : Rfc2428Mode := .unknown
  cwd : Text := []
  getModtime : ℤ := 0
  rbuf : Text := []
  deriving DecidableEq, Repr

def pathMax : ℕ := 4096
def bufsiz : ℕ := 8192

/-- Printing into a buffer of `n` bytes, the last of which holds the NUL. -/
def printInto (n : ℕ) (t : Text) : Text := t.take (n - 1)

/-! ### Replies of the server -/

/-- The three digits of a code. -/
def codeDigits (code : ℕ) : Text :=
  [UInt8.ofNat (48 + code / 100), UInt8.ofNat (48 + code / 10 % 10), UInt8.ofNat (48 + code % 10)]

/-- A reply as RFC 959 frames it: one line `ddd text`, or several of which the first is
`ddd-text` and the last is the first one to start with `ddd` and a blank. -/
structure Reply where
  code : ℕ
  more : List Text := []
  text : Text
  three_digits : 100 ≤ code ∧ code < 1000
  opened : ∀ t ∈ more.head?, codeDigits code ++ [45] <+: t
  between : ∀ t ∈ more.tail, ¬ codeDigits code ++ [32] <+: t
  one_line : 10 ∉ text
  one_line_each : ∀ t ∈ more, ∃ body, t = body ++ [10] ∧ 10 ∉ body

/-- The last line of a reply ends with CR LF. -/
def Reply.last (r : Reply) : Text := codeDigits r.code ++ 32 :: r.text ++ [13, 10]

def Reply.single (code : ℕ) (text : Text) (h : 100 ≤ code ∧ code < 1000) (hline : 10 ∉ text) :
    Reply where
  code
  text
  three_digits := h
  opened := by simp
  between := by simp
  one_line := hline
  one_line_each := by simp

/-- The same reply, its conditions checked by evaluation. -/
def Reply.checked (code : ℕ) (text : Text)
    (h : decide ((100 ≤ code ∧ code < 1000) ∧ 10 ∉ text) = true) : Reply :=
  .single code text (of_decide_eq_true h).1 (of_decide_eq_true h).2

/-- What a line on the control connection belongs to: the greeting, the reply to the
`n`-th command, or the final reply of the transfer that this command started. -/
inductive Origin
  | greeting
  | reply (n : ℕ)
  | final (n : ℕ)
  deriving DecidableEq, Repr

structure Line where
  origin : Origin
  text : Text
  deriving DecidableEq, Repr

def Reply.lines (r : Reply) (origin : Origin) : List Line :=
  (r.more ++ [r.last]).map fun t => { origin, text := t }

/-- The codes that `parse_reply` maps to `FTP_OK`. -/
def okCode (code : ℕ) : Bool := code ∈ [200, 220, 230, 250, 253, 257]

/-- The codes that `parse_reply` maps to `FTP_READY`. -/
def readyCode (code : ℕ) : Bool := code ∈ [150, 125]

def isTransfer (line : Text) : Bool :=
  (ascii "STOR ").isPrefixOf line || (ascii "RETR ").isPrefixOf line ||
    (ascii "LIST ").isPrefixOf line

/-! ### The outside world -/

/-- Everything that is not the client; `ω` is its state. -/
structure Network (ω : Type) where
  feLogin : Text → Text → StateM ω (Option (Text × Text))
  connect : InetAddr → StateM ω Bool
  greeting : StateM ω Reply
  /-- the directory in which a new login starts -/
  loginDir : StateM ω Text
  /-- the one reply to a command line -/
  answer : Text → StateM ω Reply
  /-- the one further reply to an accepted transfer -/
  final : StateM ω Reply
  write : StateM ω (Option SockError)
  readline : StateM ω (Option SockError)
  mktime : List ℤ → ℤ
  dtpConnect : Option InetAddr → ℕ → StateM ω Bool
  /-- the six numbers of the listening socket, unless it cannot be set up -/
  listen : StateM ω (Option (List ℕ))
  accept : StateM ω Bool
  dtpWrite : Text → StateM ω (Option SockError)
  /-- the blocks read from the data connection, and how it ended -/
  dtpRead : StateM ω (List Text × SockError)
  dtpClose : StateM ω Bool
  /-- opening a file for reading, with its content -/
  fopen : Text → StateM ω (Option Text)
  fstat : StateM ω Bool
  /-- the offset at which reading the file fails -/
  ferror : StateM ω (Option ℕ)
  fseek : StateM ω Bool
  /-- creating a file for writing -/
  fcreate : Text → StateM ω Bool
  /-- how much of a block is written, if not all -/
  fwrite : StateM ω (Option ℕ)
  fclose : StateM ω Bool

inductive Event
  /-- a command is written, and what is still unread on the control connection -/
  | command (cmd : Text) (unread : List Line)
  /-- the server answers a command line in its working directory -/
  | answer (line : Text) (code : ℕ) (dir : Text)
  /-- lines that the client takes as the reply of this origin -/
  | reply (origin : Origin) (lines : List Line)
  | login (dir : Text)
  | accepted (success : Bool)
  | dataClosed (success : Bool)
  /-- `ftp_put` is called -/
  | put (remotefile : Text)
  /-- `maybe_chdir` returns `FTP_OK` in `ftp_put` -/
  | located
  /-- `ftp_put` returns -/
  | putDone
  deriving DecidableEq, Repr

/-- The session and its surroundings. -/
structure Client (ω : Type) where
  net : ω
  sess : Session
  /-- sent by the server on the control connection and not read -/
  unread : List Line := []
  /-- the server's working directory -/
  dir : Text := []
  /-- the number of command lines that the server has received -/
  sent : ℕ := 0
  /-- the bytes written to the data connection -/
  data : Text := []
  /-- the local files that were created -/
  created : List (Text × Text) := []
  trace : List Event := []

abbrev Ftp (ω : Type) := StateM (Client ω)

variable {ω : Type} (net : Network ω)

def outside {α : Type} (m : StateM ω α) : Ftp ω α := fun s =>
  let r := m.run s.net
  (r.1, { s with net := r.2 })

def updateSession (f : Session → Session) : Ftp ω PUnit := modify fun s => { s with sess := f s.sess }

def record (e : Event) : Ftp ω PUnit := modify fun s => { s with trace := e :: s.trace }

/-- `ne_sock_close` on the control connection: what was not read is lost. -/
def closePi : Ftp ω PUnit := modify fun s =>
  { s with sess := { s.sess with connected := false }, unread := [] }

/-- The command lines in what is written; every line ends with CR LF. -/
def commandLines : Text → Text → List Text
  | line, [] => [line]
  | line, [b] => [line ++ [b]]
  | line, b :: c :: rest =>
    if b = 13 ∧ c = 10 then line :: commandLines [] rest
    else commandLines (line ++ [b]) (c :: rest)

/-- The working directory after a command line: a successful `CWD` sets it. -/
def dirAfter (line : Text) (code : ℕ) (dir : Text) : Text :=
  if (ascii "CWD ").isPrefixOf line && okCode code then line.drop 4 else dir

/-- The server gets a command line and answers it. -/
def serve (line : Text) : Ftp ω PUnit := do
  let r ← outside (net.answer line)
  modify fun s => { s with
    sent := s.sent + 1
    unread := s.unread ++ r.lines (.reply (s.sent + 1))
    dir := dirAfter line r.code s.dir
    trace := .answer line r.code s.dir :: s.trace }
  if isTransfer line && 100 ≤ r.code && r.code < 200 then do
    let f ← outside net.final
    modify fun s => { s with unread := s.unread ++ f.lines (.final s.sent) }
  else pure ⟨⟩

def serveAll : List Text → Ftp ω PUnit
  | [] => pure ⟨⟩
  | line :: rest => do
    serve net line
    serveAll rest

/-- `ne_sock_fullwrite` of a command and CR LF. -/
def writeCommand (cmd : Text) : Ftp ω (Option SockError) := do
  modify fun s => { s with trace := .command cmd s.unread :: s.trace }
  match ← outside net.write with
  | some e => pure (some e)
  | none => do
    serveAll net (commandLines [] cmd)
    pure none

/-! ### Reading and parsing replies -/

/-- `atoi` of a line that `read_reply` finds to start with a code. -/
def lineCode (t : Text) : Option ℕ :=
  if 4 < t.length ∧ (t.take 3).all (isDigit 10) then some (scanDigits 10 t) else none

/-- One turn of the loop of `read_reply`: the code and the code of the open multi-line
reply, 0 if there is none. -/
def replyStep (t : Text) (code multiline : ℕ) : ℕ × ℕ :=
  match lineCode t with
  | none => (code, multiline)
  | some c =>
    if multiline = 0 ∧ t.getD 3 0 = 45 then (c, c)
    else if multiline = c ∧ t.getD 3 0 = 32 then (c, 0)
    else (c, multiline)

/-- The outcome of the loop of `read_reply`. -/
structure Reading where
  result : Except SockError ℕ
  rbuf : Text
  taken : List Line
  unread : List Line

/-- The loop of `read_reply`. When nothing more comes, the read times out. -/
def readLines : List Line → List Line → ℕ → ℕ → Text → StateM ω Reading
  | [], taken, _, _, rbuf => do
    let fault ← net.readline
    pure { result := .error (fault.getD .timeout), rbuf, taken, unread := [] }
  | line :: rest, taken, code, multiline, rbuf => do
    match ← net.readline with
    | some e => pure { result := .error e, rbuf, taken, unread := line :: rest }
    | none =>
      let next := replyStep line.text code multiline
      let taken := taken ++ [line]
      if next.2 = 0 then pure { result := .ok next.1, rbuf := line.text, taken, unread := rest }
      else readLines rest taken next.1 next.2 line.text

/-- `read_reply`; `origin` is what the caller takes the reply for. -/
def readReply (origin : Origin) : Ftp ω (Except FtpCode ℕ) := do
  let s ← get
  let r ← outside (readLines net s.unread [] 0 0 s.sess.rbuf)
  modify fun s => { s with unread := r.unread, sess := { s.sess with rbuf := r.rbuf } }
  match r.result with
  | .error e => do
    closePi
    pure (.error (if e.piBroken then .broken else .error))
  | .ok code => do
    record (.reply origin r.taken)
    pure (.ok code)

/-- `ne_shave`. -/
def shave (junk t : Text) : Text :=
  ((t.dropWhile (· ∈ junk)).reverse.dropWhile (· ∈ junk)).reverse

/-- `%nd` of `sscanf`: at most `width` bytes after the blanks. -/
def scanField (width : ℕ) (t : Text) : Option (ℤ × Text) :=
  let t := t.dropWhile isSpace
  let field := t.take width
  let sign := match field with
    | 45 :: _ | 43 :: _ => 1
    | _ => 0
  let digits := (field.drop sign).takeWhile (isDigit 10)
  if digits = [] then none
  else some (if field.head? = some 45 then -(scanDigits 10 digits : ℤ) else scanDigits 10 digits,
    t.drop (sign + digits.length))

def scanFields : List ℕ → Text → Option (List ℤ)
  | [], _ => some []
  | width :: widths, t => do
    let r ← scanField width t
    let rest ← scanFields widths r.2
    pure (r.1 :: rest)

/-- `parse_modtime`. -/
def parseModtime : Ftp ω FtpCode := do
  updateSession fun s => { s with rbuf := shave [13, 10] s.rbuf }
  let response := (← get).sess.rbuf
  if response.length ≠ 18 ∨ ¬ ascii "213" <+: response then pure .error
  else
    match scanFields [4, 2, 2, 2, 2, 2] ((response.drop 3).dropWhile isSpace) with
    | some [year, mon, mday, hour, min, sec] => do
      let t := net.mktime [year - 1900, mon - 1, mday, hour, min, sec]
      updateSession fun s => { s with getModtime := t }
      pure .modtime
    | _ => pure .error

/-- What stands after the numeral at the front, if there is one. -/
def afterNumeral (t : Text) : Option Text :=
  let t := t.dropWhile isSpace
  let t := match t with
    | 45 :: rest | 43 :: rest => rest
    | _ => t
  if (t.takeWhile (isDigit 10)) = [] then none else some (t.dropWhile (isDigit 10))

/-- `%u` of `sscanf`. -/
def scanUnsigned (t : Text) : Option (ℕ × Text) := do
  let rest ← afterNumeral t
  pure (strtoul (2 ^ 64 - 1) 10 t % 2 ^ 32, rest)

/-- `%u,%u,...` of `sscanf` with `n + 1` numbers. -/
def scanUnsigneds : ℕ → Text → Option (List ℕ)
  | 0, t => do
    let r ← scanUnsigned t
    pure [r.1]
  | n + 1, t => do
    let r ← scanUnsigned t
    match r.2 with
    | 44 :: rest => do
      let more ← scanUnsigneds n rest
      pure (r.1 :: more)
    | _ => none

/-- What a string function sees of bytes in memory. -/
def cString (t : Text) : Text := t.takeWhile (· ≠ 0)

/-- `parse_pasv_reply`. -/
def parsePasvReply (reply : Text) : Ftp ω FtpCode :=
  match (cString reply).dropWhile (· ≠ 32) with
  | [] => pure .error
  | start =>
    match scanUnsigneds 5 (start.dropWhile fun b => !isDigit 10 b) with
    | some [h1, h2, h3, h4, p1, p2] => do
      let raw := [h1, h2, h3, h4].map fun h => UInt8.ofNat (h % 256)
      updateSession fun s => { s with
        dtpPort := (p1 * 256 ||| p2) % 2 ^ 16, dtpAddr := some ⟨.ipv4, raw⟩ }
      pure .passive
    | _ => pure .error

/-- `parse_epasv_reply`. -/
def parseEpasvReply (reply : Text) : Ftp ω FtpCode :=
  let ptr := (cString reply).dropWhile (· ≠ 40)
  let delim := ptr.getD 1 0
  let number := (ptr.drop 4).takeWhile (· ≠ 41)
  if ptr = [] ∨ delim ≠ ptr.getD 2 0 ∨ delim ≠ ptr.getD 3 0 ∨
      number.length = (ptr.drop 4).length ∨ number = [] ∨ number.getLast? ≠ some delim then
    pure .error
  else
    let number := number.dropLast
    if (afterNumeral number).getD number ≠ [] then pure .error
    else do
      let port := strtol (-2 ^ 63) (2 ^ 63 - 1) 10 number
      updateSession fun s => { s with dtpAddr := s.piCuraddr, dtpPort := (port % 2 ^ 16).toNat }
      pure .passive

/-- `parse_reply`. -/
def parseReply (code : ℕ) : Ftp ω FtpCode :=
  match code with
  | 200 | 220 | 230 | 250 | 253 | 257 => pure .ok
  | 226 => pure .sent
  | 150 | 125 => pure .ready
  | 550 => pure .filebad
  | 331 => pure .needpassword
  | 350 => pure .filemore
  | 221 => pure .closed
  | 421 => do
    closePi
    pure .broken
  | 553 => pure .error
  | 213 => parseModtime net
  | 227 => do parsePasvReply (← get).sess.rbuf
  | 229 => do parseEpasvReply (← get).sess.rbuf
  | _ => pure .error

/-- `run_command`. -/
def runCommand (cmd : Text) : Ftp ω FtpCode := do
  match ← writeCommand net cmd with
  | some e => do
    closePi
    pure (if e.piBroken then .broken else .error)
  | none => do
    let s ← get
    match ← readReply net (.reply s.sent) with
    | .error r => pure r
    | .ok code => parseReply net code

/-! ### Logging in, and the retry loop of `execute` -/

/-- The commands of `authenticate`. -/
def sendLogin (username password : Text) : Ftp ω FtpCode := do
  updateSession fun s => { s with username, password }
  let ret ← runCommand net (printInto 1024 (ascii "USER " ++ username))
  if ret = .needpassword then runCommand net (printInto 1024 (ascii "PASS " ++ password))
  else pure ret

/-- `authenticate`. -/
def authenticate : Ftp ω FtpCode := do
  let s ← get
  if s.sess.username.length = 0 ∨ s.sess.password.length = 0 then do
    match ← outside (net.feLogin s.sess.username s.sess.password) with
    | none => pure .error
    | some (username, password) => sendLogin net username password
  else sendLogin net s.sess.username s.sess.password

/-- The loop of `ftp_open` over the addresses of the server. -/
def connectPi : List InetAddr → Ftp ω Bool
  | [] => pure false
  | ia :: rest => do
    let success ← outside (net.connect ia)
    updateSession fun s => { s with piCuraddr := some ia }
    if success then pure true else connectPi rest

/-- `ftp_open` up to where the connection is marked as open. -/
def dial : Ftp ω FtpCode := do
  updateSession fun s => { s with cwd := ascii "x" }
  let s ← get
  if !(← connectPi net s.sess.piAddr) then pure .connect
  else do
    let hello ← outside net.greeting
    modify fun s => { s with unread := hello.lines .greeting }
    match ← readReply net .greeting with
    | .error _ => pure .hello
    | .ok code => do
      if (← parseReply net code) ≠ .ok then pure .hello
      else if (← authenticate net) ≠ .ok then do
        let s ← get
        if s.sess.connected then closePi else pure ⟨⟩
        pure .login
      else do
        let dir ← outside net.loginDir
        modify fun s => { s with
          sess := { s.sess with connected := true }, dir, trace := .login dir :: s.trace }
        pure .ok

/-- `ftp_open`, given how it restores the transfer mode. -/
def openWith (restore : TranMode → Ftp ω FtpCode) : Ftp ω FtpCode := do
  let s ← get
  if s.sess.connected then pure .ok
  else do
    let ret ← dial net
    if ret ≠ .ok then pure ret
    else do
      let s ← get
      if s.sess.mode ≠ .unknown then do
        updateSession fun s => { s with mode := .unknown }
        restore s.sess.mode
      else pure .ok

/-- One turn of the loop of `execute`: `.error` when `ftp_open` fails. -/
def attempt (openPi : Ftp ω FtpCode) (buf : Text) : Ftp ω (Except FtpCode FtpCode) := do
  let ret ← openPi
  if ret ≠ .ok then pure (.error ret) else .ok <$> runCommand net buf

def isBroken : Except FtpCode FtpCode → Bool
  | .ok .broken => true
  | _ => false

/-- `execute`, given `ftp_open`. -/
def executeWith (openPi : Ftp ω FtpCode) (cmd : Text) : Ftp ω FtpCode := do
  match ← retry isBroken (attempt net openPi (printInto 1024 cmd)) 2 with
  | .error ret => pure ret
  | .ok .broken => pure .error
  | .ok ret => pure ret

/-- `set_mode`, given `execute`. -/
def setModeWith (exec : Text → Ftp ω FtpCode) (mode : TranMode) : Ftp ω FtpCode := do
  let s ← get
  if s.sess.mode = mode then pure .ok
  else do
    let ret ← exec (if mode = .ascii then ascii "TYPE A" else ascii "TYPE I")
    updateSession fun s => { s with mode := if ret = .ok then mode else .unknown }
    pure ret

/-- `ftp_open`, which may call itself through `set_mode` and `execute` to depth `n`. -/
def openDepth : ℕ → Ftp ω FtpCode
  | 0 => openWith net fun _ => pure .error
  | n + 1 => openWith net (setModeWith (executeWith net (openDepth n)))

/-- `ftp_open`. -/
def ftpOpen : Ftp ω FtpCode := openDepth net 1

/-- `execute`. -/
def execute (cmd : Text) : Ftp ω FtpCode := executeWith net (ftpOpen net) cmd

/-- `set_mode`. -/
def setMode (mode : TranMode) : Ftp ω FtpCode := setModeWith (execute net) mode

end Sitecopy.FtpSession
