import Sitecopy.BufferedLines
import Sitecopy.FetchedNames

/-!
# The rcfile

An rcfile is a default block and a block of lines for each site. A line has a key and up
to two values, which a small lexer finds. What a line does to a site is a list of changes,
so that the same table of keys works on sites of values and on sites of pointers.
-/
namespace Sitecopy.Rcfile
open SiteModel Numerals BufferedLines FetchedNames

/-- The size of the line buffer and of the buffers for the key and the values. -/
def LINESIZE : ℕ := 128

def newline : UInt8 := 10
def hash : UInt8 := 35
def quote : UInt8 := 34
def backslash : UInt8 := 92
def tilde : UInt8 := 126

/-! ### The lexer -/

inductive Buffer
  | key
  | val
  | val2
  deriving DecidableEq, Repr

/-- The states 0 to 9 of the lexer. -/
inductive LexState
  | lineStart
  | key
  | afterKey
  | value
  | quoted
  | afterValue
  | quoted2
  | value2
  /-- ignore till end of line -/
  | ignored
  /-- a literal, slashed character in a value -/
  | slashed
  deriving DecidableEq, Repr

structure Lexer where
  state : LexState := .lineStart
  lastState : LexState := .ignored
  /-- `ptr` is a buffer and a place in it -/
  ptr : Buffer := .key
  pos : ℕ := 0
  key : Text := []
  val : Text := []
  val2 : Text := []
  deriving DecidableEq, Repr

def storeAt (buf : Text) (pos : ℕ) (c : UInt8) : Text := buf.take pos ++ c :: buf.drop (pos + 1)

/-- `*(ptr++) = c`. -/
def Lexer.store (l : Lexer) (c : UInt8) : Lexer :=
  match l.ptr with
  | .key => { l with key := storeAt l.key l.pos c, pos := l.pos + 1 }
  | .val => { l with val := storeAt l.val l.pos c, pos := l.pos + 1 }
  | .val2 => { l with val2 := storeAt l.val2 l.pos c, pos := l.pos + 1 }

/-- The body of the loop over the characters of a line. -/
def Lexer.step (l : Lexer) (c : UInt8) : Lexer :=
  match l.state with
  | .lineStart =>
    if c = hash then { l with state := .ignored }
    else if isSpace c then l
    else { l.store c with state := .key }
  | .key =>
    if c = hash then { l with state := .ignored }
    else if isSpace c then { l with ptr := .val, pos := 0, state := .afterKey }
    else l.store c
  | .afterKey =>
    if c = hash then { l with state := .ignored }
    else if c = quote then { l with state := .quoted }
    else if isSpace c then l
    else { l.store c with state := .value }
  | .value =>
    if c = hash then { l with state := .ignored }
    else if isSpace c then { l with ptr := .val2, pos := 0, state := .afterValue }
    else l.store c
  | .quoted =>
    if c = quote then { l with ptr := .val2, pos := 0, state := .afterValue }
    else if c = backslash then { l with lastState := .quoted, state := .slashed }
    else l.store c
  | .afterValue =>
    if c = hash then { l with state := .ignored }
    else if c = quote then { l with state := .quoted2 }
    else if isSpace c then l
    else { l.store c with state := .value2 }
  | .quoted2 =>
    if c = quote then { l with state := .ignored }
    -- the first value's state is the one that is gone back to
    else if c = backslash then { l with lastState := .quoted, state := .slashed }
    else l.store c
  | .value2 =>
    if c = hash then { l with state := .ignored }
    else if isSpace c then { l with state := .ignored }
    else l.store c
  | .ignored => l
  | .slashed => { l.store c with state := l.lastState }

/-- The key and the values of what is in `buf`. -/
def lexLine (buf : Text) : Lexer := (buf.takeWhile (· ≠ 0)).foldl Lexer.step {}

/-! ### Sites -/

/-- The members of `struct site` that are numbers. -/
structure Settings where
  serverPort : ℤ := 0
  proxyPort : ℤ := 0
  protocol : Protocol := .ftp
  remoteIsrel : Bool := false
  localIsrel : Bool := false
  perms : PermMode := .ignore
  dirperms : Bool := false
  symlinks : SymlinkMode := .follow
  ftpPasvMode : Bool := true
  ftpEchoQuit : Bool := false
  ftpUseCwd : Bool := false
  httpUseExpect : Bool := false
  httpLimit : Bool := false
  httpSecure : Bool := false
  httpTolerant : Bool := false
  nodelete : Bool := false
  checkmoved : Bool := false
  checkrenames : Bool := false
  nooverwrite : Bool := false
  safemode : Bool := false
  lowercase : Bool := false
  tempupload : Bool := false
  stateMethod : StateMethod := .timesize
  deriving DecidableEq, Repr

/-- The members of type `char *`, but for `proto_string`. -/
inductive StringField
  | name | url | hostname | username | password
  | proxyHostname | proxyUsername | proxyPassword
  | remoteRootUser | localRootUser | infofile | certfile | clientCert | rshCmd | rcpCmd
  deriving DecidableEq, Repr

inductive ListField
  | excludes | ignores | asciis
  deriving DecidableEq, Repr

/-- What an rcfile sets in `struct site`, for a type of strings and a type of lists. -/
structure Site (S L : Type) where
  settings : Settings
  protoString : S
  strings : StringField → Option S
  lists : ListField → L

abbrev SiteValue := Site Text (List FnPattern)

/-- What a key does to `this_site`. -/
inductive Change
  | plain (f : Settings → Settings)
  /-- `field = ne_strdup(val)` -/
  | string (field : StringField) (val : Text)
  /-- the same if `field` is `NULL` -/
  | stringIfNull (field : StringField) (val : Text)
  /-- `fnlist_prepend` and the pattern -/
  | pattern (list : ListField) (p : FnPattern)
  /-- `proto_string` is freed and set -/
  | protoString (val : Text)

/-! ### The keys -/

/-- The keys with no value. -/
def keyFlag (key : Text) : Option Change :=
  if key = ascii "nodelete" then some (.plain fun s => { s with nodelete := true })
  else if key = ascii "checkmoved" then some (.plain fun s => { s with checkmoved := true })
  else if key = ascii "nooverwrite" then some (.plain fun s => { s with nooverwrite := true })
  else if key = ascii "lowercase" then some (.plain fun s => { s with lowercase := true })
  else if key = ascii "safe" then some (.plain fun s => { s with safemode := true })
  else if key = ascii "tempupload" then some (.plain fun s => { s with tempupload := true })
  else none

/-- `remote` and `local`: a relative name starts with `~/`. -/
def rootChanges (isrel : Bool → Settings → Settings) (field : StringField) (val : Text) :
    Option (List Change) :=
  let root := if val.getLast? = some slash then val else val ++ [slash]
  match val with
  | 126 :: 47 :: _ => some [.plain (isrel true), .string field root]
  | 126 :: _ => none
  | _ => some [.plain (isrel false), .string field root]

/-- `exclude`, `ignore` and `ascii`. -/
def patternOf : Text → FnPattern
  | 47 :: val => ⟨val, true⟩
  | val => ⟨val, false⟩

/-- `strcasecmp(val, name) == 0`, for a name in lower case. -/
def sameName (val name : Text) : Bool := val.map tolower = name

def protocolOf (val : Text) : Protocol :=
  if sameName val (ascii "ftp") then .ftp
  else if sameName val (ascii "http") || sameName val (ascii "dav") ||
      sameName val (ascii "webdav") then .dav
  else if sameName val (ascii "rsh") then .rsh
  else if sameName val (ascii "ssh") then .rsh
  else if sameName val (ascii "sftp") then .sftp
  else .unknown

/-- The keys with a single value, but for `site`. -/
def keyValue (key val : Text) : Option (List Change) :=
  if key = ascii "username" then some [.string .username val]
  else if key = ascii "server" then some [.string .hostname val]
  else if key = ascii "port" then some [.plain fun s => { s with serverPort := atoi val }]
  else if key = ascii "proxy-server" then some [.string .proxyHostname val]
  else if key = ascii "proxy-port" then some [.plain fun s => { s with proxyPort := atoi val }]
  else if key = ascii "proxy-password" then some [.string .proxyPassword val]
  else if key = ascii "proxy-username" then some [.string .proxyUsername val]
  else if key = ascii "password" then some [.string .password val]
  else if key = ascii "url" then some [.string .url val]
  else if key = ascii "remote" then
    rootChanges (fun b s => { s with remoteIsrel := b }) .remoteRootUser val
  else if key = ascii "local" then
    rootChanges (fun b s => { s with localIsrel := b }) .localRootUser val
  else if key = ascii "permissions" then
    if val = ascii "ignore" then
      some [.plain fun s => { s with perms := .ignore, dirperms := false }]
    else if val = ascii "exec" then some [.plain fun s => { s with perms := .exec }]
    else if val = ascii "all" then some [.plain fun s => { s with perms := .all }]
    else if val = ascii "dir" then some [.plain fun s => { s with dirperms := true }]
    else none
  else if key = ascii "symlinks" then
    if val = ascii "follow" then some [.plain fun s => { s with symlinks := .follow }]
    else if val = ascii "maintain" then some [.plain fun s => { s with symlinks := .maintain }]
    else if val = ascii "ignore" then some [.plain fun s => { s with symlinks := .ignore }]
    else none
  else if key = ascii "exclude" then some [.pattern .excludes (patternOf val)]
  else if key = ascii "ignore" then some [.pattern .ignores (patternOf val)]
  else if key = ascii "ascii" then some [.pattern .asciis (patternOf val)]
  else if key = ascii "protocol" then
    some (.plain (fun s => { s with protocol := protocolOf val }) ::
      (if sameName val (ascii "ssh") then
        [.stringIfNull .rshCmd (ascii "ssh"), .stringIfNull .rcpCmd (ascii "scp")]
      else []) ++ [.protoString val])
  else if key = ascii "ftp" then
    if val = ascii "nopasv" then some [.plain fun s => { s with ftpPasvMode := false }]
    else if val = ascii "showquit" then some [.plain fun s => { s with ftpEchoQuit := true }]
    else if val = ascii "usecwd" then some [.plain fun s => { s with ftpUseCwd := true }]
    else if val = ascii "nousecwd" then some [.plain fun s => { s with ftpUseCwd := false }]
    else none
  else if key = ascii "http" then
    if val = ascii "expect" then some [.plain fun s => { s with httpUseExpect := true }]
    else if val = ascii "limit" then some [.plain fun s => { s with httpLimit := true }]
    else if val = ascii "secure" then some [.plain fun s => { s with httpSecure := true }]
    else if val = ascii "tolerant" then some [.plain fun s => { s with httpTolerant := true }]
    else none
  else if key = ascii "client-cert" then some [.string .clientCert val]
  else if key = ascii "rsh" then some [.string .rshCmd val]
  else if key = ascii "rcp" then some [.string .rcpCmd val]
  else if key = ascii "state" then
    if val = ascii "checksum" then some [.plain fun s => { s with stateMethod := .checksum }]
    else if val = ascii "timesize" then some [.plain fun s => { s with stateMethod := .timesize }]
    else none
  else if key = ascii "checkmoved" then
    if val = ascii "renames" then
      some [.plain fun s => { s with checkrenames := true, checkmoved := true }]
    else none
  else if key = ascii "charset" then some []
  else none

/-- What a line is for: the block that it starts, or the changes to make. -/
inductive Line
  | blank
  | default
  | site (name : Text)
  | changes (cs : List Change)
  | corrupt

/-- What a lexed line is when `this_site` is `NULL`, and when it is not. -/
def Lexer.line (l : Lexer) (inBlock : Bool) : Line :=
  if l.key = [] then .blank
  else if l.val = [] then
    if !inBlock then if l.key = ascii "default" then .default else .corrupt
    else match keyFlag l.key with
      | some c => .changes [c]
      | none => .corrupt
  else if l.val2 = [] then
    if l.key = ascii "site" then .site l.val
    else if !inBlock then .corrupt
    else match keyValue l.key l.val with
      | some cs => .changes cs
      | none => .corrupt
  else .corrupt

/-! ### Reading, with sites as values -/

def Change.apply (s : SiteValue) : Change → SiteValue
  | .plain f => { s with settings := f s.settings }
  | .string field val => { s with strings := Function.update s.strings field (some val) }
  | .stringIfNull field val =>
    if s.strings field = none then
      { s with strings := Function.update s.strings field (some val) }
    else s
  | .pattern list p => { s with lists := Function.update s.lists list (p :: s.lists list) }
  | .protoString val => { s with protoString := val }

/-- `default_site` before it is changed. -/
def builtinSite : SiteValue where
  settings := {}
  protoString := ascii "ftp"
  strings _ := none
  lists _ := []

/-- A new site with the settings of `default_site`. -/
def newSite (copypath : Text) (default : SiteValue) (val : Text) : SiteValue :=
  let named := Function.update default.strings .name (some val)
  let stored := Function.update named .infofile (some (copypath ++ val))
  { default with strings := Function.update stored .certfile (some (copypath ++ val ++ ascii ".crt")) }

/-- Where `this_site` points to. -/
inductive ThisSite
  | null
  | default
  | site
  deriving DecidableEq, Repr

structure Reading where
  default : SiteValue := builtinSite
  this : ThisSite := .null
  /-- the sites read so far, the newest first; `this_site` is the first of them -/
  sites : List SiteValue := []

def Reading.change (r : Reading) (cs : List Change) : Reading :=
  match r.this with
  | .null => r
  | .default => { r with default := cs.foldl Change.apply r.default }
  | .site => { r with sites := r.sites.modifyHead (cs.foldl Change.apply) }

/-- The body of the loop of `rcfile_read`; `none` is `RC_CORRUPT`. What a corrupt line has
stored before it is found to be corrupt is left out. -/
def readLine (copypath : Text) (r : Reading) (buf : Text) : Option Reading :=
  match (lexLine buf).line (r.this ≠ .null) with
  | .blank => some r
  | .default => some { r with this := .default }
  | .site name => some { r with this := .site, sites := newSite copypath r.default name :: r.sites }
  | .changes cs => some (r.change cs)
  | .corrupt => none

/-- `rcfile_read` of an rcfile that can be opened. The error is `rcfile_linenum` with
`rcfile_err`. -/
def rcfileRead (copypath content : Text) : Except (ℕ × Text) Reading :=
  throughBuffer newline (LINESIZE - 1) (readLine copypath) {} content

example : ((rcfileRead [] (ascii "site a\n  url \"x y\" # z\n")).toOption.map fun r =>
    r.sites.map fun s => s.strings .url) = some [some (ascii "x y")] := by decide +kernel

end Sitecopy.Rcfile
