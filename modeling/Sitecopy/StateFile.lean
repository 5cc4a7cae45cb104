import Sitecopy.FileSet
import Sitecopy.Numerals
import Sitecopy.Xml

/-!
# The stored state file

`site_write_stored_state` writes one `<item>` for each stored entry.
`site_read_stored_state` feeds the file to an XML parser, whose events reach
`start_element`, `char_data` and `end_element` through neon's element stack. One
accumulator collects the fields of the current item; the end of the item hands its
stored state to `file_set_stored`.
-/
namespace Sitecopy.StateFile
open SiteModel FileSet Numerals

/-- The data models of C for which sitecopy is built; `off_t` is as wide as `long`. -/
inductive DataModel
  | ilp32
  | lp64
  deriving DecidableEq, Repr

def DataModel.longBits : DataModel → ℕ
  | .ilp32 => 32
  | .lp64 => 64

def LONG_MAX (m : DataModel) : ℤ := 2 ^ (m.longBits - 1) - 1
def LONG_MIN (m : DataModel) : ℤ := -2 ^ (m.longBits - 1)
def ULONG_MAX (m : DataModel) : ℕ := 2 ^ m.longBits - 1

/-- Used in `stored.mode` to indicate no mode known. -/
def INVALID_MODE : UInt32 := 0xFFFFFFFF

/-! ### Filenames and checksums -/

def isalnum (c : UInt8) : Bool :=
  (48 ≤ c && c ≤ 57) || (65 ≤ c && c ≤ 90) || (97 ≤ c && c ≤ 122)

def escapeByte (c : UInt8) : Text :=
  if !(isalnum c || c = slash || c = dot || c = 45) || 0x7f < c then 37 :: hexPair c else [c]

/-- `fn_escape`. The source reads past the end of an empty name. -/
def fnEscape (filename : Text) : Text := filename.flatMap escapeByte

/-- The bytes that `fn_unescape` produces. A cut escape sequence, where the source reads
past the end, is kept as it is. -/
def unescapeBytes : Text → Text
  | [] => []
  | c :: rest =>
    if c = 37 then
      match rest with
      | hi :: lo :: rest => hexByte hi lo :: unescapeBytes rest
      | _ => c :: rest
    else c :: unescapeBytes rest

/-- `fn_unescape`: the C string in these bytes. -/
def fnUnescape (filename : Text) : Text := (unescapeBytes filename).takeWhile (· ≠ 0)

/-- `ne_md5_to_ascii`. -/
def md5ToAscii (checksum : Checksum) : Text := checksum.bytes.flatMap hexPair

/-- `NE_ASC2HEX` of a signed `char`. -/
def asciiHex (c : UInt8) : ℕ := if 128 ≤ c then (c - 48).toNat else hexValue c

/-- `ne_ascii_to_md5`. The source reads stale bytes after a text of less than 32. -/
def asciiToMd5 (buffer : Text) : Checksum where
  bytes := (List.range 16).map fun i =>
    UInt8.ofNat (asciiHex (buffer.getD (2 * i) 0) * 16 % 256 |||
      asciiHex (buffer.getD (2 * i + 1) 0) % 256)
  length_eq := by simp

/-! ### Writing -/

def typeName : FileType → Text
  | .file => ascii "file"
  | .dir => ascii "directory"
  | .link => ascii "link"

def methodName : StateMethod → Text
  | .checksum => ascii "checksum"
  | .timesize => ascii "timesize"

def writeType (type : FileType) : Text :=
  ascii "<type><type-" ++ typeName type ++ ascii "/></type>"

def writeName (filename : Option Text) : Text :=
  ascii "<filename>" ++ fnEscape (filename.getD []) ++ ascii "</filename>\n"

/-- The mode in octal, with three digits at least. -/
def writeMode (mode : UInt32) : Text :=
  if mode ≠ INVALID_MODE then
    ascii "<protection>" ++ padZeros 3 (printNat 8 mode.toNat) ++ ascii "</protection>"
  else []

def writeMethod (o : SiteOptions) (s : FileState) : Text :=
  match o.stateMethod with
  | .checksum => ascii "<checksum>" ++ md5ToAscii s.checksum ++ ascii "</checksum>"
  | .timesize => ascii "<modtime>" ++ printInt s.time ++ ascii "</modtime>"

def writeServer (server : FileState) : Text :=
  if server.existing then
    ascii "<server-modtime>" ++ printInt server.time ++ ascii "</server-modtime>"
  else []

/-- What an item holds besides its type, name and mode. -/
def writeFields (o : SiteOptions) (f : SiteFile) : Text :=
  let s := f.storedState
  match f.type with
  | .link => ascii "<linktarget>" ++ s.linktarget.getD [] ++ ascii "</linktarget>"
  | .file =>
    ascii "<size>" ++ printInt s.size ++ ascii "</size>" ++ writeMethod o s ++
      ascii "<ascii>" ++ (if s.ascii then ascii "<true/>" else ascii "<false/>") ++
      ascii "</ascii>" ++ writeServer f.serverState
  | .dir => []

def writeItem (o : SiteOptions) (f : SiteFile) : Text :=
  ascii "<item>" ++ writeType f.type ++ writeName f.storedState.filename ++
    writeMode f.storedState.mode ++ writeFields o f ++ ascii "</item>\n"

def writeOptions (o : SiteOptions) : Text :=
  ascii "<options>\n" ++
  ascii " <saved-by package='sitecopy' version='0.16.3'/>\n" ++
  (if o.stateMethod = .checksum then
    ascii " <checksum-algorithm><checksum-MD5/></checksum-algorithm>\n"
  else []) ++
  ascii " <state-method><state-" ++ methodName o.stateMethod ++ ascii "/></state-method>\n" ++
  (if o.safemode then ascii " <safemode/>\n" else []) ++
  ascii " <escaped-filenames/>\n" ++
  ascii "</options>\n"

/-- The entries that the file records. -/
def storedFiles (site : Site) : List SiteFile := site.files.filter fun f => f.storedState.existing

/-- `site_write_stored_state`: the contents of the file, and the site afterwards. -/
def siteWriteStoredState (site : Site) : Text × Site :=
  (ascii "<?xml version=\"1.0\" encoding=\"ISO-8859-1\"?>\n" ++
    ascii "<sitestate version='1.0'>\n" ++
    writeOptions site.opts ++
    ascii "<items>\n" ++
    (storedFiles site).flatMap (writeItem site.opts) ++
    ascii "</items>\n" ++
    ascii "</sitestate>\n",
   { site with storedStateMethod := site.opts.stateMethod })

/-! ### Reading: the handlers -/

/-- The identifiers `SITE_ELM_*`. -/
inductive Elm
  | sitestate
  | options
  | opt_saved_by
  | opt_checksum
  | opt_checksum_md5
  | opt_state_method
  | opt_state_method_timesize
  | opt_state_method_checksum
  | items
  | item
  | type
  | type_file
  | type_directory
  | type_link
  | filename
  | size
  | modtime
  | ascii
  | linktarget
  | checksum
  | protection
  | server_modtime
  | true
  | false
  deriving DecidableEq, Repr

/-- The names of `elmmap`. -/
def Elm.name : Elm → Text
  | .sitestate => SiteModel.ascii "sitestate"
  | .options => SiteModel.ascii "options"
  | .opt_saved_by => SiteModel.ascii "saved-by"
  | .opt_checksum => SiteModel.ascii "checksum-algorithm"
  | .opt_checksum_md5 => SiteModel.ascii "checksum-MD5"
  | .opt_state_method => SiteModel.ascii "state-method"
  | .opt_state_method_timesize => SiteModel.ascii "state-timesize"
  | .opt_state_method_checksum => SiteModel.ascii "state-checksum"
  | .items => SiteModel.ascii "items"
  | .item => SiteModel.ascii "item"
  | .type => SiteModel.ascii "type"
  | .type_file => SiteModel.ascii "type-file"
  | .type_directory => SiteModel.ascii "type-directory"
  | .type_link => SiteModel.ascii "type-link"
  | .filename => SiteModel.ascii "filename"
  | .size => SiteModel.ascii "size"
  | .modtime => SiteModel.ascii "modtime"
  | .ascii => SiteModel.ascii "ascii"
  | .linktarget => SiteModel.ascii "linktarget"
  | .checksum => SiteModel.ascii "checksum"
  | .protection => SiteModel.ascii "protection"
  | .server_modtime => SiteModel.ascii "server-modtime"
  | .true => SiteModel.ascii "true"
  | .false => SiteModel.ascii "false"

def elmmap : List Elm :=
  [.sitestate, .options, .opt_saved_by, .opt_checksum, .opt_checksum_md5, .opt_state_method,
    .opt_state_method_timesize, .opt_state_method_checksum, .items, .item, .type, .type_file,
    .type_directory, .type_link, .filename, .size, .modtime, .ascii, .linktarget, .checksum,
    .protection, .server_modtime, .true, .false]

/-- `ne_xml_mapid` on `elmmap`. -/
def mapid (name : Text) : Option Elm := elmmap.find? fun e => e.name = name

/-- The field `truth`. -/
inductive Truth
  | invalid
  | yes
  | no
  deriving DecidableEq, Repr

/-- `struct site_xmldoc`. -/
structure XmlDoc where
  site : Site
  type : FileType := .file
  stored : FileState := {}
  server : FileState := {}
  cdata : Text := []
  truth : Truth := .invalid

/-- The errors that `end_element` sets, without the line number. -/
inductive ParseError
  | invalidChecksum
  | booleanMissing
  | sizeOverflow (cdata name : Text)
  deriving DecidableEq, Repr

/-- `start_element`; the state `none` declines the element. -/
def startElement (doc : XmlDoc) (name : Text) : Option Elm × XmlDoc :=
  match mapid name with
  | none => (none, doc)
  | some state =>
    let doc := { doc with cdata := [] }
    let doc := if state = .item then { doc with stored := { mode := INVALID_MODE } } else doc
    let doc := if state = .ascii then { doc with truth := .invalid } else doc
    (some state, doc)

/-- `char_data`. -/
def charData (doc : XmlDoc) (cdata : Text) : XmlDoc := { doc with cdata := doc.cdata ++ cdata }

/-- The `long` in the character data, unless it is at the end of its range. -/
def readTime (m : DataModel) (cdata name : Text) : Except ParseError ℤ :=
  let time := strtol (LONG_MIN m) (LONG_MAX m) 10 cdata
  if time = LONG_MIN m ∨ time = LONG_MAX m then throw (.sizeOverflow cdata name) else pure time

/-- The end of an item. The server state is not reset between items. -/
def endItem (doc : XmlDoc) : XmlDoc :=
  let stored := { doc.stored with existing := true }
  let r := fileSetStored doc.type stored doc.site
  let site := if doc.server.existing then write { r.2 with serverState := doc.server } r.1 else r.1
  { doc with stored := stored, site := site }

/-- `end_element`. -/
def endElement (m : DataModel) (doc : XmlDoc) (state : Option Elm) (name : Text) :
    Except ParseError XmlDoc :=
  let cdata := doc.cdata
  match state with
  | some .opt_state_method_timesize =>
    pure { doc with site := { doc.site with storedStateMethod := .timesize } }
  | some .opt_state_method_checksum =>
    pure { doc with site := { doc.site with storedStateMethod := .checksum } }
  | some .type_file => pure { doc with type := .file }
  | some .type_directory => pure { doc with type := .dir }
  | some .type_link => pure { doc with type := .link }
  | some .filename => pure { doc with stored := { doc.stored with filename := fnUnescape cdata } }
  | some .checksum =>
    if cdata.length > 32 then throw .invalidChecksum
    else pure { doc with stored := { doc.stored with checksum := asciiToMd5 cdata } }
  | some .size =>
    pure { doc with
      stored := { doc.stored with size := strtol (LONG_MIN m) (LONG_MAX m) 10 cdata } }
  | some .protection =>
    pure { doc with
      stored := { doc.stored with mode := UInt32.ofNat (strtoul (ULONG_MAX m) 8 cdata) } }
  | some .server_modtime => do
    let time ← readTime m cdata name
    pure { doc with server := { doc.server with time := time, existing := true } }
  | some .modtime => do
    let time ← readTime m cdata name
    pure { doc with stored := { doc.stored with time := time } }
  | some .true => pure { doc with truth := .yes }
  | some .false => pure { doc with truth := .no }
  | some .ascii =>
    if doc.truth = .invalid then throw .booleanMissing
    else pure { doc with stored := { doc.stored with ascii := doc.truth = .yes } }
  | some .linktarget => pure { doc with stored := { doc.stored with linktarget := cdata } }
  | some .item => pure (endItem doc)
  | _ => pure doc

/-! ### Reading: neon's element stack -/

/-- `struct ne_xml_parser_s`, with the one handler of the storage file. The states of the
open elements stand innermost first, above the root. -/
structure NeonParser where
  doc : XmlDoc
  stack : List (Option Elm) := []
  /-- the depth within a declined element -/
  prune : ℕ := 0
  failure : Option ParseError := none

def neStartElement (p : NeonParser) (name : Text) : NeonParser :=
  if p.failure.isSome then p
  else if p.prune > 0 then { p with prune := p.prune + 1 }
  else
    let r := startElement p.doc name
    match r.1 with
    | some state => { p with doc := r.2, stack := some state :: p.stack }
    | none => { p with doc := r.2, stack := none :: p.stack, prune := 1 }

def neCharData (p : NeonParser) (cdata : Text) : NeonParser :=
  if p.failure.isSome ∨ p.prune > 0 then p else { p with doc := charData p.doc cdata }

def neEndElement (m : DataModel) (p : NeonParser) (name : Text) : NeonParser :=
  if p.failure.isSome then p
  else if p.prune > 1 then { p with prune := p.prune - 1 }
  else if p.prune = 1 then { p with stack := p.stack.tail, prune := 0 }
  else match endElement m p.doc (p.stack.head?.getD none) name with
    | .ok doc => { p with doc := doc, stack := p.stack.tail }
    | .error e => { p with failure := some e, stack := p.stack.tail }

def neEvent (m : DataModel) (p : NeonParser) : Xml.Event → NeonParser
  | .startElement name _ => neStartElement p name
  | .charData t => neCharData p t
  | .endElement name => neEndElement m p name

/-- What reading leaves: the site, the return code, and the last error. -/
structure ReadResult where
  site : Site
  ret : ℤ
  lastError : Option (Option ParseError) := none

/-- `parse_storage_file`. It returns 1 when the whole file was parsed; an error of the XML
parser itself is `some none`. -/
def parseStorageFile (P : Xml.Parser) (m : DataModel) (file : Text) (site : Site) : ReadResult :=
  let r := P.parse file
  let p := r.1.foldl (neEvent m) { doc := { site := site } }
  match p.failure with
  | some e => { site := p.doc.site, ret := SITE_ERRORS, lastError := some (some e) }
  | none =>
    if r.2 then { site := p.doc.site, ret := 1 }
    else { site := p.doc.site, ret := SITE_ERRORS, lastError := some none }

end Sitecopy.StateFile
