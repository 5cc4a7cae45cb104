import Sitecopy.FtpTransfer

/-!
# Parsing the output of `ls`

The parser that the FTP, rsh and sftp drivers share. It takes a listing line by line; a
line names a directory, describes an entry of the directory named last, says nothing of
interest, or cannot be parsed.
-/
namespace Sitecopy.LsParser
open SiteModel SiteOperations Numerals FtpTransfer

def blank : UInt8 := 32
def colon : UInt8 := 58

/-! ### Strings -/

/-- `ne_shave`. -/
def neShave (whitespace str : Text) : Text :=
  ((str.dropWhile (· ∈ whitespace)).reverse.dropWhile (· ∈ whitespace)).reverse

/-- `ne_token`, with what the pointer is set to: nothing where the separator is missing. -/
def neToken (str : Text) (separator : UInt8) : Text × Option Text :=
  (str.takeWhile (· ≠ separator),
    if separator ∈ str then some ((str.dropWhile (· ≠ separator)).drop 1) else none)

def skipField (line : Text) : Text := (line.dropWhile (· ≠ blank)).dropWhile (· = blank)

/-- The loop `while (*line++ == ' ')`, which also skips the byte that ends it. -/
def skipBlanks (line : Text) : Text := (line.dropWhile (· = blank)).drop 1

def isalpha (c : UInt8) : Bool := (65 ≤ c && c ≤ 90) || (97 ≤ c && c ≤ 122)

/-- Drop a prefix, where there is one. -/
def dropPrefix (pre t : Text) : Text := if pre.isPrefixOf t then t.drop pre.length else t

/-! ### The parser -/

/-- `struct ls_context`. -/
structure LsContext where
  afterBlank : Bool := false
  topdir : Text
  curdir : Text := []
  error : Option Text := none
  deriving DecidableEq, Repr

/-- `ls_init`. -/
def lsInit (dir : Text) : LsContext where
  topdir := if dir.getLast? = some slash then dir.dropLast else dir

/-- The directory that a header line names, with a slash after it. -/
def headerDir (topdir line : Text) : Text :=
  -- a leading Windows drive specification
  let line :=
    if 3 < line.length ∧ isalpha (line.getD 0 0) ∧ line.getD 1 0 = colon ∧ line.getD 2 0 = slash
    then line.drop 2 else line
  let line := dropPrefix topdir line
  -- a single . of .:
  let line := if line = [dot, colon] then line.drop 1 else line
  let line := dropPrefix [dot, slash] line
  let line := line.dropWhile (· = slash)
  if 1 < line.length then line.dropLast ++ [slash] else []

def parseDirectory (ctx : LsContext) (line : Text) : LsContext × LsResult :=
  ({ ctx with curdir := headerDir ctx.topdir line }, .nothing)

def parsePermissions (perms : Text) : UInt32 :=
  (perms.foldl (fun (ret : UInt32) c => ret <<< 1 ||| (if c ≠ 45 then 1 else 0)) 0) &&& 0o777

/-- The permissions, the size and the name in a line for an entry. -/
structure EntryLine where
  perms : Text
  size : Text
  name : Text
  deriving DecidableEq, Repr

/-- The first part of `parse_file`, with the text of its error. -/
def splitEntry (line : Text) : Except Text EntryLine :=
  let (perms, rest) := neToken line blank
  match rest with
  | none => .error (ascii "Missing token at beginning of line")
  | some line =>
    -- inode, user and group fields
    let line := skipField (skipField (skipField (skipBlanks line)))
    if line = [] then .error (ascii "Missing token in inode/user/group fields")
    else
      let (size, rest) := neToken line blank
      match rest with
      | none => .error (ascii "Missing token after inode/user/group fields")
      | some line =>
        -- Month, day, time fields
        let name := skipField (skipField (skipField (skipBlanks line)))
        if name = [] then .error (ascii "Missing token after timestamp field")
        else .ok { perms, size, name }

/-- The second part of `parse_file`. -/
def parseEntry (curdir : Text) (e : EntryLine) : Except Text LsResult :=
  let kind := e.perms.getD 0 0
  if kind ≠ 45 ∧ kind ≠ 100 then .ok .nothing
  else if slash ∈ e.name then .error (ascii "Relative filename disallowed")
  else if kind = 45 then
    .ok (.file (curdir ++ e.name) (parsePermissions e.perms)
      (strtol (-2 ^ 63) (2 ^ 63 - 1) 10 e.size))
  else if e.name = [dot] ∨ e.name = [dot, dot] then .ok .nothing
  else .ok (.directory (curdir ++ e.name) (parsePermissions e.perms))

/-- `parse_file`. -/
def parseFile (ctx : LsContext) (line : Text) : LsContext × LsResult :=
  match splitEntry line >>= parseEntry ctx.curdir with
  | .error errstr => ({ ctx with error := some errstr }, .error)
  | .ok r => (ctx, r)

/-- `ls_parse`. -/
def lsParse (ctx : LsContext) (line : Text) : LsContext × LsResult :=
  let line := neShave [13, 10, 9, 32] line
  if line = [] then ({ ctx with afterBlank := true }, .nothing)
  else
    -- cleared before it is looked at
    let ctx := { ctx with afterBlank := false }
    if (ascii "total ").isPrefixOf line then (ctx, .nothing)
    else if line.getLast? = some colon ∧ (ctx.afterBlank ∨ blank ∉ line) then
      parseDirectory ctx line
    else parseFile ctx line

/-- The parser as the drivers use it. -/
def lsParser : LsParser LsContext where
  init := lsInit
  parse := lsParse

/-- What `ls_parse` returns for the lines of a listing, one after another. -/
def lsResults : LsContext → List Text → List LsResult
  | _, [] => []
  | ctx, line :: rest => (lsParse ctx line).2 :: lsResults (lsParse ctx line).1 rest

/-- Some line of the listing of a directory cannot be parsed. -/
def Unparsable (dir : Text) (lines : List Text) : Prop := LsResult.error ∈ lsResults (lsInit dir) lines

instance (dir : Text) (lines : List Text) : Decidable (Unparsable dir lines) :=
  inferInstanceAs (Decidable (_ ∈ _))

/-! ### The names of entries -/

/-- The directory and the fields of a line that describes a file or a directory. -/
def lineEntry (ctx : LsContext) (line : Text) : Option (Text × EntryLine) :=
  match (lsParse ctx line).2, splitEntry (neShave [13, 10, 9, 32] line) with
  | .file _ _ _, .ok e | .directory _ _, .ok e => some (ctx.curdir, e)
  | _, _ => none

/-- The entries that a listing describes. -/
def lsEntries : LsContext → List Text → List (Text × EntryLine)
  | _, [] => []
  | ctx, line :: rest => (lineEntry ctx line).toList ++ lsEntries (lsParse ctx line).1 rest

/-- The type and name of the entry that a line describes. -/
def resultKey : LsResult → Option (ProtoFiletype × Text)
  | .file name _ _ => some (.file, name)
  | .directory name _ => some (.dir, name)
  | .nothing | .error => none

/-- A directory in a header is empty or a relative path with a slash after it. -/
def HeaderDir (d : Text) : Prop := d = [] ∨ ∃ h, d = h ++ [slash] ∧ h ≠ [] ∧ h.head? ≠ some slash

lemma head?_trimmed (t : Text) : (t.dropWhile (· = slash)).head? ≠ some slash := by
  intro h
  have hdrop := List.head?_dropWhile_not (fun c => decide (c = slash)) t
  rw [h] at hdrop
  simp at hdrop

lemma headerDir_spec (topdir line : Text) : HeaderDir (headerDir topdir line) := by
  have htrim : ∀ t : Text, HeaderDir (if 1 < (t.dropWhile (· = slash)).length then
      (t.dropWhile (· = slash)).dropLast ++ [slash] else []) := by
    intro t
    have hhead := head?_trimmed t
    generalize t.dropWhile (· = slash) = line at hhead ⊢
    split_ifs with hlen
    · match line, hlen with
      | a :: b :: rest, _ => exact Or.inr ⟨_, rfl, by simp, by simpa using hhead⟩
    · exact Or.inl rfl
  exact htrim _

/-- The fields of a line that can be taken apart. -/
lemma splitEntry_name {line : Text} {e : EntryLine} (h : splitEntry line = .ok e) : e.name ≠ [] := by
  unfold splitEntry at h
  dsimp only at h
  split at h
  · cases h
  · split_ifs at h
    split at h
    · cases h
    · split_ifs at h with hname
      cases h
      exact hname

/-- What a line for an entry says, and what the parser makes of it. -/
structure ReadsAs (curdir : Text) (e : EntryLine) (r : LsResult) : Prop where
  nonempty : e.name ≠ []
  plain : slash ∉ e.name
  key : ∃ type, resultKey r = some (type, curdir ++ e.name) ∧
    (type = .dir → e.name ≠ [dot] ∧ e.name ≠ [dot, dot])

lemma parseEntry_readsAs {curdir : Text} {e : EntryLine} {r : LsResult} (hname : e.name ≠ [])
    (h : parseEntry curdir e = .ok r) (hr : resultKey r ≠ none) : ReadsAs curdir e r := by
  unfold parseEntry at h
  dsimp only at h
  split_ifs at h with hkind hslash hfile hdots <;> cases h
  · exact absurd rfl hr
  · exact ⟨hname, hslash, .file, rfl, by simp⟩
  · exact absurd rfl hr
  · exact ⟨hname, hslash, .dir, rfl, fun _ => not_or.mp hdots⟩

lemma lsParse_result (ctx : LsContext) (line : Text) : (lsParse ctx line).2 = .nothing ∨
    (lsParse ctx line).2 =
      (parseFile { ctx with afterBlank := false } (neShave [13, 10, 9, 32] line)).2 := by
  unfold lsParse
  dsimp only
  split_ifs
  · exact Or.inl rfl
  · exact Or.inl rfl
  · exact Or.inl rfl
  · exact Or.inr rfl

lemma parseFile_result (ctx : LsContext) (line : Text) : (parseFile ctx line).2 = .error ∨
    ∃ e r, splitEntry line = .ok e ∧ parseEntry ctx.curdir e = .ok r ∧
      (parseFile ctx line).2 = r := by
  unfold parseFile
  cases he : splitEntry line with
  | error errstr => exact Or.inl rfl
  | ok e =>
    have hbind : (Except.ok e >>= parseEntry ctx.curdir) = parseEntry ctx.curdir e := rfl
    rw [hbind]
    cases hp : parseEntry ctx.curdir e with
    | error errstr => exact Or.inl rfl
    | ok r => exact Or.inr ⟨e, r, rfl, hp, rfl⟩

/-- A line describes an entry exactly when the parser returns one. -/
lemma lineEntry_spec (ctx : LsContext) (line : Text) :
    (resultKey (lsParse ctx line).2 = none ∧ lineEntry ctx line = none) ∨
      ∃ e, lineEntry ctx line = some (ctx.curdir, e) ∧
        ReadsAs ctx.curdir e (lsParse ctx line).2 := by
  unfold lineEntry
  rcases lsParse_result ctx line with hr | hr <;> rw [hr]
  · exact Or.inl ⟨rfl, rfl⟩
  · rcases parseFile_result { ctx with afterBlank := false } (neShave [13, 10, 9, 32] line)
      with hf | ⟨e, r, he, hp, hf⟩ <;> rw [hf]
    · exact Or.inl ⟨rfl, rfl⟩
    · rw [he]
      cases r with
      | nothing => exact Or.inl ⟨rfl, rfl⟩
      | error => exact Or.inl ⟨rfl, rfl⟩
      | file name mode size =>
        exact Or.inr ⟨e, rfl, parseEntry_readsAs (splitEntry_name he) hp (by simp [resultKey])⟩
      | directory name mode =>
        exact Or.inr ⟨e, rfl, parseEntry_readsAs (splitEntry_name he) hp (by simp [resultKey])⟩

/-- The directory of the context stays that of a header. -/
lemma lsParse_headerDir {ctx : LsContext} (h : HeaderDir ctx.curdir) (line : Text) :
    HeaderDir (lsParse ctx line).1.curdir := by
  unfold lsParse
  dsimp only
  split_ifs
  · exact h
  · exact h
  · exact headerDir_spec _ _
  · unfold parseFile
    split <;> exact h

end Sitecopy.LsParser
