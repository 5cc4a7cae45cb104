import Sitecopy.FetchedNames

/-!
# Listings over WebDAV

neon reads the answer to a `PROPFIND` and calls the driver for every resource. The driver
takes over those whose path continues the path of the directory, but of the files only the
ones with a length and a time.
-/
namespace Sitecopy.DavListing
open SiteModel SiteOperations Numerals LsParser
open FetchedNames (nePathChildof atoi Response)

/-! ### The answer of the server -/

/-- `ne_status`. -/
structure Status where
  klass : ℕ
  reasonPhrase : Text
  deriving DecidableEq, Repr

/-- An element inside of `DAV:prop`, with the names of its children and its flat value. -/
structure PropElement where
  nspace : Text
  name : Text
  children : List (Text × Text) := []
  value : Text := []
  deriving DecidableEq, Repr

/-- A `DAV:propstat`. -/
structure Propstat where
  elements : List PropElement
  status : Option Status := none
  deriving DecidableEq, Repr

/-- A `DAV:response`, with the path of its URI. -/
structure DavResponse where
  path : Text
  propstats : List Propstat
  deriving DecidableEq, Repr

/-! ### Which resources are collections -/

/-- The states of the parser that `start_element` tells apart; `decline` stands for all others. -/
inductive ElementState
  | prop
  | resourcetype
  | collection
  | decline
  deriving DecidableEq, Repr

/-- `ne_xml_mapid` with `fetch_elms`. -/
def mapid (nspace name : Text) : ElementState :=
  if nspace ≠ ascii "DAV:" then .decline
  else if name = ascii "resourcetype" then .resourcetype
  else if name = ascii "collection" then .collection
  else .decline

/-- `start_element` on `priv->iscollection`. -/
def startElement (iscollection : Bool) (parent : ElementState) (nspace name : Text) :
    ElementState × Bool :=
  let state := mapid nspace name
  if parent = .prop ∧ state = .resourcetype then (.resourcetype, iscollection)
  else if parent = .resourcetype ∧ state = .collection then (.decline, true)
  else (.decline, iscollection)

/-- An element and its children, which the same handler sees if it has accepted the element. -/
def readElement (iscollection : Bool) (e : PropElement) : Bool :=
  let r := startElement iscollection .prop e.nspace e.name
  if r.1 = .decline then r.2
  else e.children.foldl (fun coll c => (startElement coll r.1 c.1 c.2).2) r.2

/-- `private->iscollection` at the end of a response. -/
def DavResponse.iscollection (r : DavResponse) : Bool :=
  (r.propstats.flatMap Propstat.elements).foldl readElement false

/-! ### Properties -/

/-- `struct prop`. The value is wiped in a propstat with a status that is not 2xx. -/
structure Property where
  nspace : Text
  name : Text
  value : Option Text
  deriving DecidableEq, Repr

/-- The flat properties of a propstat: the elements that `start_element` declines. -/
def Propstat.props (p : Propstat) : List Property :=
  (p.elements.filter fun e => (startElement false .prop e.nspace e.name).1 = .decline).map fun e =>
    { nspace := e.nspace
      name := e.name
      value := if (p.status.map Status.klass).getD 2 ≠ 2 then none else some e.value }

/-- The names in `props`. -/
abbrev Propname := Text × Text

def getcontentlength : Propname := (ascii "DAV:", ascii "getcontentlength")
def getlastmodified : Propname := (ascii "DAV:", ascii "getlastmodified")
def executable : Propname := (ascii "http://apache.org/dav/props/", ascii "executable")

/-- `findprop`: the first property of the name. -/
def findprop (set : List Propstat) (pname : Propname) : Option (Propstat × Property) :=
  (set.flatMap fun p => p.props.map fun prop => (p, prop)).find? fun r =>
    r.2.nspace = pname.1 && r.2.name = pname.2

/-- `ne_propset_value`. -/
def nePropsetValue (set : List Propstat) (pname : Propname) : Option Text :=
  (findprop set pname).bind fun r => r.2.value

/-- The reason phrase of `ne_propset_status`. -/
def nePropsetReason (set : List Propstat) (pname : Propname) : Option Text :=
  (findprop set pname).bind fun r => r.1.status.map Status.reasonPhrase

/-! ### Paths -/

def isXdigit (c : UInt8) : Bool :=
  (48 ≤ c && c ≤ 57) || (65 ≤ c && c ≤ 70) || (97 ≤ c && c ≤ 102)

/-- The bytes that `ne_path_unescape` writes. -/
def unescapeBytes : Text → Option Text
  | [] => some []
  | c :: t =>
    if c = 37 then
      match t with
      | hi :: lo :: t =>
        if isXdigit hi && isXdigit lo then
          (unescapeBytes t).map fun u => hexByte hi lo :: u
        else none
      | _ => none
    else (unescapeBytes t).map fun u => c :: u

/-- `ne_path_unescape`, whose result is a string and ends at the first null byte. -/
def nePathUnescape (uri : Text) : Option Text := (unescapeBytes uri).map (List.takeWhile (· ≠ 0))

/-! ### The driver -/

/-- A call of `fe_warning`. -/
structure Warning where
  descr : Text
  reason : Text
  err : Option Text
  deriving DecidableEq, Repr

/-- `struct fetch_context` with the list that it points to, whether its tail is set, and the
warnings. -/
structure FetchContext where
  files : List ProtoFile := []
  tail : Bool := false
  warnings : List Warning := []
  deriving DecidableEq, Repr

def insertFile (ctx : FetchContext) (file : ProtoFile) : FetchContext :=
  { ctx with files := if ctx.tail then ctx.files ++ [file] else [file], tail := true }

def hasTrailingSlash (t : Text) : Bool := t.getLast? = some slash

/-- `pfind_results`; `parseDate` is `ne_httpdate_parse`. There is no result where a null
pointer is followed. -/
def pfindResults (parseDate : Text → ℤ) (root : Text) (ctx : FetchContext) (r : DavResponse) :
    Option FetchContext :=
  let iscoll := r.iscollection
  match nePathUnescape r.path with
  | none => none
  | some uhref =>
    if !nePathChildof root uhref then some ctx
    else
      let filename := uhref.drop root.length
      if iscoll then
        let filename := if hasTrailingSlash filename then filename.dropLast else filename
        some (insertFile ctx { filename, type := .dir })
      else
        let isexec := nePropsetValue r.propstats executable
        match nePropsetValue r.propstats getcontentlength,
            nePropsetValue r.propstats getlastmodified with
        | some clength, some modtime =>
          let exec := isexec.map (List.map tolower) = some (ascii "t")
          some (insertFile ctx
            { filename, type := .file, size := atoi clength, modtime := parseDate modtime
              mode := if exec then 0o755 else 0o644 })
        | _, none => some { ctx with warnings := ctx.warnings ++
            [⟨ascii "Could not access resource", uhref,
              nePropsetReason r.propstats getlastmodified⟩] }
        | none, some _ => some { ctx with warnings := ctx.warnings ++
            [⟨ascii "Could not access resource", uhref,
              nePropsetReason r.propstats getcontentlength⟩] }

/-- The results of a request. -/
inductive NeResult
  | ok
  | error
  | lookup
  | auth
  | proxyauth
  | connect
  | timeout
  | failed
  /-- any other -/
  | other
  deriving DecidableEq, Repr

/-- `h2s`. -/
def h2s : NeResult → ℤ
  | .ok => SITE_OK
  | .auth => SITE_AUTH
  | .proxyauth => SITE_PROXYAUTH
  | .failed => SITE_FAILED
  | .connect => SITE_CONNECT
  | .lookup => SITE_LOOKUP
  | .timeout | .error | .other => SITE_ERRORS

/-- What `ne_propfind_named` does: the responses that it hands over, and its result. -/
structure Propfind where
  responses : List DavResponse
  ret : NeResult

/-- `fetch_list`, with the list that its caller passes. -/
def fetchList (parseDate : Text → ℤ) (dirname : Text) (server : Propfind)
    (files : List ProtoFile) : Option (ℤ × FetchContext) :=
  (server.responses.foldlM (pfindResults parseDate dirname) { files }).map fun ctx =>
    (h2s server.ret, ctx)

/-! ### What is to be taken over -/

/-- `uhref` continues the path of the directory, up to the case of letters. -/
def Below (root uhref : Text) : Prop :=
  ∃ d rest, uhref = d ++ rest ∧ rest ≠ [] ∧ d.map tolower = root.map tolower

lemma childof_iff {root uhref : Text} : nePathChildof root uhref = true ↔ Below root uhref := by
  simp only [nePathChildof, decide_eq_true_eq, Bool.decide_and, Bool.and_eq_true]
  constructor
  · rintro ⟨hlen, hcase⟩
    refine ⟨uhref.take root.length, uhref.drop root.length, (List.take_append_drop _ _).symm, ?_, hcase⟩
    simpa [List.drop_eq_nil_iff] using hlen
  · rintro ⟨d, rest, rfl, hne, hcase⟩
    have hlen : d.length = root.length := by simpa using congrArg List.length hcase
    have hpos := List.length_pos_of_ne_nil hne
    rw [← hlen, List.take_left, List.length_append]
    exact ⟨by omega, hcase⟩

instance (root uhref : Text) : Decidable (Below root uhref) := decidable_of_iff _ childof_iff

namespace DavResponse

def clength (r : DavResponse) : Option Text := nePropsetValue r.propstats getcontentlength
def modtime (r : DavResponse) : Option Text := nePropsetValue r.propstats getlastmodified
def isexec (r : DavResponse) : Option Text := nePropsetValue r.propstats executable

/-- The decoded path. -/
def uhref (r : DavResponse) : Text := (nePathUnescape r.path).getD []

/-- A collection, or a file whose length and time the server tells. -/
def Known (r : DavResponse) : Prop :=
  r.iscollection = true ∨ r.clength.isSome = true ∧ r.modtime.isSome = true

instance (r : DavResponse) : Decidable r.Known := inferInstanceAs (Decidable (_ ∨ _))

/-- The response as the model of the fetched names has it. -/
def response (r : DavResponse) : Response where
  uhref := r.uhref
  iscollection := r.iscollection
  clength := r.clength
  modtime := r.modtime
  isexec := r.isexec

end DavResponse

/-- The warning about a file that is left out. -/
def warningOf (r : DavResponse) : Warning where
  descr := ascii "Could not access resource"
  reason := r.uhref
  err := nePropsetReason r.propstats (if r.modtime = none then getlastmodified else getcontentlength)

/-- The entry for a response below the directory. -/
structure IsEntry (root : Text) (r : DavResponse) (f : ProtoFile) : Prop where
  type : f.type = .dir ↔ r.iscollection = true
  /-- the rest of the path, of a collection without a slash at its end -/
  name : ∃ d rest, r.uhref = d ++ rest ∧ d.map tolower = root.map tolower ∧
    f.filename = if r.iscollection = true ∧ hasTrailingSlash rest = true then rest.dropLast else rest
  size : r.iscollection = false → ∀ t, r.clength = some t → t ≠ [] →
    (∀ c ∈ t, isDigit 10 c = true) → scanDigits 10 t < 2 ^ 31 → f.size = scanDigits 10 t
  mode : r.iscollection = false →
    f.mode = if r.isexec.map (List.map tolower) = some (ascii "t") then 0o755 else 0o644

/-! ### What is taken over -/

variable {parseDate : Text → ℤ} {root : Text} {ctx ctx' : FetchContext} {r : DavResponse}

/-- The file of a response, as the model of the fetched names has it. -/
def taken (parseDate : Text → ℤ) (root : Text) (r : DavResponse) : Option ProtoFile :=
  FetchedNames.pfindResults parseDate root r.response

lemma atoi_digits {t : Text} (hne : t ≠ []) (h : ∀ c ∈ t, isDigit 10 c = true)
    (hsmall : scanDigits 10 t < 2 ^ 31) : atoi t = scanDigits 10 t := by
  cases t with
  | nil => exact absurd rfl hne
  | cons c t =>
    have hscan := scanSigned_digit (b := 10) (t := t) (h c List.mem_cons_self)
    have hlong : strtol (-2 ^ 63) (2 ^ 63 - 1) 10 (c :: t) = scanDigits 10 (c :: t) := by
      unfold strtol
      simp only [hscan, Bool.false_eq_true, ↓reduceIte]
      rw [if_neg (by omega), if_neg (by omega)]
    rw [atoi, hlong, Int.bmod_eq_of_le (by omega) (by omega)]

lemma taken_isSome : (taken parseDate root r).isSome = true ↔ Below root r.uhref ∧ r.Known := by
  rw [← childof_iff]
  unfold taken FetchedNames.pfindResults DavResponse.Known
  simp only [DavResponse.response]
  by_cases hchild : nePathChildof root r.uhref = true
  · by_cases hcoll : r.iscollection = true
    · simp [hchild, hcoll]
    · cases hlength : r.clength <;> cases htime : r.modtime <;> simp [hchild, hcoll]
  · simp [hchild]

lemma taken_isEntry {f : ProtoFile} (h : taken parseDate root r = some f) : IsEntry root r f := by
  have hbelow : Below root r.uhref := (taken_isSome.mp (by rw [h]; rfl)).1
  have hchild := childof_iff.mpr hbelow
  obtain ⟨d, rest, huhref, -, hcase⟩ := hbelow
  have hlen : d.length = root.length := by simpa using congrArg List.length hcase
  have hrest : r.uhref.drop root.length = rest := by rw [huhref, ← hlen, List.drop_left]
  unfold taken FetchedNames.pfindResults at h
  simp only [DavResponse.response, hchild, hrest, Bool.not_true, Bool.false_eq_true,
    ↓reduceIte] at h
  cases hcoll : r.iscollection with
  | true =>
    simp only [hcoll, ↓reduceIte, Option.some.injEq] at h
    subst h
    refine ⟨by simp [hcoll], ⟨d, rest, huhref, hcase, ?_⟩, by simp [hcoll], by simp [hcoll]⟩
    simp [hcoll, hasTrailingSlash]
  | false =>
    simp only [hcoll, Bool.false_eq_true, ↓reduceIte] at h
    cases hlength : r.clength with
    | none => simp [hlength] at h
    | some clength =>
      cases htime : r.modtime with
      | none => simp [hlength, htime] at h
      | some modtime =>
        simp only [hlength, htime, Option.some.injEq] at h
        subst h
        refine ⟨by simp [hcoll], ⟨d, rest, huhref, hcase, by simp [hcoll]⟩, ?_, fun _ => rfl⟩
        intro _ t ht hne hdigits hsmall
        obtain rfl := Option.some.inj (hlength.symm.trans ht)
        exact atoi_digits hne hdigits hsmall

/-- The tail is set as soon as there are files. -/
def FetchContext.Linked (ctx : FetchContext) : Prop := ctx.tail = false → ctx.files = []

lemma insertFile_files (h : ctx.Linked) (f : ProtoFile) :
    (insertFile ctx f).files = ctx.files ++ [f] := by
  cases ht : ctx.tail with
  | true => simp [insertFile, ht]
  | false => simp [insertFile, ht, h ht]

/-- The files below the directory that are left out. -/
def LeftOut (root : Text) (r : DavResponse) : Prop := Below root r.uhref ∧ ¬ r.Known

instance (root : Text) (r : DavResponse) : Decidable (LeftOut root r) :=
  inferInstanceAs (Decidable (_ ∧ _))

/-- One call: a file at the end of the list, or a warning, or nothing. -/
def takeOver (parseDate : Text → ℤ) (root : Text) (ctx : FetchContext) (r : DavResponse) :
    FetchContext :=
  match taken parseDate root r with
  | some f => insertFile ctx f
  | none => if LeftOut root r then { ctx with warnings := ctx.warnings ++ [warningOf r] } else ctx

lemma pfindResults_eq {uhref : Text} (hpath : nePathUnescape r.path = some uhref) :
    pfindResults parseDate root ctx r = some (takeOver parseDate root ctx r) := by
  have huhref : uhref = r.uhref := by rw [DavResponse.uhref, hpath]; rfl
  have hout : LeftOut root r ↔ nePathChildof root r.uhref = true ∧ ¬ r.Known := by
    rw [childof_iff]
    rfl
  have hlength : nePropsetValue r.propstats getcontentlength = r.clength := rfl
  have htime : nePropsetValue r.propstats getlastmodified = r.modtime := rfl
  have hexec : nePropsetValue r.propstats executable = r.isexec := rfl
  unfold pfindResults takeOver taken FetchedNames.pfindResults
  simp only [hpath, huhref, hout, hlength, htime, hexec, DavResponse.response]
  by_cases hchild : nePathChildof root r.uhref = true
  · by_cases hcoll : r.iscollection = true
    · simp only [hchild, hcoll, hasTrailingSlash, Bool.not_true, Bool.false_eq_true, ↓reduceIte,
        decide_eq_true_eq]
      congr
    · cases hl : r.clength with
      | none => cases ht : r.modtime <;> simp [hchild, hcoll, hl, ht, warningOf, DavResponse.Known]
      | some clength =>
        cases ht : r.modtime <;> simp [hchild, hcoll, hl, ht, warningOf, DavResponse.Known]
  · simp [hchild]

lemma takeOver_step (parseDate : Text → ℤ) (root : Text) (r : DavResponse) (hlinked : ctx.Linked) :
    (takeOver parseDate root ctx r).Linked ∧
      (takeOver parseDate root ctx r).files = ctx.files ++ (taken parseDate root r).toList ∧
      (takeOver parseDate root ctx r).warnings =
        ctx.warnings ++ if LeftOut root r then [warningOf r] else [] := by
  unfold takeOver
  cases htaken : taken parseDate root r with
  | some f =>
    have hknown := (taken_isSome.mp (by rw [htaken]; rfl)).2
    have hin : ¬ LeftOut root r := fun hout => hout.2 hknown
    refine ⟨by simp [FetchContext.Linked, insertFile], insertFile_files hlinked f, ?_⟩
    simp [insertFile, hin]
  | none =>
    split_ifs with hout
    · exact ⟨hlinked, (List.append_nil _).symm, rfl⟩
    · exact ⟨hlinked, (List.append_nil _).symm, (List.append_nil _).symm⟩

/-- The calls for a sequence of responses. -/
lemma pfindResults_run {responses : List DavResponse} (hlinked : ctx.Linked)
    (h : responses.foldlM (pfindResults parseDate root) ctx = some ctx') :
    ctx'.files = ctx.files ++ responses.filterMap (taken parseDate root) ∧
      ctx'.warnings = ctx.warnings ++ (responses.filter (LeftOut root)).map warningOf := by
  induction responses generalizing ctx with
  | nil =>
    obtain rfl := Option.some.inj h
    simp
  | cons r responses ih =>
    rw [List.foldlM_cons] at h
    cases hpath : nePathUnescape r.path with
    | none => simp [pfindResults, hpath] at h
    | some uhref =>
      rw [pfindResults_eq hpath] at h
      obtain ⟨hnext, hfiles, hwarnings⟩ := takeOver_step parseDate root r hlinked
      obtain ⟨hfiles', hwarnings'⟩ := ih hnext h
      constructor
      · rw [hfiles', hfiles, List.append_assoc, List.filterMap_cons]
        cases taken parseDate root r <;> rfl
      · rw [hwarnings', hwarnings, List.append_assoc, List.filter_cons]
        split_ifs <;> simp_all

/-- A listing returns if all paths can be decoded, and only then. -/
theorem fetchList_isSome {server : Propfind} {files : List ProtoFile} :
    (fetchList parseDate root server files).isSome = true ↔
      ∀ r ∈ server.responses, (nePathUnescape r.path).isSome = true := by
  unfold fetchList
  rw [Option.isSome_map]
  generalize ({ files } : FetchContext) = ctx
  induction server.responses generalizing ctx with
  | nil => simp
  | cons r responses ih =>
    rw [List.foldlM_cons, List.forall_mem_cons]
    cases hpath : nePathUnescape r.path with
    | none => simp [pfindResults, hpath]
    | some uhref =>
      rw [pfindResults_eq hpath]
      simpa using ih _

/-- The list is the one that the model of the fetched names starts from. -/
theorem fetchList_wire {server : Propfind} {ret : ℤ}
    (h : fetchList parseDate root server [] = some (ret, ctx)) :
    ctx.files = FetchedNames.wireFiles parseDate root
      (.propfind (server.responses.map DavResponse.response)) := by
  obtain ⟨ctx', hrun, heq⟩ := Option.map_eq_some_iff.mp h
  obtain ⟨_, rfl⟩ := Prod.mk.inj heq
  have hfiles := (pfindResults_run (fun _ => rfl) hrun).1
  rw [hfiles, FetchedNames.wireFiles, List.filterMap_map]
  rfl

lemma forall₂_filterMap {α β : Type} {R : α → β → Prop} {p : α → Prop} [DecidablePred p]
    {g : α → Option β} (hp : ∀ a, (g a).isSome = true ↔ p a) (hR : ∀ a b, g a = some b → R a b)
    (l : List α) : List.Forall₂ R (l.filter p) (l.filterMap g) := by
  induction l with
  | nil => exact List.Forall₂.nil
  | cons a l ih =>
    have ha := hp a
    rw [List.filter_cons, List.filterMap_cons]
    cases hg : g a with
    | none =>
      rw [hg] at ha
      rw [if_neg (by simpa using ha)]
      exact ih
    | some b =>
      rw [hg] at ha
      rw [if_pos (by simpa using ha)]
      exact List.Forall₂.cons (hR a b hg) ih

/-- Every collection and every file with a length and a time below the directory is taken over,
in the order of the responses, and there is a warning for every other file below it. -/
theorem listing_taken_over (parseDate : Text → ℤ) (dirname : Text) (server : Propfind)
    (ctx : FetchContext) (h : fetchList parseDate dirname server [] = some (SITE_OK, ctx)) :
    List.Forall₂ (IsEntry dirname)
      (server.responses.filter fun r => Below dirname r.uhref ∧ r.Known) ctx.files ∧
    ctx.warnings = (server.responses.filter (LeftOut dirname)).map warningOf := by
  obtain ⟨ctx', hrun, heq⟩ := Option.map_eq_some_iff.mp h
  obtain ⟨_, rfl⟩ := Prod.mk.inj heq
  obtain ⟨hfiles, hwarnings⟩ := pfindResults_run (fun _ => rfl) hrun
  rw [hfiles, hwarnings]
  exact ⟨forall₂_filterMap (fun _ => taken_isSome) (fun _ _ => taken_isEntry) _, rfl⟩

/-- A file of three bytes. -/
def fileResponse (path : String) (timed : Status) : DavResponse where
  path := ascii path
  propstats :=
    [{ elements := [{ nspace := ascii "DAV:", name := ascii "getcontentlength", value := ascii "3" }]
       status := some ⟨2, ascii "OK"⟩ },
     { elements := [{ nspace := ascii "DAV:", name := ascii "getlastmodified" }]
       status := some timed }]

/-- A file whose time the server does not know, one that it names in other letters, and one
with a slash at its end. -/
def sampleListing : Propfind where
  responses :=
    [fileResponse "/www/%61" ⟨4, ascii "Not Found"⟩, fileResponse "/WWW/b" ⟨2, ascii "OK"⟩,
     fileResponse "/www/c/" ⟨2, ascii "OK"⟩]
  ret := .ok

def sampleContext : FetchContext where
  files :=
    [{ filename := ascii "b", type := .file, size := 3, mode := 0o644 },
     { filename := ascii "c/", type := .file, size := 3, mode := 0o644 }]
  tail := true
  warnings := [⟨ascii "Could not access resource", ascii "/www/a", some (ascii "Not Found")⟩]

theorem listing_taken_over_files :
    List.Forall₂ (IsEntry (ascii "/www/"))
      (sampleListing.responses.filter fun r => Below (ascii "/www/") r.uhref ∧ r.Known)
      sampleContext.files ∧
    sampleContext.warnings =
      (sampleListing.responses.filter (LeftOut (ascii "/www/"))).map warningOf :=
  listing_taken_over (fun _ => 0) (ascii "/www/") sampleListing sampleContext (by decide +kernel)

/-- The files `/www/a` and `/www/c/` are below the directory, but the listing succeeds with
`b` and `c/`. -/
theorem file_without_time_missing :
    sampleListing.responses.map DavResponse.uhref =
        [ascii "/www/a", ascii "/WWW/b", ascii "/www/c/"] ∧
      (∀ r ∈ sampleListing.responses, r.iscollection = false) ∧
      fetchList (fun _ => 0) (ascii "/www/") sampleListing [] = some (SITE_OK, sampleContext) ∧
      sampleContext.files.map ProtoFile.filename = [ascii "b", ascii "c/"] := by
  decide +kernel

end Sitecopy.DavListing
