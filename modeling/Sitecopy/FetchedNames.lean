import Sitecopy.FetchLog
import Sitecopy.ListingDrivers

/-!
# The names that a server may choose

A fetched name is put together from the directory that was asked for and from what the
server sends: a header and the last field of a line of `ls`, or the path of a resource. It
must not lead out of the site.
-/
namespace Sitecopy.FetchedNames
open SiteModel SiteOperations FileSetSpec Numerals StateProgram FtpTransfer LsParser
open RemoteFetch FetchLog ListingDrivers StackSearch

/-! ### Names that stay inside -/

/-- No component is `.` or `..`. -/
structure DotFree (t : Text) : Prop where
  here : [dot] ∉ t.splitOn slash
  up : [dot, dot] ∉ t.splitOn slash

/-- A relative path that does not lead out of the directory it starts from. -/
structure Inside (t : Text) : Prop where
  nonempty : t ≠ []
  relative : t.head? ≠ some slash
  dotFree : DotFree t

lemma dotFree_append_slash {a b : Text} : DotFree (a ++ slash :: b) ↔ DotFree a ∧ DotFree b := by
  have hsplit : (a ++ slash :: b).splitOn slash = a.splitOn slash ++ b.splitOn slash :=
    List.splitOn_append_cons_self a b
  constructor
  · rintro ⟨hhere, hup⟩
    rw [hsplit, List.mem_append, not_or] at hhere hup
    exact ⟨⟨hhere.1, hup.1⟩, ⟨hhere.2, hup.2⟩⟩
  · rintro ⟨ha, hb⟩
    exact ⟨by rw [hsplit, List.mem_append, not_or]; exact ⟨ha.here, hb.here⟩,
      by rw [hsplit, List.mem_append, not_or]; exact ⟨ha.up, hb.up⟩⟩

lemma dotFree_plain {n : Text} (h : slash ∉ n) : DotFree n ↔ n ≠ [dot] ∧ n ≠ [dot, dot] := by
  have hsplit : n.splitOn slash = [n] := List.splitOn_eq_singleton h
  constructor
  · rintro ⟨hhere, hup⟩
    rw [hsplit, List.mem_singleton] at hhere hup
    exact ⟨Ne.symm hhere, Ne.symm hup⟩
  · rintro ⟨hhere, hup⟩
    exact ⟨by rw [hsplit, List.mem_singleton]; exact Ne.symm hhere,
      by rw [hsplit, List.mem_singleton]; exact Ne.symm hup⟩

lemma dotFree_nil : DotFree [] := (dotFree_plain (by simp)).mpr ⟨by simp, by simp⟩

/-- The name `n` below a directory that is not the root. -/
lemma inside_below {d n : Text} (hd : Inside d) : Inside (d ++ slash :: n) ↔ DotFree n := by
  constructor
  · exact fun h => (dotFree_append_slash.mp h.dotFree).2
  · intro hn
    refine ⟨by simp, ?_, dotFree_append_slash.mpr ⟨hd.dotFree, hn⟩⟩
    rw [List.head?_append_of_ne_nil _ hd.nonempty]
    exact hd.relative

/-! ### What servers send -/

/-- A response to `PROPFIND`: the decoded path, whether the resource is a collection, and
the properties that were found. -/
structure Response where
  uhref : Text
  iscollection : Bool := false
  clength : Option Text := none
  modtime : Option Text := none
  isexec : Option Text := none
  deriving DecidableEq, Repr

/-- `ne_path_childof`: `child` is longer and starts with `parent`, in either case. -/
def nePathChildof (parent child : Text) : Bool :=
  parent.length < child.length ∧ (child.take parent.length).map tolower = parent.map tolower

/-- `atoi`. -/
def atoi (t : Text) : ℤ := Int.bmod (strtol (-2 ^ 63) (2 ^ 63 - 1) 10 t) (2 ^ 32)

/-- `pfind_results`; `parseDate` is `ne_httpdate_parse`. -/
def pfindResults (parseDate : Text → ℤ) (root : Text) (r : Response) : Option ProtoFile :=
  if !nePathChildof root r.uhref then none
  else
    let filename := r.uhref.drop root.length
    if r.iscollection then
      -- the trailing slash is stripped
      let filename := if filename.getLast? = some slash then filename.dropLast else filename
      some { filename, type := .dir }
    else
      match r.clength, r.modtime with
      | some clength, some modtime =>
        let exec := r.isexec.map (List.map tolower) = some (ascii "t")
        some { filename, type := .file, size := atoi clength, modtime := parseDate modtime
               mode := if exec then 0o755 else 0o644 }
      | _, _ => none

/-- What a server sends when a directory is listed. -/
inductive Wire
  /-- the lines that `ls` prints, for the FTP, rsh and sftp drivers -/
  | ls (lines : List Text)
  /-- the responses to `PROPFIND`, for the WebDAV driver -/
  | propfind (responses : List Response)

/-- The list that `fetch_list` makes of it. -/
def wireFiles (parseDate : Text → ℤ) (dirname : Text) : Wire → List ProtoFile
  | .ls lines => (fetchLines (lsInit dirname) lines SITE_OK {}).2.list
  | .propfind responses => responses.filterMap (pfindResults parseDate dirname)

/-- The answer to a call of a driver method. The FTP driver asks for the times of the
files that it has listed. -/
structure Answer where
  code : ℤ
  wire : Wire := .ls []
  modtimes : Text → Option ℤ := fun _ => none
  digest : Checksum := .zero

/-- A server, whatever it answers, and the clock. -/
structure Server (σ : Type) where
  fetches : Bool
  answer : FetchCall → σ → Answer × σ
  time : σ → ℤ × σ

structure WireExchange where
  call : FetchCall
  answer : Answer

def stamp (modtimes : Text → Option ℤ) (f : ProtoFile) : ProtoFile :=
  { f with modtime := (modtimes f.filename).getD f.modtime }

/-- What the driver returns. -/
def WireExchange.reply (parseDate : Text → ℤ) (x : WireExchange) : FetchReply where
  code := x.answer.code
  digest := x.answer.digest
  files := match x.call with
    | .fetchList dirname _ => (wireFiles parseDate dirname x.answer.wire).map (stamp x.answer.modtimes)
    | _ => []

def WireExchange.exchange (parseDate : Text → ℤ) (x : WireExchange) : Exchange :=
  ⟨x.call, x.reply parseDate⟩

/-- The driver that parses what the server sends, with a log of its exchanges. -/
def wireDriver {σ : Type} (parseDate : Text → ℤ) (srv : Server σ) :
    FetchEnv (σ × List WireExchange) where
  fetches := srv.fetches
  exec c s :=
    let a := srv.answer c s.1
    let x : WireExchange := ⟨c, a.1⟩
    (x.reply parseDate, (a.2, s.2 ++ [x]))
  time s :=
    let a := srv.time s.1
    (a.1, (a.2, s.2))

lemma wireDriver_logged {σ : Type} (parseDate : Text → ℤ) (srv : Server σ) :
    Logged (wireDriver parseDate srv) Prod.snd (WireExchange.exchange parseDate) where
  exec c s := ⟨⟨c, (srv.answer c s.1).1⟩, rfl, rfl⟩
  time _ := rfl

/-! ### The entries of a listing -/

/-- The list is empty or ends with the node that the tail points to. -/
def Tailed (l : PfList) : Prop := (l.list = [] ∧ l.tail = none) ∨ l.tail = some 0

lemma lsPflistAdd_spec {l : PfList} (hl : Tailed l) (r : LsResult) : Tailed (lsPflistAdd l r) ∧
    ∀ k, k ∈ (lsPflistAdd l r).list.map shown ↔ k ∈ l.list.map shown ∨ resultKey r = some k := by
  cases r with
  | nothing => exact ⟨hl, by simp [lsPflistAdd, resultKey]⟩
  | error => exact ⟨hl, by simp [lsPflistAdd, resultKey]⟩
  | file name mode size =>
    refine ⟨?_, fun k => ?_⟩
    · rcases hl with ⟨hlist, htail⟩ | htail
      · exact Or.inr (by simp [lsPflistAdd, hlist, htail])
      · exact Or.inr (by simp [lsPflistAdd, htail])
    · simp [lsPflistAdd, resultKey, shown, or_comm, eq_comm]
  | directory name mode =>
    rcases hl with ⟨hlist, htail⟩ | htail
    · exact ⟨Or.inr (by simp [lsPflistAdd, htail]), by simp [lsPflistAdd, htail, hlist, resultKey, shown, eq_comm]⟩
    · exact ⟨Or.inr (by simp [lsPflistAdd, htail]), by simp [lsPflistAdd, htail, resultKey, shown, eq_comm]⟩

lemma fetchLines_keys (ctx : LsContext) (lines : List Text) (success : ℤ) {l : PfList}
    (hl : Tailed l) (k : ProtoFiletype × Text) :
    k ∈ (fetchLines ctx lines success l).2.list.map shown ↔
      k ∈ l.list.map shown ∨ ∃ r ∈ lsResults ctx lines, resultKey r = some k := by
  induction lines generalizing ctx success l with
  | nil => simp [fetchLines, lsResults]
  | cons line rest ih =>
    have hstep : ∃ ctx' success' l', ctx' = (lsParse ctx line).1 ∧
        l' = lsPflistAdd l (lsParse ctx line).2 ∧
        fetchLines ctx (line :: rest) success l = fetchLines ctx' rest success' l' := by
      rw [fetchLines]
      cases hr : lsParse ctx line with
      | mk ctx' r => cases r <;> exact ⟨_, _, _, rfl, rfl, rfl⟩
    obtain ⟨ctx', success', l', rfl, rfl, hfetch⟩ := hstep
    obtain ⟨htailed, hadd⟩ := lsPflistAdd_spec hl (lsParse ctx line).2
    rw [hfetch, ih _ _ htailed, hadd, lsResults, List.exists_mem_cons_iff, or_assoc]

/-- What is known of every entry that a listing describes. -/
structure EntryShape (p : Text × EntryLine) : Prop where
  header : HeaderDir p.1
  nonempty : p.2.name ≠ []
  plain : slash ∉ p.2.name

lemma lsEntries_results {ctx : LsContext} (h : HeaderDir ctx.curdir) (lines : List Text) :
    (∀ p ∈ lsEntries ctx lines, EntryShape p) ∧
      ∀ name, (∃ r ∈ lsResults ctx lines, ∃ type, resultKey r = some (type, name)) ↔
        ∃ p ∈ lsEntries ctx lines, p.1 ++ p.2.name = name := by
  induction lines generalizing ctx with
  | nil => simp [lsEntries, lsResults]
  | cons line rest ih =>
    obtain ⟨hshape, hnames⟩ := ih (lsParse_headerDir h line)
    rw [lsEntries, lsResults]
    rcases lineEntry_spec ctx line with ⟨hr, he⟩ | ⟨e, he, hreads⟩ <;> rw [he]
    · refine ⟨by simpa using hshape, fun name => ?_⟩
      rw [List.exists_mem_cons_iff, hnames]
      simp [hr]
    · refine ⟨?_, fun name => ?_⟩
      · rintro p hp
        rcases List.mem_append.mp hp with hp | hp
        · obtain rfl := Option.some.inj (Option.mem_toList.mp hp)
          exact ⟨h, hreads.nonempty, hreads.plain⟩
        · exact hshape p hp
      · obtain ⟨type, hkey, -⟩ := hreads.key
        rw [List.exists_mem_cons_iff, hnames, hkey]
        simp

/-- The name that an entry gets, by what the header and the last field of its line are. -/
lemma entry_name {p : Text × EntryLine} (h : EntryShape p) : p.1 ++ p.2.name ≠ [] ∧
    (p.1 ++ p.2.name).head? ≠ some slash ∧
    (DotFree (p.1 ++ p.2.name) ↔ DotFree p.1 ∧ p.2.name ≠ [dot] ∧ p.2.name ≠ [dot, dot]) := by
  obtain ⟨hheader, hne, hplain⟩ := h
  refine ⟨by simp [hne], ?_, ?_⟩
  · rcases hheader with hnil | ⟨d, hd, hdne, hhead⟩
    · rw [hnil, List.nil_append]
      intro hslash
      exact hplain (List.mem_of_mem_head? hslash)
    · rw [hd, List.append_assoc, List.head?_append_of_ne_nil _ hdne]
      exact hhead
  · rcases hheader with hnil | ⟨d, hd, hdne, hhead⟩
    · rw [hnil, List.nil_append, dotFree_plain hplain]
      exact (and_iff_right dotFree_nil).symm
    · have hname : p.1 ++ p.2.name = d ++ slash :: p.2.name := by rw [hd]; simp
      rw [hname, dotFree_append_slash, dotFree_plain hplain, hd, dotFree_append_slash,
        and_iff_left dotFree_nil]

/-! ### Listings with plain names -/

section Names
variable (parseDate : Text → ℤ) (o : SiteOptions)

/-- A name that may be put below the directory `rel`, which ends with a slash or is empty. -/
def PlainName (rel name : Text) : Prop :=
  DotFree name ∧ (rel = [] → name ≠ [] ∧ name.head? ≠ some slash)

/-- What the server sends for the directory `dirname` names nothing outside of it, unless it
is excluded: no header of an entry has a component `.` or `..` and no file is called so; and
no resource has such a component in its path below the directory. -/
def PlainWire (dirname : Text) : Wire → Prop
  | .ls lines => ∀ p ∈ lsEntries (lsInit dirname) lines,
      fileIsexcluded (dirname.drop o.remoteRoot.length ++ (p.1 ++ p.2.name)) o = false →
        DotFree p.1 ∧ p.2.name ≠ [dot] ∧ p.2.name ≠ [dot, dot]
  | .propfind responses => ∀ r ∈ responses, ∀ f, pfindResults parseDate dirname r = some f →
      fileIsexcluded (dirname.drop o.remoteRoot.length ++ f.filename) o = false →
        PlainName (dirname.drop o.remoteRoot.length) f.filename

/-- The same of the files that the driver makes of it. -/
lemma plainWire_iff (dirname : Text) (wire : Wire) : PlainWire parseDate o dirname wire ↔
    ∀ f ∈ wireFiles parseDate dirname wire,
      fileIsexcluded (dirname.drop o.remoteRoot.length ++ f.filename) o = false →
        PlainName (dirname.drop o.remoteRoot.length) f.filename := by
  cases wire with
  | propfind responses =>
    simp only [PlainWire, wireFiles, List.mem_filterMap]
    constructor
    · rintro h f ⟨r, hr, hf⟩
      exact h r hr f hf
    · intro h r hr f hf
      exact h f ⟨r, hr, hf⟩
  | ls lines =>
    have hinit : HeaderDir (lsInit dirname).curdir := Or.inl rfl
    obtain ⟨hshape, hnames⟩ := lsEntries_results hinit lines
    have hfiles : ∀ name, (∃ f ∈ wireFiles parseDate dirname (.ls lines), f.filename = name) ↔
        ∃ p ∈ lsEntries (lsInit dirname) lines, p.1 ++ p.2.name = name := by
      intro name
      rw [← hnames]
      have hkeys := fetchLines_keys (lsInit dirname) lines SITE_OK (l := {}) (Or.inl ⟨rfl, rfl⟩)
      constructor
      · rintro ⟨f, hf, rfl⟩
        rcases (hkeys (shown f)).mp (List.mem_map_of_mem hf) with hnil | ⟨r, hr, hk⟩
        · simp at hnil
        · exact ⟨r, hr, f.type, hk⟩
      · rintro ⟨r, hr, type, hk⟩
        obtain ⟨f, hf, hshown⟩ := List.mem_map.mp ((hkeys _).mpr (Or.inr ⟨r, hr, hk⟩))
        exact ⟨f, hf, (Prod.mk.inj hshown).2⟩
    constructor
    · intro h f hf hex
      obtain ⟨p, hp, hname⟩ := (hfiles f.filename).mp ⟨f, hf, rfl⟩
      obtain ⟨hne, hhead, hdots⟩ := entry_name (hshape p hp)
      rw [← hname] at hex ⊢
      exact ⟨hdots.mpr (h p hp hex), fun _ => ⟨hne, hhead⟩⟩
    · intro h p hp hex
      obtain ⟨f, hf, hname⟩ := (hfiles _).mpr ⟨p, hp, rfl⟩
      obtain ⟨hne, hhead, hdots⟩ := entry_name (hshape p hp)
      rw [← hname] at hex hdots
      exact hdots.mp (h f hf hex).1

/-- Everything that the server sends in answer to the exchanges `xs` is plain. -/
def PlainWires (xs : List WireExchange) : Prop :=
  ∀ x ∈ xs, ∀ dirname need, x.call = .fetchList dirname need → x.answer.code = SITE_OK →
    PlainWire parseDate o dirname x.answer.wire

lemma listed_wire {xs : List WireExchange} {name : Text} :
    (∃ type, Listed o (xs.map (WireExchange.exchange parseDate)) (type, name)) ↔
      ∃ x ∈ xs, ∃ dirname need, x.call = .fetchList dirname need ∧ x.answer.code = SITE_OK ∧
        ∃ f ∈ wireFiles parseDate dirname x.answer.wire,
          name = dirname.drop o.remoteRoot.length ++ f.filename := by
  constructor
  · rintro ⟨type, y, hy, dirname, need, hc, hok, f, hf, hk⟩
    obtain ⟨x, hx, rfl⟩ := List.mem_map.mp hy
    have hcall : x.call = .fetchList dirname need := hc
    simp only [WireExchange.exchange, WireExchange.reply, hcall, List.mem_map] at hf
    obtain ⟨g, hg, rfl⟩ := hf
    exact ⟨x, hx, dirname, need, hc, hok, g, hg, (Prod.mk.inj hk).2⟩
  · rintro ⟨x, hx, dirname, need, hc, hok, f, hf, rfl⟩
    refine ⟨f.type, _, List.mem_map_of_mem hx, dirname, need, hc, hok,
      stamp x.answer.modtimes f, ?_, rfl⟩
    simp only [WireExchange.exchange, WireExchange.reply, hc]
    exact List.mem_map_of_mem hf

/-- The names found in the search stay inside exactly when the listings are plain. -/
lemma listed_inside_iff {xs : List WireExchange} {new : List ProtoFile}
    (h : Explored o [[]] (xs.map (WireExchange.exchange parseDate)) new) :
    (∀ k, Listed o (xs.map (WireExchange.exchange parseDate)) k →
        fileIsexcluded k.2 o = false → Inside k.2) ↔ PlainWires parseDate o xs := by
  have hplace : ∀ x ∈ xs, ∀ dirname need, x.call = .fetchList dirname need →
      ∃ d, dirname.drop o.remoteRoot.length = d ++ slashAfter d ∧ (d = [] ∨
        Listed o (xs.map (WireExchange.exchange parseDate)) (.dir, d) ∧
          fileIsexcluded d o = false) := by
    intro x hx dirname need hc
    obtain ⟨d, rfl, hd⟩ := h.places _ (List.mem_map_of_mem hx) dirname need hc
    refine ⟨d, by rw [List.append_assoc, List.drop_left], ?_⟩
    simpa using hd
  constructor
  · intro hinside x hx dirname need hc hok
    rw [plainWire_iff]
    intro f hf hex
    obtain ⟨d, hd, hfrom⟩ := hplace x hx dirname need hc
    obtain ⟨type, hlisted⟩ := (listed_wire parseDate o).mpr
      ⟨x, hx, dirname, need, hc, hok, f, hf, rfl⟩
    have hin := hinside _ hlisted hex
    rw [hd] at hin ⊢
    by_cases hroot : d = []
    · subst hroot
      exact ⟨hin.dotFree, fun _ => ⟨hin.nonempty, hin.relative⟩⟩
    · have hname : d ++ slashAfter d ++ f.filename = d ++ slash :: f.filename := by
        simp [slashAfter, hroot]
      have hdots := hin.dotFree
      dsimp only at hdots
      rw [hname] at hdots
      exact ⟨(dotFree_append_slash.mp hdots).2, by simp [hroot]⟩
  · intro hplain k
    -- the directory of a name is shorter than the name
    induction hn : k.2.length using Nat.strong_induction_on generalizing k with
    | _ n ih =>
      rintro hlisted hex
      obtain ⟨x, hx, dirname, need, hc, hok, f, hf, hk⟩ :=
        (listed_wire parseDate o).mp ⟨k.1, hlisted⟩
      obtain ⟨d, hd, hfrom⟩ := hplace x hx dirname need hc
      have hname := (plainWire_iff parseDate o dirname _).mp (hplain x hx dirname need hc hok) f hf
        (by rw [← hk]; exact hex)
      rw [hd] at hname hk
      by_cases hroot : d = []
      · subst hroot
        obtain ⟨hdots, hrel⟩ := hname
        obtain ⟨hne, hhead⟩ := hrel rfl
        rw [hk]
        exact ⟨hne, hhead, hdots⟩
      · have heq : k.2 = d ++ slash :: f.filename := by simp [hk, slashAfter, hroot]
        obtain ⟨hdir, hdex⟩ := hfrom.resolve_left hroot
        have hin : Inside d := ih d.length (by rw [← hn, heq]; simp) (.dir, d) rfl hdir hdex
        rw [heq]
        exact (inside_below hin).mpr hname.1

end Names

/-- After a fetch all stored names stay inside the site exactly when everything that the
server sent about entries that are not excluded is plain; and the fetch ends on every
finite tree. -/
theorem fetched_names_iff {σ : Type} (parseDate : Text → ℤ) (srv : Server σ) {site : Site}
    (wl : WellLinked site) (sess : σ) (fuel : ℕ) {out : FetchResult} {sess' : σ}
    {xs : List WireExchange}
    (hrun : (siteFetch (wireDriver parseDate srv) fuel site).run (sess, []) =
      (some out, (sess', xs))) (hok : out.ret = SITE_OK) :
    (∀ g ∈ out.site.files, g.storedState.existing = true →
      ∃ name, g.storedState.filename = some name ∧ Inside name) ↔
    PlainWires parseDate site.opts xs := by
  have hlogged := siteFetch_logged (wireDriver_logged parseDate srv) wl fuel (sess, [])
  rw [ends_iff] at hlogged
  obtain ⟨seg, hseg, hfetched⟩ := hlogged _ _ hrun
  obtain rfl : xs = seg := hseg
  obtain ⟨new, hexplored, hkeys⟩ := (hfetched out rfl).explored hok
  rw [← listed_inside_iff parseDate site.opts hexplored]
  constructor
  · intro h k hlisted hex
    obtain ⟨f, hf, rfl⟩ := List.mem_map.mp ((hexplored.found k).mpr hlisted)
    have hkey : (fetchedType f.type, some f.filename) ∈ storedKeys out.site.files := by
      rw [hkeys]
      exact ⟨f, hf, hex, rfl⟩
    obtain ⟨g, hg, hexists, hgk⟩ := hkey
    obtain ⟨name, hname, hin⟩ := h g hg hexists
    have hsame := hname.symm.trans (Prod.mk.inj hgk).2
    rwa [Option.some.inj hsame] at hin
  · intro h g hg hexists
    have hkey : (g.type, g.storedState.filename) ∈ storedKeys out.site.files := ⟨g, hg, hexists, rfl⟩
    rw [hkeys] at hkey
    obtain ⟨f, hf, hex, hk⟩ := hkey
    exact ⟨f.filename, (Prod.mk.inj hk).2.symm,
      h (shown f) ((hexplored.found _).mp (List.mem_map_of_mem hf)) hex⟩

/-- A server that lists one line and then nothing. -/
def oneLineServer (line : Text) : Server PUnit where
  fetches := true
  answer c s := match c with
    | .fetchList _ _ => ({ code := SITE_OK, wire := .ls [line] }, s)
    | _ => ({ code := SITE_OK }, s)
  time s := (0, s)

lemma emptySite_wellLinked : WellLinked { opts := {} } := ⟨List.nodup_nil, by simp⟩

theorem fetched_names_iff_file :
    ∃ out sess' xs, (siteFetch (wireDriver (fun _ => 0)
        (oneLineServer (ascii "-rw-r--r-- 1 joe joe 3 Jan 1 1999 f"))) 2 { opts := {} }).run
          (PUnit.unit, []) = (some out, (sess', xs)) ∧
      ((∀ g ∈ out.site.files, g.storedState.existing = true →
          ∃ name, g.storedState.filename = some name ∧ Inside name) ↔
        PlainWires (fun _ => 0) {} xs) :=
  ⟨_, _, _, rfl, fetched_names_iff (fun _ => 0)
    (oneLineServer (ascii "-rw-r--r-- 1 joe joe 3 Jan 1 1999 f")) emptySite_wellLinked PUnit.unit 2
    rfl rfl⟩

/-- A regular file by the name of the parent directory is stored. -/
theorem parent_fetched_as_file :
    ∃ out rest, (siteFetch (wireDriver (fun _ => 0)
        (oneLineServer (ascii "-rw-r--r-- 1 joe joe 3 Jan 1 1999 .."))) 2 { opts := {} }).run
          (PUnit.unit, []) = (some out, rest) ∧
      out.ret = SITE_OK ∧
      (∃ g ∈ out.site.files, g.storedState.existing = true ∧
        fileFullLocal g.storedState {} = ascii "/..") ∧
      ¬ ∀ g ∈ out.site.files, g.storedState.existing = true →
        ∃ name, g.storedState.filename = some name ∧ Inside name := by
  refine ⟨_, _, rfl, rfl, ⟨_, List.mem_singleton_self _, rfl, rfl⟩, fun h => ?_⟩
  obtain ⟨name, hname, hin⟩ := h _ (List.mem_singleton_self _) rfl
  obtain rfl : ascii ".." = name := Option.some.inj hname
  exact hin.dotFree.up (by decide)

end Sitecopy.FetchedNames
