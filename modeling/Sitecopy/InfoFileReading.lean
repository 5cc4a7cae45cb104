import Sitecopy.FtpSession
import Sitecopy.HiddenPaths

/-!
# Reading the info file

`parse_storage_file` feeds the info file to the XML parser in blocks, and takes a short read
for the end of the file. The empty block that ends a file of full blocks is fed too, and an
empty block tells the parser that the document is at its end.
-/
namespace Sitecopy.InfoFileReading
open SiteModel FileSet FileSetSpec FileMatching SiteOperations StateFile StateFileErrors
open LocalScan HiddenPaths FtpSession

/-! ### Blocks -/

/-- What a call of `fread` gives. -/
structure Read where
  block : Text
  eof : Bool := false
  error : Bool := false
  deriving DecidableEq, Repr

/-- `Reads content reads`: calls of `fread` that read a file to its end. A call gives less
than it is asked for only at the end. -/
inductive Reads : Text → List Read → Prop
  | last {block : Text} : block.length < bufsiz → Reads block [{ block := block, eof := true }]
  | full {block rest : Text} {reads : List Read} : block.length = bufsiz → Reads rest reads →
      Reads (block ++ rest) ({ block := block } :: reads)

/-- `XML_Parse` of the XML library with the handlers of `sitestore.c`: it takes a block, and
whether this is the end of the document. The second result is whether the parser has failed. -/
abbrev Library (σ : Type) := σ → Text → Bool → σ × Bool

/-- A parser of neon, and the calls of `ne_xml_parse` made so far. -/
structure Feed (σ : Type) where
  state : σ
  failure : Bool := false
  calls : List Text := []

section Feeding
variable {σ : Type} (lib : Library σ)

/-- `ne_xml_parse`. -/
def neXmlParse (p : Feed σ) (block : Text) : Feed σ :=
  let calls := p.calls ++ [block]
  if p.failure then { p with calls := calls }
  else
    let r := lib p.state block block.isEmpty
    { state := r.1, failure := r.2, calls := calls }

/-- The loop of `parse_storage_file`, and its `ret`. -/
def readLoop : List Read → Feed σ → ℤ × Feed σ
  | [], p => (0, p)
  | r :: reads, p =>
    if r.block.length < bufsiz ∧ r.eof = false ∧ r.error = true then (-1, p)
    else
      let ret : ℤ := if r.block.length < bufsiz ∧ r.eof = true then 1 else 0
      let p := neXmlParse lib p r.block
      if ret = 0 ∧ p.failure = false then readLoop reads p else (ret, p)

/-- The calls of `ne_xml_parse` in `parse_storage_file`. -/
def feedStorageFile (reads : List Read) (start : σ) : ℤ × Feed σ :=
  let r := readLoop lib reads { state := start }
  (r.1, if r.2.failure then r.2 else neXmlParse lib r.2 [])

/-- Several calls of `ne_xml_parse`. -/
def feed (blocks : List Text) (p : Feed σ) : Feed σ := blocks.foldl (neXmlParse lib) p

/-- The file in blocks, then the end of the document once. -/
def FedOnce (content : Text) (calls : List Text) : Prop :=
  ∃ blocks, calls = blocks ++ [[]] ∧ (∀ b ∈ blocks, b ≠ []) ∧ blocks.flatten = content

/-- The blocks that have any bytes. -/
def contentBlocks (reads : List Read) : List Text := (reads.map Read.block).filter (! ·.isEmpty)

/-- The parser reports no failure for the file and its end. -/
def Accepts (reads : List Read) (start : σ) : Prop :=
  (feed lib (contentBlocks reads ++ [[]]) { state := start }).failure = false

variable {lib} {p : Feed σ} {reads : List Read} {content : Text}

lemma feed_append (blocks blocks' : List Text) (p : Feed σ) :
    feed lib (blocks ++ blocks') p = feed lib blocks' (feed lib blocks p) := List.foldl_append

lemma feed_calls (blocks : List Text) (p : Feed σ) :
    (feed lib blocks p).calls = p.calls ++ blocks := by
  induction blocks generalizing p with
  | nil => exact (List.append_nil _).symm
  | cons b blocks ih =>
    have hcalls : (neXmlParse lib p b).calls = p.calls ++ [b] := by
      unfold neXmlParse
      dsimp only
      split <;> rfl
    change (feed lib blocks (neXmlParse lib p b)).calls = _
    rw [ih, hcalls, List.append_assoc]
    rfl

/-- A failure stays. -/
lemma feed_failure (blocks : List Text) (h : p.failure = true) :
    (feed lib blocks p).failure = true := by
  induction blocks generalizing p with
  | nil => exact h
  | cons b blocks ih =>
    apply ih
    simp [neXmlParse, h]

lemma not_failed_before {blocks blocks' : List Text}
    (h : (feed lib (blocks ++ blocks') p).failure = false) :
    (feed lib blocks p).failure = false := by
  by_contra hfail
  rw [Bool.not_eq_false] at hfail
  rw [feed_append, feed_failure blocks' hfail] at h
  cases h

/-! ### The calls -/

/-- All blocks but the last are full. -/
lemma reads_blocks (h : Reads content reads) : ∃ full short,
    reads.map Read.block = full ++ [short] ∧ (∀ b ∈ full, b ≠ []) ∧
      full.flatten ++ short = content ∧ short.length = content.length % bufsiz := by
  induction h with
  | @last block hshort =>
    exact ⟨[], block, rfl, by simp, rfl, (Nat.mod_eq_of_lt hshort).symm⟩
  | @full block rest reads hfull _ ih =>
    obtain ⟨full, short, hmap, hne, hflat, hlen⟩ := ih
    refine ⟨block :: full, short, ?_, ?_, ?_, ?_⟩
    · rw [List.map_cons, hmap, List.cons_append]
    · intro b hb
      rcases List.mem_cons.mp hb with rfl | hb
      · intro hnil
        rw [hnil] at hfull
        cases hfull
      · exact hne b hb
    · rw [List.flatten_cons, List.append_assoc, hflat]
    · rw [hlen, List.length_append, hfull, Nat.add_mod_left]

/-- Without a failure the loop feeds every block it reads. -/
lemma readLoop_feeds (h : Reads content reads) (p : Feed σ)
    (hok : (feed lib (reads.map Read.block) p).failure = false) :
    readLoop lib reads p = (1, feed lib (reads.map Read.block) p) := by
  induction h generalizing p with
  | @last block hshort =>
    unfold readLoop
    simp [hshort, feed]
  | @full block rest reads hfull _ ih =>
    have hnext : (feed lib [block] p).failure = false := not_failed_before hok
    have hlong : ¬ block.length < bufsiz := by omega
    simp only [readLoop, hlong, false_and, if_false]
    rw [if_pos ⟨trivial, hnext⟩]
    exact ih _ hok

/-- The contents, in the blocks in which they are read. -/
lemma contentBlocks_eq {full : List Text} {short : Text}
    (hmap : reads.map Read.block = full ++ [short]) (hne : ∀ b ∈ full, b ≠ []) :
    contentBlocks reads = full ++ if short = [] then [] else [short] := by
  have hfull : full.filter (fun b => ! b.isEmpty) = full := by
    apply List.filter_eq_self.mpr
    intro b hb
    simpa using hne b hb
  rw [contentBlocks, hmap, List.filter_append, hfull]
  split_ifs with h
  · simp [h]
  · simp [h]

/-- Without a failure every block is fed, and then the end of the document. -/
lemma feedStorageFile_calls {start : σ} (h : Reads content reads) (hok : Accepts lib reads start) :
    (feedStorageFile lib reads start).2.calls = reads.map Read.block ++ [[]] := by
  obtain ⟨full, short, hmap, hne, -, -⟩ := reads_blocks h
  have hloop : (feed lib (reads.map Read.block) { state := start }).failure = false := by
    unfold Accepts at hok
    rw [contentBlocks_eq hmap hne] at hok
    rw [hmap]
    split_ifs at hok with hshort
    · rw [hshort]
      simpa using hok
    · exact not_failed_before hok
  unfold feedStorageFile
  rw [readLoop_feeds h _ hloop]
  dsimp only
  rw [if_neg (by simp [hloop])]
  change (feed lib [[]] (feed lib (reads.map Read.block) _)).calls = _
  rw [← feed_append, feed_calls, List.nil_append]

/-- The parser is fed the file once and closed once exactly if the file does not consist of
full blocks only. -/
theorem fed_once_iff {start : σ} (h : Reads content reads) (hok : Accepts lib reads start) :
    FedOnce content (feedStorageFile lib reads start).2.calls ↔ content.length % bufsiz ≠ 0 := by
  obtain ⟨full, short, hmap, hne, hflat, hlen⟩ := reads_blocks h
  rw [feedStorageFile_calls h hok, ← hlen]
  constructor
  · rintro ⟨blocks, hcalls, hblocks, -⟩ hzero
    obtain rfl := List.length_eq_zero_iff.mp hzero
    obtain rfl := List.append_left_injective [[]] hcalls
    refine hblocks [] ?_ rfl
    rw [hmap]
    simp
  · intro hshort
    refine ⟨reads.map Read.block, rfl, fun b hb => ?_, ?_⟩
    · rw [hmap, List.mem_append, List.mem_singleton] at hb
      rcases hb with hb | rfl
      · exact hne b hb
      · rintro rfl
        exact hshort rfl
    · rw [hmap, List.flatten_append, List.flatten_singleton, hflat]

end Feeding

/-- A parser that takes everything. -/
def lenient : Library Unit := fun _ _ _ => ((), false)

lemma fed_once_iff_oneByte :
    FedOnce [0] (feedStorageFile lenient [{ block := [0], eof := true }] ()).2.calls ↔
      1 % bufsiz ≠ 0 :=
  fed_once_iff (.last (by decide)) rfl

/-- After a file of one full block the parser is told the end of the document twice. -/
theorem fullBlock_closed_twice : ∃ content reads, Reads content reads ∧
    Accepts lenient reads () ∧ content.length = bufsiz ∧
      ¬ FedOnce content (feedStorageFile lenient reads ()).2.calls := by
  have hreads : Reads (List.replicate bufsiz 0 ++ [])
      [{ block := List.replicate bufsiz 0 }, { block := [], eof := true }] :=
    .full List.length_replicate (.last (by decide))
  have hok : Accepts lenient
      [{ block := List.replicate bufsiz 0 }, { block := [], eof := true }] () := rfl
  refine ⟨_, _, hreads, hok, by simp, ?_⟩
  rw [feedStorageFile_calls hreads hok]
  rintro ⟨blocks, hcalls, hblocks, -⟩
  obtain rfl := List.append_left_injective [[]] hcalls
  exact hblocks [] (by simp) rfl

/-! ### The result code -/

/-- `site_readfiles`, with its return code. -/
def siteReadfiles (disk : Disk) (fails : Failures) (fuel : ℕ) (P : Xml.Parser) (m : DataModel)
    (file : InfoFile) (site : Site) : Option (Site × ℤ) :=
  let r := siteReadStoredState P m file (siteDestroy site)
  if r.ret = SITE_OK then
    (siteReadLocalState disk fails fuel r.site).map fun site => (site, r.ret)
  else some (r.site, r.ret)

/-- The XML parser and the handlers find nothing wrong with a file. -/
def Accepted (P : Xml.Parser) (m : DataModel) (contents : Text) : Prop :=
  (P.parse contents).2 = true ∧
    ((P.parse contents).1.foldl (neEvent m) { doc := { site := { opts := {} } } }).failure = none

/-- A file that can be read and is right. -/
def WellFormed (P : Xml.Parser) (m : DataModel) : InfoFile → Prop
  | .readable contents => Accepted P m contents
  | .missing | .unopenable | .broken _ => False

/-- A file that is there, and cannot be read or is wrong. -/
def Faulty (P : Xml.Parser) (m : DataModel) : InfoFile → Prop
  | .readable contents => ¬ Accepted P m contents
  | .unopenable | .broken _ => True
  | .missing => False

/-- The result codes that `sites.h` promises, and the merge of both sides for `SITE_OK`. -/
structure Reported {o : SiteOptions} (tree : LocalTree o) (fails : Failures) (P : Xml.Parser)
    (m : DataModel) (file : InfoFile) (out : Site × ℤ) : Prop where
  ok : WellFormed P m file →
    out.2 = SITE_OK ∧ ReadSite tree fails (recordedStates P m file) out.1
  errors : out.2 = SITE_ERRORS ↔ Faulty P m file
  failed : out.2 = SITE_FAILED ↔ file = .missing

section Result
variable {P : Xml.Parser} {m : DataModel} {site : Site}

/-- What the parser does with an event depends on the site in no way. -/
lemma neEvent_agree {s : Site} {p q : NeonParser} (h : inSite s p = inSite s q) (e : Xml.Event) :
    inSite s (neEvent m p e) = inSite s (neEvent m q e) := by
  rw [← neEvent_inSite s s p e, ← neEvent_inSite s s q e, h]

lemma foldl_neEvent_agree {s : Site} {p q : NeonParser} (h : inSite s p = inSite s q)
    (events : List Xml.Event) :
    inSite s (events.foldl (neEvent m) p) = inSite s (events.foldl (neEvent m) q) := by
  induction events generalizing p q with
  | nil => exact h
  | cons e events ih => exact ih (neEvent_agree h e)

lemma failure_of_events (site : Site) (events : List Xml.Event) :
    (events.foldl (neEvent m) { doc := { site := site } }).failure =
      (events.foldl (neEvent m) { doc := { site := { opts := {} } } }).failure := by
  have hagree := foldl_neEvent_agree (m := m) (s := site)
    (p := { doc := { site := site } }) (q := { doc := { site := { opts := {} } } }) rfl events
  have hfailure := congrArg NeonParser.failure hagree
  exact hfailure

lemma parseStorageFile_ret (contents : Text) (site : Site) :
    (Accepted P m contents ∧ (parseStorageFile P m contents site).ret = 1) ∨
      (¬ Accepted P m contents ∧ (parseStorageFile P m contents site).ret = SITE_ERRORS) := by
  have hfailure := failure_of_events (m := m) site (P.parse contents).1
  unfold parseStorageFile Accepted
  dsimp only
  rw [← hfailure]
  cases ((P.parse contents).1.foldl (neEvent m) { doc := { site := site } }).failure with
  | some e => simp
  | none => cases (P.parse contents).2 <;> simp

/-- A file that was parsed is reported with the loop's own 1. -/
lemma storedState_ret (file : InfoFile) (site : Site) :
    (WellFormed P m file ∧ (siteReadStoredState P m file site).ret = 1) ∨
      (Faulty P m file ∧ (siteReadStoredState P m file site).ret = SITE_ERRORS) ∨
        (file = .missing ∧ (siteReadStoredState P m file site).ret = SITE_FAILED) := by
  cases file with
  | missing => exact Or.inr (Or.inr ⟨rfl, rfl⟩)
  | unopenable => exact Or.inr (Or.inl ⟨trivial, rfl⟩)
  | broken contents => exact Or.inr (Or.inl ⟨trivial, rfl⟩)
  | readable contents => exact (parseStorageFile_ret contents site).imp_right Or.inl

lemma ret_of_wellFormed {file : InfoFile} (h : WellFormed P m file) :
    (siteReadStoredState P m file site).ret = 1 := by
  cases file with
  | readable contents =>
    rcases parseStorageFile_ret (P := P) (m := m) contents site with ⟨-, hret⟩ | ⟨hno, -⟩
    · exact hret
    · exact absurd h hno
  | missing | unopenable | broken contents => exact h.elim

/-- No local states are read from an info file. -/
lemma storedState_local (wl : WellLinked site) (file : InfoFile)
    (h : ∀ f ∈ site.files, f.localState.existing = false) :
    ∀ f ∈ (siteReadStoredState P m file site).site.files, f.localState.existing = false := by
  have hheld := (foldl_apply_held wl (told P m file)).2
  rw [← siteReadStoredState_site] at hheld
  intro f hf
  by_contra hex
  rw [Bool.not_eq_false] at hex
  have hmem : (f.type, f.localState) ∈ held .localSlot site.files := by
    rw [← hheld]
    exact mem_held.mpr ⟨f, hf, hex, rfl, rfl⟩
  obtain ⟨g, hg, hexg, -⟩ := mem_held.mp hmem
  exact absurd hexg (by simp [Slot.get, h g hg])

/-- The local tree is never scanned. -/
lemma siteReadfiles_eq (disk : Disk) (fails : Failures) (fuel : ℕ) (file : InfoFile) :
    siteReadfiles disk fails fuel P m file site =
      some ((siteReadStoredState P m file (siteDestroy site)).site,
        (siteReadStoredState P m file (siteDestroy site)).ret) := by
  unfold siteReadfiles
  dsimp only
  rw [if_neg]
  rcases storedState_ret (P := P) (m := m) file (siteDestroy site) with
    ⟨-, h⟩ | ⟨-, h⟩ | ⟨-, h⟩
  · rw [h]
    decide
  · rw [h]
    decide
  · rw [h]
    decide

/-- A right info file gives the loop's own 1, and no local states. -/
lemma readfiles_wellFormed {o : SiteOptions} (tree : LocalTree o) (fails : Failures) (fuel : ℕ)
    {file : InfoFile} (h : WellFormed P m file) (hempty : (siteDestroy site).files = []) :
    ∃ out, siteReadfiles tree.toDisk fails fuel P m file site = some out ∧
      out.2 = 1 ∧ (∀ f ∈ out.1.files, f.localState.existing = false) ∧
        ¬ Reported tree fails P m file out := by
  have hret : (siteReadStoredState P m file (siteDestroy site)).ret = 1 := ret_of_wellFormed h
  have hlinked : WellLinked (siteDestroy site) := by
    constructor
    · rw [hempty]
      exact List.nodup_nil
    · rw [hempty]
      simp
  refine ⟨_, siteReadfiles_eq tree.toDisk fails fuel file, hret, ?_, fun hok => ?_⟩
  · apply storedState_local hlinked file
    rw [hempty]
    simp
  · have hcode : (siteReadStoredState P m file (siteDestroy site)).ret = SITE_OK := (hok.ok h).1
    rw [hret] at hcode
    cases hcode

end Result

end Sitecopy.InfoFileReading
