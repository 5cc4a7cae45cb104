import Sitecopy.StateFile

/-!
# The stored state file as a document

What `site_write_stored_state` writes is the rendering of a well-formed document, whose
tokens are given here.
-/
namespace Sitecopy.StateFile
open SiteModel FileSet Numerals Xml

def element (e : Elm) (content : List Token) : List Token :=
  [.start e.name []] ++ content ++ [.stop e.name]

/-- An element that holds only text. -/
def leaf (e : Elm) (t : Text) : List Token := element e [.text t]

/-- An element that holds only an empty element. -/
def flag (e inner : Elm) : List Token := element e [.empty inner.name []]

def typeElm : FileType → Elm
  | .file => .type_file
  | .dir => .type_directory
  | .link => .type_link

def methodElm : StateMethod → Elm
  | .checksum => .opt_state_method_checksum
  | .timesize => .opt_state_method_timesize

def nameTokens (filename : Option Text) : List Token :=
  leaf .filename (fnEscape (filename.getD [])) ++ [.text [10]]

def modeTokens (mode : UInt32) : List Token :=
  if mode ≠ INVALID_MODE then leaf .protection (padZeros 3 (printNat 8 mode.toNat)) else []

/-- The time or the checksum. -/
def methodTokens (o : SiteOptions) (s : FileState) : List Token :=
  match o.stateMethod with
  | .checksum => leaf .checksum (md5ToAscii s.checksum)
  | .timesize => leaf .modtime (printInt s.time)

def serverTokens (server : FileState) : List Token :=
  if server.existing then leaf .server_modtime (printInt server.time) else []

def fieldTokens (o : SiteOptions) (f : SiteFile) : List Token :=
  let s := f.storedState
  match f.type with
  | .link => leaf .linktarget (s.linktarget.getD [])
  | .file =>
    leaf .size (printInt s.size) ++ methodTokens o s ++
      flag .ascii (if s.ascii then .true else .false) ++ serverTokens f.serverState
  | .dir => []

def itemTokens (o : SiteOptions) (f : SiteFile) : List Token :=
  element .item (List.flatten [flag .type (typeElm f.type), nameTokens f.storedState.filename,
    modeTokens f.storedState.mode, fieldTokens o f]) ++ [.text [10]]

/-- A line of the options that only some sites have. -/
def optionLine (b : Bool) (line : List Token) : List Token :=
  if b then List.flatten [[.text (ascii " ")], line, [.text [10]]] else []

def optionsTokens (o : SiteOptions) : List Token :=
  element .options (List.flatten [[.text [10]],
    optionLine true [.empty Elm.opt_saved_by.name
      [(ascii "package", ascii "sitecopy"), (ascii "version", ascii "0.16.3")]],
    optionLine (o.stateMethod = .checksum) (flag .opt_checksum .opt_checksum_md5),
    optionLine true (flag .opt_state_method (methodElm o.stateMethod)),
    optionLine o.safemode [.empty (ascii "safemode") []],
    optionLine true [.empty (ascii "escaped-filenames") []]]) ++ [.text [10]]

def itemsTokens (site : Site) : List Token :=
  element .items (.text [10] :: (storedFiles site).flatMap (itemTokens site.opts))

def stateDocument (site : Site) : Document where
  encoding := ascii "ISO-8859-1"
  rootName := Elm.sitestate.name
  rootAttrs := [(ascii "version", ascii "1.0")]
  body := List.flatten [[.text [10]], optionsTokens site.opts, itemsTokens site, [.text [10]],
    [.stop Elm.sitestate.name]]

/-! ### Rendering -/

lemma render_leaf {e : Elm} {before after : Text} (t : Text)
    (hb : before = (Token.start e.name []).render) (ha : after = (Token.stop e.name).render) :
    before ++ t ++ after = (leaf e t).flatMap Token.render := by
  rw [hb, ha]
  simp [leaf, element, Token.render]

lemma writeType_render (type : FileType) :
    writeType type = (flag .type (typeElm type)).flatMap Token.render := by
  cases type <;> decide

lemma writeMode_render (mode : UInt32) :
    writeMode mode = (modeTokens mode).flatMap Token.render := by
  unfold writeMode modeTokens
  split_ifs
  · exact render_leaf _ (by decide) (by decide)
  · rfl

lemma writeMethod_render (o : SiteOptions) (s : FileState) :
    writeMethod o s = (methodTokens o s).flatMap Token.render := by
  unfold writeMethod methodTokens
  cases o.stateMethod with
  | checksum => exact render_leaf _ (by decide) (by decide)
  | timesize => exact render_leaf _ (by decide) (by decide)

lemma writeServer_render (server : FileState) :
    writeServer server = (serverTokens server).flatMap Token.render := by
  unfold writeServer serverTokens
  split_ifs
  · exact render_leaf _ (by decide) (by decide)
  · rfl

lemma writeAscii_render (b : Bool) :
    ascii "<ascii>" ++ (if b then ascii "<true/>" else ascii "<false/>") ++ ascii "</ascii>" =
      (flag .ascii (if b then .true else .false)).flatMap Token.render := by
  cases b <;> decide

lemma writeFields_render (o : SiteOptions) (f : SiteFile) :
    writeFields o f = (fieldTokens o f).flatMap Token.render := by
  unfold writeFields fieldTokens
  cases f.type with
  | dir => rfl
  | link => exact render_leaf _ (by decide) (by decide)
  | file =>
    have hsize : ascii "<size>" ++ printInt f.storedState.size ++ ascii "</size>" =
        (leaf .size (printInt f.storedState.size)).flatMap Token.render :=
      render_leaf _ (by decide) (by decide)
    have hascii := writeAscii_render f.storedState.ascii
    simp only [List.flatMap_append]
    rw [← hsize, ← hascii, ← writeMethod_render, ← writeServer_render]
    simp only [List.append_assoc]

lemma writeName_render (filename : Option Text) :
    writeName filename = (nameTokens filename).flatMap Token.render := by
  have hend : ascii "</filename>\n" = ascii "</filename>" ++ [10] := by decide
  have hleaf : ascii "<filename>" ++ fnEscape (filename.getD []) ++ ascii "</filename>" =
      (leaf .filename (fnEscape (filename.getD []))).flatMap Token.render :=
    render_leaf _ (by decide) (by decide)
  unfold writeName nameTokens
  rw [hend, List.flatMap_append, ← hleaf, ← List.append_assoc]
  rfl

lemma writeItem_render (o : SiteOptions) (f : SiteFile) :
    writeItem o f = (itemTokens o f).flatMap Token.render := by
  have hopen : ascii "<item>" = [Token.start Elm.item.name []].flatMap Token.render := by decide
  have hclose : ascii "</item>\n" = [Token.stop Elm.item.name].flatMap Token.render ++
      [Token.text [10]].flatMap Token.render := by decide
  unfold writeItem itemTokens element
  simp only [List.flatten_cons, List.flatten_nil, List.flatMap_append, List.append_nil]
  rw [hopen, hclose, writeType_render, writeName_render, writeMode_render, writeFields_render]
  simp only [List.append_assoc]

lemma writeItems_render (o : SiteOptions) (l : List SiteFile) :
    l.flatMap (writeItem o) = (l.flatMap (itemTokens o)).flatMap Token.render := by
  induction l with
  | nil => rfl
  | cons f l ih =>
    rw [List.flatMap_cons, ih, List.flatMap_cons, List.flatMap_append, writeItem_render]

lemma writeOptions_render (o : SiteOptions) :
    writeOptions o = (optionsTokens o).flatMap Token.render := by
  have hopen : ascii "<options>\n" =
      [Token.start Elm.options.name [], .text [10]].flatMap Token.render := by decide
  have hsaved : ascii " <saved-by package='sitecopy' version='0.16.3'/>\n" =
      (optionLine true [.empty Elm.opt_saved_by.name
        [(ascii "package", ascii "sitecopy"), (ascii "version", ascii "0.16.3")]]).flatMap
          Token.render := by
    rw [ascii_ofList]
    rfl
  have hchecksum : (if o.stateMethod = .checksum then
        ascii " <checksum-algorithm><checksum-MD5/></checksum-algorithm>\n" else []) =
      (optionLine (o.stateMethod = .checksum) (flag .opt_checksum .opt_checksum_md5)).flatMap
        Token.render := by
    rw [ascii_ofList]
    cases o.stateMethod <;> rfl
  have hmethod : ascii " <state-method><state-" ++ methodName o.stateMethod ++
        ascii "/></state-method>\n" =
      (optionLine true (flag .opt_state_method (methodElm o.stateMethod))).flatMap
        Token.render := by
    cases o.stateMethod <;> decide
  have hsafe : (if o.safemode then ascii " <safemode/>\n" else []) =
      (optionLine o.safemode [.empty (ascii "safemode") []]).flatMap Token.render := by
    cases o.safemode <;> decide
  have hescaped : ascii " <escaped-filenames/>\n" =
      (optionLine true [.empty (ascii "escaped-filenames") []]).flatMap Token.render := by decide
  have hclose : ascii "</options>\n" =
      [Token.stop Elm.options.name, .text [10]].flatMap Token.render := by decide
  unfold writeOptions optionsTokens element
  rw [List.append_assoc _ _ (methodName _), List.append_assoc _ (_ ++ methodName _), hopen, hsaved,
    hchecksum, hmethod, hsafe, hescaped, hclose]
  simp

/-- The file is the rendering of `stateDocument`. -/
theorem siteWriteStoredState_render (site : Site) :
    (siteWriteStoredState site).1 = (stateDocument site).render := by
  have hdecl : ascii "<?xml version=\"1.0\" encoding=\"ISO-8859-1\"?>\n" =
      declaration (ascii "ISO-8859-1") := by decide
  have hroot : ascii "<sitestate version='1.0'>\n" =
      [Token.start Elm.sitestate.name [(ascii "version", ascii "1.0")], .text [10]].flatMap
        Token.render := by decide
  have hitems : ascii "<items>\n" =
      [Token.start Elm.items.name [], .text [10]].flatMap Token.render := by decide
  have hend : ascii "</items>\n" ++ ascii "</sitestate>\n" =
      [Token.stop Elm.items.name, .text [10], .stop Elm.sitestate.name].flatMap Token.render ++
        [10] := by decide
  unfold siteWriteStoredState Document.render Document.tokens stateDocument itemsTokens element
  rw [hdecl, hroot, writeOptions_render, hitems, writeItems_render, List.append_assoc _ _ (ascii _),
    hend]
  simp only [List.flatten_cons, List.flatten_nil, List.flatMap_append, List.flatMap_cons,
    List.flatMap_nil, List.append_assoc, List.append_nil, List.cons_append, List.nil_append]

/-! ### Well-formedness -/

/-- The stored entries that the format can hold: a proper name, and numbers within their
types. `readTime` takes the ends of `long` for an overflow. -/
structure Storable (m : DataModel) (f : SiteFile) : Prop where
  name : ∃ n, f.storedState.filename = some n ∧ n ≠ [] ∧ 0 ∉ n
  size : f.type = .file → LONG_MIN m ≤ f.storedState.size ∧ f.storedState.size ≤ LONG_MAX m
  time : f.type = .file → LONG_MIN m < f.storedState.time ∧ f.storedState.time < LONG_MAX m
  serverTime : f.type = .file → f.serverState.existing = true →
    LONG_MIN m < f.serverState.time ∧ f.serverState.time < LONG_MAX m
  /-- link targets are written as they are -/
  target : f.type = .link → ∃ t, f.storedState.linktarget = some t ∧ t.all isTextByte = true

/-- Link targets are written as they are; this one is plain text. -/
def PlainTarget (f : SiteFile) : Prop :=
  f.type = .link → (f.storedState.linktarget.getD []).all isTextByte = true

lemma Storable.plainTarget {m : DataModel} {f : SiteFile} (h : Storable m f) : PlainTarget f := by
  intro ht
  obtain ⟨t, htarget, hplain⟩ := h.target ht
  rw [htarget]
  exact hplain

/-- What reading relies on. The link target is any text here, as the parser reported it. -/
structure Recordable (m : DataModel) (f : SiteFile) : Prop where
  name : ∃ n, f.storedState.filename = some n ∧ n ≠ [] ∧ 0 ∉ n
  size : f.type = .file → LONG_MIN m ≤ f.storedState.size ∧ f.storedState.size ≤ LONG_MAX m
  time : f.type = .file → LONG_MIN m < f.storedState.time ∧ f.storedState.time < LONG_MAX m
  serverTime : f.type = .file → f.serverState.existing = true →
    LONG_MIN m < f.serverState.time ∧ f.serverState.time < LONG_MAX m
  target : f.type = .link → ∃ t, f.storedState.linktarget = some t

lemma Storable.recordable {m : DataModel} {f : SiteFile} (h : Storable m f) : Recordable m f where
  name := h.name
  size := h.size
  time := h.time
  serverTime := h.serverTime
  target ht := (h.target ht).imp fun _ => And.left

lemma name_isName (e : Elm) : isName e.name = true := by
  cases e <;> decide

lemma isTextByte_digit {d : ℕ} (hd : d < 16) : isTextByte (digitByte d) = true := by
  interval_cases d <;> decide

lemma hexPair_plain (c : UInt8) : (hexPair c).all isTextByte = true := by
  have hc : c.toNat < 256 := c.toNat_lt
  simp only [hexPair, List.all_cons, List.all_nil, Bool.and_true, Bool.and_eq_true]
  exact ⟨isTextByte_digit (by omega), isTextByte_digit (by omega)⟩

lemma isTextByte_of_isDigit (c : UInt8) (h : isDigit 10 c = true) : isTextByte c = true := by
  simp only [isDigit, Bool.and_eq_true, decide_eq_true_eq] at h
  simp [isTextByte, UInt8.le_iff_toNat_le, ← UInt8.toNat_inj]
  omega

lemma printNat_plain {b : ℕ} (hb : 1 < b) (hb' : b ≤ 10) (n : ℕ) :
    (printNat b n).all isTextByte = true := by
  rw [List.all_eq_true]
  intro c hc
  have hdigit := printNat_digits hb hb' n c hc
  refine isTextByte_of_isDigit c ?_
  simp only [isDigit, Bool.and_eq_true, decide_eq_true_eq] at hdigit ⊢
  omega

lemma printInt_plain (z : ℤ) : (printInt z).all isTextByte = true := by
  unfold printInt
  split_ifs
  · rw [List.all_cons, printNat_plain (by decide) (by decide)]
    decide
  · exact printNat_plain (by decide) (by decide) _

lemma padZeros_plain (w : ℕ) {t : Text} (ht : t.all isTextByte = true) :
    (padZeros w t).all isTextByte = true := by
  unfold padZeros
  rw [List.all_append, ht, Bool.and_true, List.all_eq_true]
  intro c hc
  rw [List.eq_of_mem_replicate hc]
  decide

lemma md5ToAscii_plain (c : Checksum) : (md5ToAscii c).all isTextByte = true := by
  unfold md5ToAscii
  rw [List.all_flatMap, List.all_eq_true]
  exact fun b _ => hexPair_plain b

lemma escapeByte_plain (c : UInt8) : (escapeByte c).all isTextByte = true := by
  unfold escapeByte
  split_ifs with h
  · rw [List.all_cons, hexPair_plain]
    decide
  · simp [isalnum, slash, dot, UInt8.le_iff_toNat_le, ← UInt8.toNat_inj] at h
    simp [isTextByte, UInt8.le_iff_toNat_le, ← UInt8.toNat_inj]
    omega

lemma fnEscape_plain (n : Text) : (fnEscape n).all isTextByte = true := by
  unfold fnEscape
  rw [List.all_flatMap, List.all_eq_true]
  exact fun c _ => escapeByte_plain c

section WellFormed
variable {m : DataModel} {o : SiteOptions} {f : SiteFile}

lemma element_plain (e : Elm) {ts : List Token} (h : ts.all Token.plain = true) :
    (element e ts).all Token.plain = true := by
  simp only [element, List.all_append, List.all_cons, List.all_nil, Token.plain, name_isName, h,
    Bool.and_self]

lemma element_closed (e : Elm) {ts : List Token} (h : Closed ts) : Closed (element e ts) :=
  h.element e.name []

lemma leaf_plain (e : Elm) {t : Text} (ht : t.all isTextByte = true) :
    (leaf e t).all Token.plain = true :=
  element_plain e (by simpa [Token.plain] using ht)

lemma flag_plain (e inner : Elm) : (flag e inner).all Token.plain = true :=
  element_plain e (by simp [Token.plain, name_isName])

lemma leaf_closed (e : Elm) (t : Text) : Closed (leaf e t) := element_closed e (closed_text t)

lemma flag_closed (e inner : Elm) : Closed (flag e inner) :=
  element_closed e (closed_empty inner.name [])

lemma modeTokens_wf (mode : UInt32) :
    (modeTokens mode).all Token.plain = true ∧ Closed (modeTokens mode) := by
  unfold modeTokens
  split_ifs
  · exact ⟨leaf_plain _ (padZeros_plain 3 (printNat_plain (by decide) (by decide) _)),
      leaf_closed _ _⟩
  · exact ⟨rfl, closed_nil⟩

lemma methodTokens_wf (s : FileState) :
    (methodTokens o s).all Token.plain = true ∧ Closed (methodTokens o s) := by
  unfold methodTokens
  cases o.stateMethod with
  | checksum => exact ⟨leaf_plain _ (md5ToAscii_plain _), leaf_closed _ _⟩
  | timesize => exact ⟨leaf_plain _ (printInt_plain _), leaf_closed _ _⟩

lemma serverTokens_wf (server : FileState) :
    (serverTokens server).all Token.plain = true ∧ Closed (serverTokens server) := by
  unfold serverTokens
  split_ifs
  · exact ⟨leaf_plain _ (printInt_plain _), leaf_closed _ _⟩
  · exact ⟨rfl, closed_nil⟩

lemma fieldTokens_plain (h : PlainTarget f) : (fieldTokens o f).all Token.plain = true := by
  unfold fieldTokens
  cases ht : f.type with
  | dir => rfl
  | link => exact leaf_plain _ (h ht)
  | file =>
    simp only [List.all_append, leaf_plain _ (printInt_plain _), methodTokens_wf, flag_plain,
      serverTokens_wf, Bool.and_self]

lemma fieldTokens_closed (o : SiteOptions) (f : SiteFile) : Closed (fieldTokens o f) := by
  unfold fieldTokens
  cases f.type with
  | dir => exact closed_nil
  | link => exact leaf_closed _ _
  | file =>
    exact (((leaf_closed _ _).append (methodTokens_wf _).2).append (flag_closed _ _)).append
      (serverTokens_wf _).2

lemma newline_plain : [Token.text [10]].all Token.plain = true := by decide

lemma nameTokens_plain (filename : Option Text) :
    (nameTokens filename).all Token.plain = true := by
  rw [nameTokens, List.all_append, leaf_plain _ (fnEscape_plain _), newline_plain]
  rfl

lemma itemTokens_plain (h : PlainTarget f) : (itemTokens o f).all Token.plain = true := by
  unfold itemTokens
  rw [List.all_append, newline_plain, element_plain]
  · rfl
  · simp only [List.flatten_cons, List.flatten_nil, List.all_append, flag_plain, nameTokens_plain,
      modeTokens_wf, fieldTokens_plain h, List.all_nil, Bool.and_self]

lemma itemTokens_closed (o : SiteOptions) (f : SiteFile) : Closed (itemTokens o f) := by
  unfold itemTokens
  apply (element_closed _ (Closed.flatten _)).append (closed_text _)
  intro ts hts
  simp only [List.mem_cons, List.not_mem_nil, or_false] at hts
  rcases hts with rfl | rfl | rfl | rfl
  · exact flag_closed _ _
  · exact (leaf_closed _ _).append (closed_text _)
  · exact (modeTokens_wf _).2
  · exact fieldTokens_closed o f

lemma optionLine_closed (b : Bool) {line : List Token} (h : Closed line) :
    Closed (optionLine b line) := by
  unfold optionLine
  split_ifs
  · refine Closed.flatten fun ts hts => ?_
    simp only [List.mem_cons, List.not_mem_nil, or_false] at hts
    rcases hts with rfl | rfl | rfl
    · exact closed_text _
    · exact h
    · exact closed_text _
  · exact closed_nil

lemma optionLine_plain (b : Bool) {line : List Token} (h : line.all Token.plain = true) :
    (optionLine b line).all Token.plain = true := by
  have hspace : [Token.text (ascii " ")].all Token.plain = true := by decide
  unfold optionLine
  split_ifs
  · simp only [List.flatten_cons, List.flatten_nil, List.all_append, hspace, h, newline_plain,
      List.all_nil, Bool.and_self]
  · rfl

lemma optionsTokens_wf (o : SiteOptions) :
    (optionsTokens o).all Token.plain = true ∧ Closed (optionsTokens o) := by
  have hsaved : [Token.empty Elm.opt_saved_by.name [(ascii "package", ascii "sitecopy"),
      (ascii "version", ascii "0.16.3")]].all Token.plain = true := by decide
  have hsafemode : [Token.empty (ascii "safemode") []].all Token.plain = true := by decide
  have hescaped : [Token.empty (ascii "escaped-filenames") []].all Token.plain = true := by decide
  unfold optionsTokens
  constructor
  · rw [List.all_append, newline_plain, Bool.and_true]
    apply element_plain
    simp only [List.flatten_cons, List.flatten_nil, List.all_append, List.all_nil, newline_plain,
      optionLine_plain, flag_plain, hsaved, hsafemode, hescaped, Bool.and_self]
  · refine (element_closed _ (Closed.flatten fun ts hts => ?_)).append (closed_text _)
    simp only [List.mem_cons, List.not_mem_nil, or_false] at hts
    rcases hts with rfl | rfl | rfl | rfl | rfl | rfl
    · exact closed_text _
    · exact optionLine_closed _ (closed_empty _ _)
    · exact optionLine_closed _ (flag_closed _ _)
    · exact optionLine_closed _ (flag_closed _ _)
    · exact optionLine_closed _ (closed_empty _ _)
    · exact optionLine_closed _ (closed_empty _ _)

end WellFormed

lemma itemsTokens_closed (site : Site) : Closed (itemsTokens site) := by
  have hitems : Closed ((storedFiles site).flatMap (itemTokens site.opts)) := by
    rw [List.flatMap_def]
    apply Closed.flatten
    intro ts hts
    obtain ⟨f, _, rfl⟩ := List.mem_map.mp hts
    exact itemTokens_closed _ f
  exact element_closed .items ((closed_text [10]).append hitems)

lemma itemsTokens_plain {site : Site} (h : ∀ f ∈ storedFiles site, PlainTarget f) :
    (itemsTokens site).all Token.plain = true := by
  apply element_plain .items
  rw [List.all_cons, List.all_flatMap, Bool.and_eq_true]
  exact ⟨by decide, List.all_eq_true.mpr fun f hf => itemTokens_plain (h f hf)⟩

/-- The elements of the written file are nested whatever the link targets are. -/
lemma stateDocument_balanced (site : Site) :
    balanced [(stateDocument site).rootName] (stateDocument site).body = true := by
  have hbody : Closed (List.flatten [[.text [10]], optionsTokens site.opts, itemsTokens site,
      [.text [10]]]) := by
    apply Closed.flatten
    intro ts hts
    simp only [List.mem_cons, List.not_mem_nil, or_false] at hts
    rcases hts with rfl | rfl | rfl | rfl
    · exact closed_text _
    · exact (optionsTokens_wf _).2
    · exact itemsTokens_closed site
    · exact closed_text _
  have happ : (stateDocument site).body = List.flatten [[.text [10]], optionsTokens site.opts,
      itemsTokens site, [.text [10]]] ++ [.stop Elm.sitestate.name] := by
    simp [stateDocument]
  rw [happ, hbody]
  simp [balanced, stateDocument]

/-- The written file is well-formed XML when no link target contains markup. -/
theorem stateDocument_wellFormed {site : Site} (h : ∀ f ∈ storedFiles site, PlainTarget f) :
    (stateDocument site).WellFormed where
  encoding := show (ascii "ISO-8859-1").all isNameByte = true by decide
  plain := by
    have hroot : Token.plain (.start Elm.sitestate.name [(ascii "version", ascii "1.0")]) = true := by
      decide
    have hend : [Token.stop Elm.sitestate.name].all Token.plain = true := by decide
    unfold Document.tokens stateDocument
    rw [List.all_cons, hroot]
    simp only [List.flatten_cons, List.flatten_nil, List.all_append, newline_plain,
      optionsTokens_wf, itemsTokens_plain h, hend, List.all_nil, Bool.and_self]
  balanced := stateDocument_balanced site

end Sitecopy.StateFile
