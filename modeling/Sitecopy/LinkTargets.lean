import Sitecopy.Latin1Text
import Sitecopy.StateFileNames

/-!
# Link targets in the state file

`site_write_stored_state` puts the bytes of a link target between the tags as they are,
in a document that is declared to be in ISO-8859-1.
-/
namespace Sitecopy.StateFile
open SiteModel FileSet Xml

/-! ### The written document -/

def linkTarget (f : SiteFile) : Text := f.storedState.linktarget.getD []

/-- The target begins neither markup nor a reference. -/
def RawTarget (f : SiteFile) : Prop := f.type = .link → (linkTarget f).all isRawByte = true

def legalTarget (f : SiteFile) : Bool := f.type ≠ .link || legalText (linkTarget f)

section Document
variable {o : SiteOptions} {f : SiteFile}

/-- An item of a link is reported with the decoded target. -/
lemma reported_item (h : RawTarget f) :
    Reported (itemTokens o f) (itemTokens o (retarget decode f)) (legalTarget f) := by
  by_cases ht : f.type = .link
  · have hleaf : Reported (leaf .linktarget (linkTarget f))
        (leaf .linktarget (decode (linkTarget f))) (legalText (linkTarget f)) :=
      .leaf (name_isName .linktarget) (h ht)
    have hbefore : (flag .type .type_link ++ nameTokens f.storedState.filename ++
        modeTokens f.storedState.mode).all Token.plain = true := by
      simp only [List.all_append, flag_plain, nameTokens_plain, modeTokens_wf, Bool.and_self]
    have hopen : [Token.start Elm.item.name []].all Token.plain = true := by decide
    have hclose : [Token.stop Elm.item.name, .text [10]].all Token.plain = true := by decide
    have hitem := (((Reported.plain hopen).append (.plain hbefore)).append hleaf).append
      (.plain hclose)
    have hshape : ∀ t : Text, [Token.start Elm.item.name []] ++ (flag .type .type_link ++
        nameTokens f.storedState.filename ++ modeTokens f.storedState.mode) ++ leaf .linktarget t ++
        [.stop Elm.item.name, .text [10]] =
      itemTokens o { f with storedState := { f.storedState with linktarget := some t } } := by
      intro t
      simp [itemTokens, fieldTokens, element, ht, typeElm]
    rw [hshape, hshape] at hitem
    simpa [legalTarget, ht, itemTokens, fieldTokens, retarget, linkTarget] using hitem
  · have hplain : PlainTarget f := fun hl => absurd hl ht
    have hsame : itemTokens o (retarget decode f) = itemTokens o f := by
      cases hf : f.type with
      | link => exact absurd hf ht
      | file | dir => simp [itemTokens, fieldTokens, retarget, hf, methodTokens]
    have hok : legalTarget f = true := by simp [legalTarget, ht]
    rw [hsame, hok]
    exact .plain (itemTokens_plain hplain)

lemma reported_items (l : List SiteFile) (h : ∀ f ∈ l, RawTarget f) :
    Reported (l.flatMap (itemTokens o)) ((l.map (retarget decode)).flatMap (itemTokens o))
      (l.all legalTarget) := by
  induction l with
  | nil => exact .nil
  | cons f l ih =>
    exact (reported_item (h f List.mem_cons_self)).append
      (ih fun g hg => h g (List.mem_cons_of_mem f hg))

variable {site : Site}

/-- The whole document is reported with decoded targets. -/
lemma reported_document (h : ∀ f ∈ storedFiles site, RawTarget f) :
    Reported (stateDocument site).tokens (stateDocument (retargeted decode site)).tokens
      ((storedFiles site).all legalTarget) := by
  have hbefore : (openingTokens site.opts).all Token.plain = true := by
    have hroot : [Token.start Elm.sitestate.name
        [(ascii "version", ascii "1.0")]].all Token.plain = true := by decide
    have hitems : [Token.start Elm.items.name []].all Token.plain = true := by decide
    unfold openingTokens
    simp only [List.all_append, hroot, newline_plain, optionsTokens_wf, hitems, Bool.and_self]
  have hafter : closingTokens.all Token.plain = true := by decide
  have hdoc := ((Reported.plain hbefore).append
    (reported_items (o := site.opts) _ h)).append (.plain hafter)
  rw [stateDocument_tokens, stateDocument_tokens, storedFiles_retargeted]
  rw [Bool.true_and, Bool.and_true] at hdoc
  exact hdoc

lemma stateDocument_raw (h : ∀ f ∈ storedFiles site, RawTarget f) : (stateDocument site).Raw where
  encoding := show (ascii "ISO-8859-1").all isNameByte = true by decide
  raw := (reported_document h).raw
  balanced := stateDocument_balanced site

end Document

/-! ### What comes back of the links -/

/-- The name and the target of a link. -/
def linkRecord (f : SiteFile) : Option Text × Option Text :=
  (f.storedState.filename, f.storedState.linktarget)

def linkRecords (files : List SiteFile) : Multiset (Option Text × Option Text) :=
  ((files.filter fun f => f.type = .link).map linkRecord : List _)

/-- The written file is well-formed, and reading it gives every link its name and target. -/
def LinksKept (P : Xml.Parser) (m : DataModel) (site dest : Site) : Prop :=
  (readBack P m site dest).lastError = none ∧
    linkRecords (readBack P m site dest).site.files = linkRecords (storedFiles site)

section Reading
variable {P : Latin1Parser} {m : DataModel} {site dest : Site}

/-- The links of a list are a matter of its items. -/
lemma linkRecords_items (method : StateMethod) {files l : List SiteFile}
    (h : (files.map (item method)).Perm (l.map (item method))) :
    linkRecords files = linkRecords l := by
  have hlinks : ∀ l : List SiteFile, (l.filter fun f => f.type = .link).map linkRecord =
      ((l.map (item method)).filter fun i => i.type = .link).map fun i => (i.filename, i.target) := by
    intro l
    rw [List.filter_map, List.map_map]
    apply List.map_congr_left
    intro f hf
    have ht : f.type = .link := of_decide_eq_true (List.mem_filter.mp hf).2
    simp [linkRecord, item, itemOf, ht]
  unfold linkRecords
  rw [hlinks, hlinks]
  exact Multiset.coe_eq_coe.mpr ((h.filter _).map _)

/-- A file whose targets are not markup is accepted if they are legal, and then its links have
the decoded targets. -/
lemma linksKept_raw (h : ∀ f ∈ storedFiles site, Recordable m f) (hempty : dest.files = [])
    (hraw : ∀ f ∈ storedFiles site, RawTarget f) :
    LinksKept P.toParser m site dest ↔ (∀ f ∈ storedFiles site, legalTarget f = true) ∧
      linkRecords ((storedFiles site).map (retarget decode)) = linkRecords (storedFiles site) := by
  obtain ⟨hdecoded, hlegal⟩ := (reported_document hraw).events
  have hdoc := stateDocument_raw hraw
  have haccept := P.legal _ hdoc rfl
  rw [hlegal, ← siteWriteStoredState_render] at haccept
  cases hok : (storedFiles site).all legalTarget with
  | false =>
    rw [hok] at haccept
    constructor
    · rintro ⟨herror, _⟩
      unfold readBack parseStorageFile at herror
      dsimp only at herror
      rw [haccept] at herror
      split at herror <;> cases herror
    · rintro ⟨hall, _⟩
      rw [List.all_eq_true.mpr hall] at hok
      cases hok
  | true =>
    rw [hok] at haccept
    have hdelivers := P.decodes _ hdoc rfl (by rw [← siteWriteStoredState_render]; exact haccept)
    rw [hdecoded, ← siteWriteStoredState_render] at hdelivers
    have hrecordable : ∀ f ∈ storedFiles (retargeted decode site), Recordable m f := by
      rw [storedFiles_retargeted]
      intro g hg
      obtain ⟨f, hf, rfl⟩ := List.mem_map.mp hg
      exact ⟨(h f hf).name, (h f hf).size, (h f hf).time, (h f hf).serverTime, fun _ => ⟨_, rfl⟩⟩
    obtain ⟨herror, _, hview⟩ := parsed_view haccept hdelivers hrecordable hempty
    have hitems := arranged_items hview
    rw [storedFiles_retargeted] at hitems
    have hlinks : linkRecords (readBack P.toParser m site dest).site.files =
        linkRecords ((storedFiles site).map (retarget decode)) := by
      apply linkRecords_items site.opts.stateMethod
      have hread : (readBack P.toParser m site dest).site.files.map (item site.opts.stateMethod) =
        _ := hitems
      rw [hread]
      exact (arrange_perm _ _).map _
    unfold LinksKept
    rw [hlinks]
    exact ⟨fun hkept => ⟨List.all_eq_true.mp hok, hkept.2⟩, fun hkept => ⟨herror, hkept.2⟩⟩

/-! ### Safe targets -/

/-- The bytes that stand for themselves. -/
def isTargetByte (c : UInt8) : Bool :=
  (c = 9 || c = 10 || 32 ≤ c) && c < 128 && c ≠ 60 && c ≠ 38

/-- ASCII text without control characters, `<`, `&` and `]]>`. -/
def SafeTarget (t : Text) : Prop := (∀ c ∈ t, isTargetByte c = true) ∧ ¬ sectionEnd <:+: t

lemma isTargetByte_iff (c : UInt8) : isTargetByte c = true ↔
    (isRawByte c = true ∧ isChar c = true) ∧ isHigh c = false ∧ c ≠ 13 := by
  simp only [isTargetByte, isRawByte, isChar, isHigh, Bool.and_eq_true, Bool.or_eq_true,
    decide_eq_true_eq, decide_eq_false_iff_not, ne_eq, UInt8.le_iff_toNat_le,
    UInt8.lt_iff_toNat_lt, ← UInt8.toNat_inj, UInt8.reduceToNat]
  omega

lemma safeTarget_iff (t : Text) :
    SafeTarget t ↔ (t.all isRawByte = true ∧ legalText t = true) ∧
      ∀ c ∈ t, isHigh c = false ∧ c ≠ 13 := by
  simp only [SafeTarget, isTargetByte_iff, legalText_iff, List.all_eq_true, forall_and]
  tauto

/-- Targets of which two lists agree after the decoding of one are not changed by it. -/
lemma ascii_of_decoded {l : List SiteFile} (htarget : ∀ f ∈ l, f.type = .link →
      f.storedState.linktarget = some (linkTarget f))
    (h : linkRecords (l.map (retarget decode)) = linkRecords l) :
    ∀ f ∈ l, f.type = .link → ∀ c ∈ linkTarget f, isHigh c = false ∧ c ≠ 13 := by
  have hlinks : linkRecords (l.map (retarget decode)) =
      ((l.filter fun f => f.type = .link).map fun f =>
        (f.storedState.filename, some (decode (linkTarget f))) : List _) := by
    rw [linkRecords, List.filter_map, List.map_map]
    rfl
  have hmem : ∀ f ∈ l, f.type = .link → f ∈ l.filter fun f => f.type = .link :=
    fun f hf ht => List.mem_filter.mpr ⟨hf, decide_eq_true ht⟩
  rw [hlinks, linkRecords] at h
  -- the number of high bytes doubles, and stays the same
  have hsum := congrArg (fun s => (Multiset.map (fun p : Option Text × Option Text =>
    (p.2.getD []).countP isHigh) s).sum) h
  simp only [Multiset.map_coe, Multiset.sum_coe, List.map_map, Function.comp_def, linkRecord,
    Option.getD_some, decode, countP_decode] at hsum
  rw [List.sum_map_mul_left] at hsum
  have hzero : ((l.filter fun f => f.type = .link).map fun f =>
      (linkTarget f).countP isHigh).sum = 0 := by
    unfold linkTarget at hsum ⊢
    omega
  intro f hf ht c hc
  constructor
  · have hcount := List.sum_eq_zero_iff.mp hzero _ (List.mem_map_of_mem (hmem f hf ht))
    exact Bool.eq_false_of_not_eq_true (List.countP_eq_zero.mp hcount c hc)
  · rintro rfl
    have hrecord : linkRecord f ∈ (l.filter fun f => f.type = .link).map fun f =>
        (f.storedState.filename, some (decode (linkTarget f))) := by
      rw [← Multiset.mem_coe, h]
      exact List.mem_map_of_mem (hmem f hf ht)
    obtain ⟨g, _, hg⟩ := List.mem_map.mp hrecord
    have hdecoded : decode (linkTarget g) = linkTarget f :=
      Option.some.inj ((congrArg Prod.snd hg).trans (htarget f hf ht))
    rw [← hdecoded] at hc
    exact return_notMem_decode false _ hc

/-- Safe targets come back. A file in which no target contains markup, but some target is not
safe, is rejected or gives back other targets. -/
theorem linksKept_safe (P : Latin1Parser) {m : DataModel} {site dest : Site}
    (h : ∀ f ∈ storedFiles site, Recordable m f) (hempty : dest.files = []) :
    ((∀ f ∈ storedFiles site, f.type = .link → SafeTarget (linkTarget f)) →
      LinksKept P.toParser m site dest) ∧
    ((∀ f ∈ storedFiles site, RawTarget f) → LinksKept P.toParser m site dest →
      ∀ f ∈ storedFiles site, f.type = .link → SafeTarget (linkTarget f)) := by
  have htarget : ∀ f ∈ storedFiles site, f.type = .link →
      f.storedState.linktarget = some (linkTarget f) := by
    intro f hf ht
    obtain ⟨t, hlink⟩ := (h f hf).target ht
    rw [linkTarget, hlink, Option.getD_some]
  constructor
  · intro hsafe
    have hparts := fun f hf ht => (safeTarget_iff _).mp (hsafe f hf ht)
    refine (linksKept_raw h hempty fun f hf ht => (hparts f hf ht).1.1).mpr ⟨fun f hf => ?_, ?_⟩
    · by_cases ht : f.type = .link
      · simp [legalTarget, (hparts f hf ht).1.2]
      · simp [legalTarget, ht]
    · rw [linkRecords, List.filter_map, List.map_map]
      congr 1
      apply List.map_congr_left
      intro f hf
      obtain ⟨hf, ht⟩ := List.mem_filter.mp hf
      have ht' := of_decide_eq_true ht
      have hself : decode (linkTarget f) = linkTarget f := decode_ascii (hparts f hf ht').2
      simp only [Function.comp_apply, linkRecord, retarget, htarget f hf ht']
      exact congrArg (fun t => (f.storedState.filename, some t)) hself
  · intro hraw hkept f hf ht
    obtain ⟨hlegal, hrecords⟩ := (linksKept_raw h hempty hraw).mp hkept
    refine (safeTarget_iff _).mpr ⟨⟨hraw f hf ht, ?_⟩, ascii_of_decoded htarget hrecords f hf ht⟩
    have hok := hlegal f hf
    simpa [legalTarget, ht] using hok

end Reading

/-! ### A target that is not ASCII -/

/-- A stored link with this target. -/
def linkSite (target : Text) : Site where
  opts := { symlinks := .maintain, protocol := .sftp }
  files := [{
    addr := 0
    diff := .deleted
    type := .link
    storedState := { filename := some (ascii "l"), existing := true, linktarget := some target } }]
  stats := { numdeleted := 1, remoteIsDifferent := true, localIsDifferent := true }
  freshAddr := 1

lemma linkSite_recordable (target : Text) :
    ∀ f ∈ storedFiles (linkSite target), Recordable .lp64 f := by
  intro f hf
  obtain rfl := List.mem_singleton.mp (List.mem_filter.mp hf).1
  exact ⟨⟨_, rfl, by decide, by decide⟩, by simp, by simp, by simp, fun _ => ⟨_, rfl⟩⟩

theorem linksKept_safe_ascii :
    ((∀ f ∈ storedFiles (linkSite (ascii "a>b")), f.type = .link → SafeTarget (linkTarget f)) →
      LinksKept latin1Scanner.toParser .lp64 (linkSite (ascii "a>b")) { opts := {} }) ∧
    ((∀ f ∈ storedFiles (linkSite (ascii "a>b")), RawTarget f) →
      LinksKept latin1Scanner.toParser .lp64 (linkSite (ascii "a>b")) { opts := {} } →
      ∀ f ∈ storedFiles (linkSite (ascii "a>b")), f.type = .link → SafeTarget (linkTarget f)) :=
  linksKept_safe latin1Scanner (linkSite_recordable _) rfl

/-- The byte `0xe9` comes back as two bytes. -/
theorem high_target_changed :
    rcfileVerify (linkSite [0xe9]).opts = .ok () ∧
      ¬ LinksKept latin1Scanner.toParser .lp64 (linkSite [0xe9]) { opts := {} } := by
  refine ⟨rfl, fun h => ?_⟩
  have hmem : storedFiles (linkSite [0xe9]) = (linkSite [0xe9]).files := rfl
  have hraw : ∀ f ∈ storedFiles (linkSite [0xe9]), RawTarget f := by
    rw [hmem]
    intro f hf _
    obtain rfl := List.mem_singleton.mp hf
    decide
  have hrecords := ((linksKept_raw (linkSite_recordable _) rfl hraw).mp h).2
  have hascii := ascii_of_decoded (l := storedFiles (linkSite [0xe9])) (by
    rw [hmem]
    intro f hf _
    obtain rfl := List.mem_singleton.mp hf
    rfl) hrecords
  rw [hmem] at hascii
  exact absurd (hascii _ (List.mem_singleton_self _) rfl 0xe9 (List.mem_singleton_self _)).1
    (by decide)

end Sitecopy.StateFile
