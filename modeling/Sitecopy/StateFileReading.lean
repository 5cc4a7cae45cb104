import Sitecopy.StateFileDocument
import Sitecopy.FileSetSpec

/-!
# Reading the stored state file

The codecs of the fields are inverse to those of the writer. `Reads` says what the
events of some tokens do to the accumulator, whatever elements are open around them;
the lemmas follow the tokens of one item.
-/
namespace Sitecopy.StateFile
open SiteModel FileSet FileSetSpec Numerals Xml

/-! ### Codecs -/

lemma unescapeBytes_cons {c : UInt8} (h : c ≠ 37) (rest : Text) :
    unescapeBytes (c :: rest) = c :: unescapeBytes rest := by
  conv_lhs => unfold unescapeBytes
  simp [h]

lemma unescapeBytes_escape (c : UInt8) (rest : Text) :
    unescapeBytes (escapeByte c ++ rest) = c :: unescapeBytes rest := by
  unfold escapeByte
  split_ifs with hc
  · have hpair : 37 :: hexPair c ++ rest =
        37 :: digitByte (c.toNat / 16) :: digitByte (c.toNat % 16) :: rest := rfl
    rw [hpair, unescapeBytes]
    simp only [↓reduceIte, hexByte_hexPair]
  · have hne : c ≠ 37 := by
      rintro rfl
      exact hc (by decide)
    rw [List.singleton_append, unescapeBytes_cons hne]

lemma unescapeBytes_fnEscape (n : Text) : unescapeBytes (fnEscape n) = n := by
  induction n with
  | nil => rfl
  | cons c n ih =>
    have hcons : fnEscape (c :: n) = escapeByte c ++ fnEscape n := rfl
    rw [hcons, unescapeBytes_escape, ih]

/-- A name without NUL survives the percent codec. -/
theorem fnUnescape_fnEscape {n : Text} (h : 0 ∉ n) : fnUnescape (fnEscape n) = n := by
  unfold fnUnescape
  rw [unescapeBytes_fnEscape]
  refine takeWhile_of_all fun c hc => ?_
  simp only [ne_eq, decide_not, Bool.not_eq_true', decide_eq_false_iff_not]
  rintro rfl
  exact h hc

lemma getD_hexPairs (l : Text) (i : ℕ) (h : i < l.length) :
    (l.flatMap hexPair).getD (2 * i) 0 = digitByte (l[i].toNat / 16) ∧
      (l.flatMap hexPair).getD (2 * i + 1) 0 = digitByte (l[i].toNat % 16) := by
  induction l generalizing i with
  | nil => simp at h
  | cons c l ih =>
    have hcons : (c :: l).flatMap hexPair = digitByte (c.toNat / 16) ::
        digitByte (c.toNat % 16) :: l.flatMap hexPair := rfl
    rw [hcons]
    cases i with
    | zero => exact ⟨rfl, rfl⟩
    | succ i =>
      have hi := ih i (by simpa using h)
      have htwo : 2 * (i + 1) = 2 * i + 1 + 1 := by omega
      rw [htwo]
      simpa using hi

lemma asciiHex_digitByte {d : ℕ} (hd : d < 16) : asciiHex (digitByte d) = d := by
  interval_cases d <;> decide

/-- `ne_ascii_to_md5` undoes `ne_md5_to_ascii`. -/
theorem asciiToMd5_md5ToAscii (c : Checksum) : asciiToMd5 (md5ToAscii c) = c := by
  obtain ⟨bytes, hlen⟩ := c
  unfold asciiToMd5 md5ToAscii
  congr 1
  refine List.ext_getElem (by simp [hlen]) fun i hi hi' => ?_
  rw [List.getElem_map, List.getElem_range]
  obtain ⟨hhi, hlo⟩ := getD_hexPairs bytes i hi'
  have hbyte : bytes[i].toNat < 256 := bytes[i].toNat_lt
  rw [hhi, hlo, asciiHex_digitByte (by omega), asciiHex_digitByte (by omega)]
  have hpair := hexByte_hexPair bytes[i]
  unfold hexByte at hpair
  rw [hexValue_digitByte (by omega), hexValue_digitByte (by omega)] at hpair
  have hmod : bytes[i].toNat % 16 % 256 = bytes[i].toNat % 16 % 16 := by omega
  rw [hmod]
  exact hpair

lemma md5ToAscii_length (c : Checksum) : (md5ToAscii c).length = 32 := by
  have hlen : ∀ l : Text, (l.flatMap hexPair).length = 2 * l.length := by
    intro l
    induction l with
    | nil => rfl
    | cons b l ih =>
      rw [List.flatMap_cons, List.length_append, ih, List.length_cons]
      simp only [hexPair, List.length_cons, List.length_nil]
      omega
  rw [md5ToAscii, hlen, c.length_eq]

lemma ULONG_MAX_ge (m : DataModel) : 2 ^ 32 - 1 ≤ ULONG_MAX m := by
  cases m <;> decide

/-- A mode survives octal and `mode_t`. -/
lemma mode_round_trip (m : DataModel) (mode : UInt32) :
    UInt32.ofNat (strtoul (ULONG_MAX m) 8 (padZeros 3 (printNat 8 mode.toNat))) = mode := by
  have hm : mode.toNat < 2 ^ 32 := mode.toNat_lt
  have hmax := ULONG_MAX_ge m
  rw [strtoul_padZeros 3 (by omega)]
  exact UInt32.ofNat_toNat

lemma readTime_printInt {m : DataModel} {t : ℤ} (name : Text) (hlo : LONG_MIN m < t)
    (hhi : t < LONG_MAX m) : readTime m (printInt t) name = .ok t := by
  unfold readTime
  rw [strtol_printInt hlo.le hhi.le]
  have hne : ¬ (t = LONG_MIN m ∨ t = LONG_MAX m) := by omega
  simp only [hne, ↓reduceIte]
  rfl

/-! ### Tokens -/

lemma elmmap_nodup : (elmmap.map Elm.name).Nodup := by
  simp only [elmmap, List.map_cons, List.map_nil, Elm.name, ascii, String.reduceToList,
    ↓Char.isValue, Char.reduceToNat, UInt8.reduceOfNat]
  decide

lemma mapid_name (e : Elm) : mapid e.name = some e := by
  have hmem : ∀ x : Elm, x ∈ elmmap := fun x => by cases x <;> decide
  unfold mapid
  have hfound : (elmmap.find? fun x => x.name = e.name).isSome = true :=
    List.find?_isSome.mpr ⟨e, hmem e, decide_eq_true rfl⟩
  obtain ⟨x, hx⟩ := Option.isSome_iff_exists.mp hfound
  have hname : x.name = e.name := of_decide_eq_true (List.find?_some hx :)
  rw [hx, List.inj_on_of_nodup_map elmmap_nodup (hmem x) (hmem e) hname]

/-- The parser while nothing is declined and nothing has failed. -/
def live (doc : XmlDoc) (stack : List (Option Elm)) : NeonParser := { doc := doc, stack := stack }

def feed (m : DataModel) (ts : List Token) (p : NeonParser) : NeonParser :=
  (ts.flatMap Token.events).foldl (neEvent m) p

lemma feed_append (m : DataModel) (ts us : List Token) (p : NeonParser) :
    feed m (ts ++ us) p = feed m us (feed m ts p) := by
  simp only [feed, List.flatMap_append, List.foldl_append]

/-- Below any open elements, the tokens take the accumulator from `doc` to `doc'`. -/
def Reads (m : DataModel) (ts : List Token) (doc doc' : XmlDoc) : Prop :=
  ∀ stack : List (Option Elm), feed m ts (live doc stack) = live doc' stack

section Tokens
variable {m : DataModel} {doc doc' doc'' : XmlDoc} {ts us : List Token}

lemma Reads.nil : Reads m [] doc doc := fun _ => rfl

lemma Reads.append (ht : Reads m ts doc doc') (hu : Reads m us doc' doc'') :
    Reads m (ts ++ us) doc doc'' := by
  intro stack
  rw [feed_append, ht, hu]

lemma reads_text (t : Text) : Reads m [.text t] doc (charData doc t) := fun _ => rfl

/-- The accumulator after the start of an element that is not declined. -/
def opened (doc : XmlDoc) (e : Elm) : XmlDoc :=
  let doc := { doc with cdata := [] }
  let doc := if e = .item then { doc with stored := { mode := INVALID_MODE } } else doc
  if e = .ascii then { doc with truth := .invalid } else doc

lemma startElement_name (doc : XmlDoc) (e : Elm) :
    startElement doc e.name = (some e, opened doc e) := by
  unfold startElement
  rw [mapid_name]
  rfl

lemma feed_start (e : Elm) (attrs : Attributes) (stack : List (Option Elm)) :
    feed m [.start e.name attrs] (live doc stack) = live (opened doc e) (some e :: stack) := by
  simp [feed, Token.events, neEvent, neStartElement, live, startElement_name]

lemma feed_stop {e : Elm} (h : endElement m doc (some e) e.name = .ok doc')
    (stack : List (Option Elm)) :
    feed m [.stop e.name] (live doc (some e :: stack)) = live doc' stack := by
  simp [feed, Token.events, neEvent, neEndElement, live, h]

lemma reads_element {e : Elm} (ht : Reads m ts (opened doc e) doc')
    (hend : endElement m doc' (some e) e.name = .ok doc'') : Reads m (element e ts) doc doc'' := by
  intro stack
  unfold element
  rw [feed_append, feed_append, feed_start, ht, feed_stop hend]

lemma reads_empty {e : Elm} {attrs : Attributes}
    (hend : endElement m (opened doc e) (some e) e.name = .ok doc') :
    Reads m [.empty e.name attrs] doc doc' := by
  intro stack
  have hsplit : feed m [.empty e.name attrs] (live doc stack) =
      feed m [.stop e.name] (feed m [.start e.name attrs] (live doc stack)) := rfl
  rw [hsplit, feed_start, feed_stop hend]

/-- An unknown element without content is skipped. -/
lemma reads_declined {name : Text} {attrs : Attributes} (h : mapid name = none) :
    Reads m [.empty name attrs] doc doc := by
  intro stack
  simp [feed, Token.events, neEvent, neStartElement, neEndElement, live, startElement, h]

lemma reads_leaf {e : Elm} {t : Text}
    (hend : endElement m { opened doc e with cdata := t } (some e) e.name = .ok doc') :
    Reads m (leaf e t) doc doc' := by
  refine reads_element (reads_text t) ?_
  have hcdata : charData (opened doc e) t = { opened doc e with cdata := t } := by
    unfold charData opened
    split_ifs <;> rfl
  rw [hcdata]
  exact hend

lemma reads_flag {e inner : Elm}
    (hinner : endElement m (opened (opened doc e) inner) (some inner) inner.name = .ok doc')
    (hend : endElement m doc' (some e) e.name = .ok doc'') : Reads m (flag e inner) doc doc'' :=
  reads_element (reads_empty hinner) hend

end Tokens

/-! ### The fields of an item -/

/-- The fields that survive from one token to the next: all but the scratch fields. -/
structure Holds (doc : XmlDoc) (site : Site) (type : FileType) (stored server : FileState) :
    Prop where
  site : doc.site = site
  type : doc.type = type
  stored : doc.stored = stored
  server : doc.server = server

/-- The tokens leave the accumulator with the given contents. -/
def Leaves (m : DataModel) (ts : List Token) (doc : XmlDoc) (site : Site) (type : FileType)
    (stored server : FileState) : Prop :=
  ∃ doc', Reads m ts doc doc' ∧ Holds doc' site type stored server

section Fields
variable {m : DataModel} {doc : XmlDoc} {site : Site} {type : FileType} {stored server : FileState}
  {ts us : List Token}

lemma Leaves.append {site' : Site} {type' : FileType} {stored' server' : FileState}
    (ht : Leaves m ts doc site type stored server)
    (hu : ∀ doc', Holds doc' site type stored server →
      Leaves m us doc' site' type' stored' server') :
    Leaves m (ts ++ us) doc site' type' stored' server' := by
  obtain ⟨doc₁, hr₁, hh₁⟩ := ht
  obtain ⟨doc₂, hr₂, hh₂⟩ := hu doc₁ hh₁
  exact ⟨doc₂, hr₁.append hr₂, hh₂⟩

lemma Holds.leaves (h : Holds doc site type stored server) :
    Leaves m [] doc site type stored server := ⟨doc, Reads.nil, h⟩

lemma leaves_text (h : Holds doc site type stored server) (t : Text) :
    Leaves m [.text t] doc site type stored server :=
  ⟨_, reads_text t, h.site, h.type, h.stored, h.server⟩

lemma leaves_type (h : Holds doc site type stored server) (type' : FileType) :
    Leaves m (flag .type (typeElm type')) doc site type' stored server := by
  cases type' <;>
    exact ⟨_, reads_flag rfl rfl, h.site, rfl, h.stored, h.server⟩

lemma leaves_name (h : Holds doc site type stored server) {n : Text} (hn : 0 ∉ n) :
    Leaves m (nameTokens (some n)) doc site type { stored with filename := some n } server := by
  have hend : endElement m { opened doc .filename with cdata := fnEscape n } (some .filename)
      Elm.filename.name = .ok { doc with
        cdata := fnEscape n, stored := { doc.stored with filename := some n } } := by
    simp [endElement, opened, fnUnescape_fnEscape hn]
    rfl
  refine Leaves.append ⟨_, reads_leaf hend, h.site, h.type, ?_, h.server⟩
    fun doc' h' => leaves_text h' [10]
  rw [h.stored]

/-- A mode that is not written is the one that every item starts with. -/
lemma leaves_mode (h : Holds doc site type stored server) (hs : stored.mode = INVALID_MODE)
    (mode : UInt32) :
    Leaves m (modeTokens mode) doc site type { stored with mode := mode } server := by
  unfold modeTokens
  split_ifs with hmode
  · have hend : endElement m { opened doc .protection with
        cdata := padZeros 3 (printNat 8 mode.toNat) } (some .protection) Elm.protection.name =
        .ok { doc with
          cdata := padZeros 3 (printNat 8 mode.toNat)
          stored := { doc.stored with mode := mode } } := by
      simp [endElement, opened, mode_round_trip]
      rfl
    refine ⟨_, reads_leaf hend, h.site, h.type, ?_, h.server⟩
    rw [h.stored]
  · rw [ne_eq, not_not] at hmode
    have he : { stored with mode := mode } = stored := by rw [hmode, ← hs]
    rw [he]
    exact h.leaves

lemma leaves_target (h : Holds doc site type stored server) (t : Text) :
    Leaves m (leaf .linktarget t) doc site type { stored with linktarget := some t } server := by
  refine ⟨_, reads_leaf rfl, h.site, h.type, ?_, h.server⟩
  change { doc.stored with linktarget := some t } = _
  rw [h.stored]

lemma leaves_size (h : Holds doc site type stored server) {z : ℤ} (hlo : LONG_MIN m ≤ z)
    (hhi : z ≤ LONG_MAX m) :
    Leaves m (leaf .size (printInt z)) doc site type { stored with size := z } server := by
  refine ⟨_, reads_leaf rfl, h.site, h.type, ?_, h.server⟩
  change { doc.stored with size := strtol (LONG_MIN m) (LONG_MAX m) 10 (printInt z) } = _
  rw [h.stored, strtol_printInt hlo hhi]

lemma leaves_checksum (h : Holds doc site type stored server) (c : Checksum) :
    Leaves m (leaf .checksum (md5ToAscii c)) doc site type { stored with checksum := c } server := by
  have hend : endElement m { opened doc .checksum with cdata := md5ToAscii c } (some .checksum)
      Elm.checksum.name = .ok { doc with
        cdata := md5ToAscii c, stored := { doc.stored with checksum := c } } := by
    simp [endElement, opened, md5ToAscii_length, asciiToMd5_md5ToAscii]
    rfl
  refine ⟨_, reads_leaf hend, h.site, h.type, ?_, h.server⟩
  rw [h.stored]

lemma leaves_time (h : Holds doc site type stored server) {t : ℤ} (hlo : LONG_MIN m < t)
    (hhi : t < LONG_MAX m) :
    Leaves m (leaf .modtime (printInt t)) doc site type { stored with time := t } server := by
  have hend : endElement m { opened doc .modtime with cdata := printInt t } (some .modtime)
      Elm.modtime.name = .ok { doc with
        cdata := printInt t, stored := { doc.stored with time := t } } := by
    simp [endElement, opened, readTime_printInt _ hlo hhi]
  refine ⟨_, reads_leaf hend, h.site, h.type, ?_, h.server⟩
  rw [h.stored]

lemma leaves_ascii (h : Holds doc site type stored server) (b : Bool) :
    Leaves m (flag .ascii (if b then .true else .false)) doc site type
      { stored with ascii := b } server := by
  cases b with
  | true =>
    refine ⟨_, reads_flag rfl rfl, h.site, h.type, ?_, h.server⟩
    change { doc.stored with ascii := true } = _
    rw [h.stored]
  | false =>
    refine ⟨_, reads_flag rfl rfl, h.site, h.type, ?_, h.server⟩
    change { doc.stored with ascii := false } = _
    rw [h.stored]

lemma leaves_server (h : Holds doc site type stored server) {s : FileState}
    (hs : s.existing = true → LONG_MIN m < s.time ∧ s.time < LONG_MAX m) :
    Leaves m (serverTokens s) doc site type stored
      (if s.existing then { server with time := s.time, existing := true } else server) := by
  unfold serverTokens
  split_ifs with hex
  · obtain ⟨hlo, hhi⟩ := hs hex
    have hend : endElement m { opened doc .server_modtime with cdata := printInt s.time }
        (some .server_modtime) Elm.server_modtime.name = .ok { doc with
          cdata := printInt s.time
          server := { doc.server with time := s.time, existing := true } } := by
      simp [endElement, opened, readTime_printInt _ hlo hhi]
    refine ⟨_, reads_leaf hend, h.site, h.type, h.stored, ?_⟩
    rw [h.server]
  · exact h.leaves

end Fields

end Sitecopy.StateFile
