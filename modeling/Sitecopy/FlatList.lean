import Sitecopy.NameUses

/-!
# The flat list and its reader

`site_flatlist` prints the changes of a site as records, which the script `changes.awk`
reads: the name of a section tells what happened to its items, and a third field of an item is
an old name. The mark of ignored items came later, and is a field like the others.
-/
namespace Sitecopy.FlatList
open SiteModel FileSet SiteStats SiteInvariants ReachedFiles NameUses

def newline : UInt8 := 10
def bar : UInt8 := 124

/-! ### Printing -/

/-- The name and the URL of a site, as the rcfile gives them: it is read by lines, so that only
an unfinished quotation leaves a newline in them, at the end. -/
structure Heading where
  name : Text
  url : Option Text
  name_line : newline ∉ name.dropLast
  url_line : ∀ u ∈ url, newline ∉ u.dropLast

/-- The name of an item; directories have a slash after it. -/
def itemName (file : SiteFile) : Text := fileName file ++ if file.type = .dir then [slash] else []

/-- The line of `site_flatlist_items` for an item. -/
def itemLine (file : SiteFile) : Text :=
  ascii "item|" ++ itemName file ++
    (if file.diff = .moved then bar :: file.storedState.filename.getD [] else []) ++
    (if file.ignore then ascii "|ignored" else [])

/-- `site_flatlist_items`. -/
def siteFlatlistItems (site : Site) (diff : FileDiff) (name : Text) : Text :=
  ascii "sectstart|" ++ name ++ [newline] ++
  ((site.files.filter fun file => file.diff = diff).flatMap fun file =>
    itemLine file ++ [newline]) ++
  ascii "sectend|" ++ name ++ [newline]

/-- `site_flatlist`. -/
def siteFlatlist (h : Heading) (site : Site) : Text :=
  ascii "sitestart|" ++ h.name ++ (match h.url with | some url => bar :: url | none => []) ++
    [newline] ++
  (if site.stats.numnew > 0 then siteFlatlistItems site .new (ascii "added") else []) ++
  (if site.stats.numchanged > 0 then siteFlatlistItems site .changed (ascii "changed") else []) ++
  (if site.stats.numdeleted > 0 then siteFlatlistItems site .deleted (ascii "deleted") else []) ++
  (if site.stats.nummoved > 0 then siteFlatlistItems site .moved (ascii "moved") else []) ++
  ascii "siteend|" ++
    (if site.stats.remoteIsDifferent then ascii "changed" else ascii "unchanged") ++ [newline]

/-! ### Reading -/

/-- What a record tells of an item. -/
structure Item where
  kind : FileDiff
  name : Text
  old : Option Text
  deriving DecidableEq, Repr

/-- The section that is open, and the items so far. -/
structure Reader where
  current : Option FileDiff := none
  items : List Item := []
  deriving DecidableEq, Repr

/-- The kinds of sections. -/
def sectionKind (name : Text) : Option FileDiff :=
  if name = ascii "added" then some .new
  else if name = ascii "changed" then some .changed
  else if name = ascii "moved" then some .moved
  else if name = ascii "deleted" then some .deleted
  else none

/-- The rules of `changes.awk` for a record, with its fields between bars. -/
def readRecord (r : Reader) (record : Text) : Reader :=
  let fields := record.splitOn bar
  if (ascii "sectstart").isPrefixOf record then
    { r with current := sectionKind (fields.getD 1 []) }
  else if (ascii "item").isPrefixOf record then
    match r.current with
    | none => r
    | some kind =>
      let old := fields.getD 2 []
      { r with items := r.items ++
        [⟨kind, fields.getD 1 [], if old ≠ [] then some old else none⟩] }
  else r

def readRecords (r : Reader) (text : Text) : Reader := (text.splitOn newline).foldl readRecord r

/-- The items in a flat list. -/
def decode (text : Text) : List Item := (readRecords {} text).items

/-- What a reader should learn of an entry. -/
def itemOf (file : SiteFile) : Item :=
  ⟨file.diff, itemName file,
    if file.diff = .moved then some (file.storedState.filename.getD []) else none⟩

/-- The third field of an item. -/
def thirdField (file : SiteFile) : Text :=
  if file.diff = .moved then file.storedState.filename.getD []
  else if file.ignore then ascii "ignored" else []

/-- What it learns. -/
def itemRead (file : SiteFile) : Item :=
  ⟨file.diff, itemName file, if thirdField file ≠ [] then some (thirdField file) else none⟩

/-! ### Records -/

/-- Neither bars nor newlines in the names of an entry. -/
structure PlainNames (file : SiteFile) : Prop where
  bar : ∀ s ∈ [file.localState, file.storedState], bar ∉ s.filename.getD []
  newline : ∀ s ∈ [file.localState, file.storedState], newline ∉ s.filename.getD []

instance : DecidablePred PlainNames := fun file =>
  decidable_of_iff
    ((∀ s ∈ [file.localState, file.storedState], FlatList.bar ∉ s.filename.getD []) ∧
      ∀ s ∈ [file.localState, file.storedState], FlatList.newline ∉ s.filename.getD [])
    ⟨fun h => ⟨h.1, h.2⟩, fun h => ⟨h.bar, h.newline⟩⟩

section Records
variable {r : Reader} {line rest : Text} {file : SiteFile}

lemma readRecords_line (h : newline ∉ line) :
    readRecords r (line ++ newline :: rest) = readRecords (readRecord r line) rest := by
  rw [readRecords, List.splitOn_append_cons_self_of_not_mem h]
  rfl

lemma PlainNames.itemName (h : PlainNames file) {c : UInt8}
    (hc : c = FlatList.bar ∨ c = FlatList.newline) :
    c ∉ FlatList.itemName file := by
  have hstate : fileNameState file ∈ [file.localState, file.storedState] := by
    unfold fileNameState
    split_ifs <;> simp
  have hslash : c ∉ (if file.type = .dir then [slash] else []) := by
    rcases hc with rfl | rfl <;> split_ifs <;> decide
  have hname : c ∉ fileName file := by
    rcases hc with rfl | rfl
    · exact h.bar _ hstate
    · exact h.newline _ hstate
  rw [FlatList.itemName, List.mem_append, not_or]
  exact ⟨hname, hslash⟩

lemma itemLine_newline (h : PlainNames file) : newline ∉ itemLine file := by
  have hname := h.itemName (Or.inr rfl)
  have hold : newline ∉ file.storedState.filename.getD [] := h.newline _ (by simp)
  unfold itemLine
  simp only [List.mem_append, not_or]
  refine ⟨⟨⟨by decide, hname⟩, ?_⟩, ?_⟩
  · split_ifs
    · rw [List.mem_cons, not_or]
      exact ⟨by decide, hold⟩
    · exact List.not_mem_nil
  · split_ifs <;> decide

lemma itemLine_fields (h : PlainNames file) :
    ((itemLine file).splitOn bar).getD 1 [] = itemName file ∧
      ((itemLine file).splitOn bar).getD 2 [] = thirdField file := by
  have hitem : bar ∉ ascii "item" := by decide
  have hname := h.itemName (Or.inl rfl)
  have hold : bar ∉ file.storedState.filename.getD [] := h.bar _ (by simp)
  have hmark : bar ∉ ascii "ignored" := by decide
  have hbegin : ∀ t, (ascii "item" ++ bar :: (itemName file ++ t)).splitOn bar =
      ascii "item" :: (itemName file ++ t).splitOn bar :=
    fun t => List.splitOn_append_cons_self_of_not_mem hitem _
  have hitemLine : itemLine file = ascii "item" ++ bar :: (itemName file ++
      ((if file.diff = .moved then bar :: file.storedState.filename.getD [] else []) ++
        (if file.ignore then bar :: ascii "ignored" else []))) := by
    rw [itemLine, List.append_assoc, List.append_assoc]
    rfl
  rw [hitemLine, hbegin, thirdField]
  split_ifs with hmoved hignored hignored
  · rw [List.cons_append, List.splitOn_append_cons_self_of_not_mem hname,
      List.splitOn_append_cons_self_of_not_mem hold, List.splitOn_eq_singleton hmark]
    exact ⟨rfl, rfl⟩
  · rw [List.append_nil, List.splitOn_append_cons_self_of_not_mem hname,
      List.splitOn_eq_singleton hold]
    exact ⟨rfl, rfl⟩
  · rw [List.nil_append, List.splitOn_append_cons_self_of_not_mem hname,
      List.splitOn_eq_singleton hmark]
    exact ⟨rfl, rfl⟩
  · rw [List.append_nil, List.append_nil, List.splitOn_eq_singleton hname]
    exact ⟨rfl, rfl⟩

/-- An item of a section is read. -/
lemma readRecord_item (h : PlainNames file) (items : List Item) :
    readRecord ⟨some file.diff, items⟩ (itemLine file) =
      ⟨some file.diff, items ++ [itemRead file]⟩ := by
  obtain ⟨hname, hthird⟩ := itemLine_fields h
  have hsection : (ascii "sectstart").isPrefixOf (itemLine file) = false := rfl
  have hitem : (ascii "item").isPrefixOf (itemLine file) = true := rfl
  rw [readRecord, hname, hthird, hsection, hitem]
  rfl

/-- All items of a section are read. -/
lemma readRecords_items {diff : FileDiff} {files : List SiteFile}
    (hdiff : ∀ f ∈ files, f.diff = diff) (hplain : ∀ f ∈ files, PlainNames f)
    (items : List Item) (rest : Text) :
    readRecords ⟨some diff, items⟩ ((files.flatMap fun f => itemLine f ++ [newline]) ++ rest) =
      readRecords ⟨some diff, items ++ files.map itemRead⟩ rest := by
  induction files generalizing items with
  | nil => simp
  | cons f files ih =>
    have hf := hplain f List.mem_cons_self
    have hd := hdiff f List.mem_cons_self
    have hstep := readRecord_item hf items
    rw [hd] at hstep
    rw [List.flatMap_cons, List.append_assoc, List.append_assoc, List.singleton_append,
      readRecords_line (itemLine_newline hf), hstep,
      ih (fun g hg => hdiff g (List.mem_cons_of_mem _ hg))
        (fun g hg => hplain g (List.mem_cons_of_mem _ hg))]
    simp

end Records

/-! ### Sections and the frame around them -/

/-- A record to which no rule for sections or items applies. -/
def Idle (record : Text) : Prop :=
  (ascii "sectstart").isPrefixOf record = false ∧ (ascii "item").isPrefixOf record = false

section Frame
variable {r : Reader} {rest : Text} {site : Site}

lemma Idle.readRecord {record : Text} (h : Idle record) : readRecord r record = r := by
  rw [FlatList.readRecord, h.1, h.2]
  rfl

lemma readRecords_idle {t : Text} (h : ∀ record ∈ t.splitOn newline, Idle record) :
    readRecords r (t ++ newline :: rest) = readRecords r rest := by
  have hfix : ∀ records : List Text, (∀ record ∈ records, Idle record) →
      records.foldl readRecord r = r := by
    intro records hidle
    induction records with
    | nil => rfl
    | cons record records ih =>
      rw [List.foldl_cons, (hidle record List.mem_cons_self).readRecord]
      exact ih fun x hx => hidle x (List.mem_cons_of_mem _ hx)
  rw [readRecords, List.splitOn_append_cons_self, List.foldl_append, hfix _ h]
  rfl

lemma readRecords_idle_line {line : Text} (h : newline ∉ line) (hidle : Idle line) :
    readRecords r (line ++ newline :: rest) = readRecords r rest := by
  rw [readRecords_line h, hidle.readRecord]

/-- A section of the list is read. -/
lemma readRecords_section (hplain : ∀ f ∈ site.files, PlainNames f) {diff : FileDiff}
    {name : Text} (hname : newline ∉ name) (hbar : bar ∉ name)
    (hkind : sectionKind name = some diff) :
    readRecords r (siteFlatlistItems site diff name ++ rest) =
      readRecords ⟨some diff, r.items ++
        (site.files.filter fun f => f.diff = diff).map itemRead⟩ rest := by
  have hstart : readRecord r (ascii "sectstart|" ++ name) = ⟨some diff, r.items⟩ := by
    have hfields : (ascii "sectstart|" ++ name).splitOn bar = [ascii "sectstart", name] := by
      rw [show ascii "sectstart|" ++ name = ascii "sectstart" ++ bar :: name from rfl,
        List.splitOn_append_cons_self_of_not_mem (by decide), List.splitOn_eq_singleton hbar]
    have hrule : (ascii "sectstart").isPrefixOf (ascii "sectstart|" ++ name) = true := rfl
    rw [readRecord, hfields, hrule, ← hkind]
    rfl
  have hlines : ∀ t, newline ∉ t → newline ∉ t ++ name := fun t ht => by
    rw [List.mem_append, not_or]
    exact ⟨ht, hname⟩
  have htext : siteFlatlistItems site diff name ++ rest =
      (ascii "sectstart|" ++ name) ++ newline ::
        (((site.files.filter fun f => f.diff = diff).flatMap fun f => itemLine f ++ [newline]) ++
          ((ascii "sectend|" ++ name) ++ newline :: rest)) := by
    simp [siteFlatlistItems]
  rw [htext, readRecords_line (hlines _ (by decide)), hstart,
    readRecords_items (fun f hf => by simpa using (List.mem_filter.mp hf).2)
      (fun f hf => hplain f (List.mem_filter.mp hf).1),
    readRecords_idle_line (hlines _ (by decide)) ⟨rfl, rfl⟩]

/-- Whatever is read before a text and after it, the text adds these items. -/
def Yields (text : Text) (items : List Item) : Prop :=
  ∀ r rest, ∃ current,
    readRecords r (text ++ rest) = readRecords ⟨current, r.items ++ items⟩ rest

lemma Yields.append {s t : Text} {xs ys : List Item} (hs : Yields s xs) (ht : Yields t ys) :
    Yields (s ++ t) (xs ++ ys) := by
  intro r rest
  obtain ⟨current, hread⟩ := hs r (t ++ rest)
  obtain ⟨current', hread'⟩ := ht ⟨current, r.items ++ xs⟩ rest
  refine ⟨current', ?_⟩
  rw [List.append_assoc, hread, hread', List.append_assoc]

lemma Yields.decode {t : Text} {items : List Item} (h : Yields t items) : decode t = items := by
  obtain ⟨current, hread⟩ := h {} []
  rw [List.append_nil] at hread
  rw [FlatList.decode, hread]
  exact List.nil_append items

/-- A record to which no rule applies yields nothing. -/
lemma yields_idle {t : Text} (h : ∀ record ∈ t.splitOn newline, Idle record) :
    Yields (t ++ [newline]) [] := by
  intro r rest
  refine ⟨r.current, ?_⟩
  rw [List.append_assoc, List.singleton_append, readRecords_idle h, List.append_nil]

/-- A section that is printed under a condition. -/
lemma yields_section (hplain : ∀ f ∈ site.files, PlainNames f) {diff : FileDiff}
    {name : Text} (hname : newline ∉ name) (hbar : bar ∉ name)
    (hkind : sectionKind name = some diff) (p : Prop) [Decidable p] :
    Yields (if p then siteFlatlistItems site diff name else [])
      (if p then (site.files.filter fun f => f.diff = diff).map itemRead else []) := by
  intro r rest
  split_ifs
  · exact ⟨some diff, readRecords_section hplain hname hbar hkind⟩
  · exact ⟨r.current, by simp⟩

lemma newline_cases {t : Text} (h : newline ∉ t.dropLast) :
    newline ∉ t ∨ ∃ n, newline ∉ n ∧ t = n ++ [newline] := by
  cases t using List.reverseRecOn with
  | nil => exact Or.inl List.not_mem_nil
  | append_singleton n c =>
    rw [List.dropLast_concat] at h
    by_cases hc : c = newline
    · exact Or.inr ⟨n, h, by rw [hc]⟩
    · exact Or.inl (by simp [h, Ne.symm hc])

/-- Records up to an end that may have a newline. -/
lemma idle_splitOn {s t : Text} (hs : newline ∉ s) (ht : newline ∉ t.dropLast)
    (hidle : ∀ x, Idle (s ++ x)) : ∀ record ∈ (s ++ t).splitOn newline, Idle record := by
  rcases newline_cases ht with ht | ⟨n, hn, rfl⟩
  · rw [List.splitOn_eq_singleton (by simp [hs, ht])]
    simpa using hidle t
  · rw [← List.append_assoc, List.splitOn_append_cons_self_of_not_mem (by simp [hs, hn])]
    simpa using ⟨hidle n, (⟨rfl, rfl⟩ : Idle [])⟩

/-- The line of the site, which may go over two more lines. -/
lemma idle_heading (h : Heading) :
    ∀ record ∈ (ascii "sitestart|" ++ h.name ++
      (match h.url with | some url => bar :: url | none => [])).splitOn newline, Idle record := by
  have hstart : newline ∉ ascii "sitestart|" := by decide
  cases hurl : h.url with
  | none =>
    simp only [List.append_nil]
    exact idle_splitOn hstart h.name_line fun _ => ⟨rfl, rfl⟩
  | some url =>
    have hu := h.url_line url hurl
    rcases newline_cases h.name_line with hn | ⟨n, hn, hname⟩
    · have hs : newline ∉ ascii "sitestart|" ++ h.name ++ [bar] := by
        simp only [List.mem_append, not_or]
        exact ⟨⟨hstart, hn⟩, by decide⟩
      rw [show ascii "sitestart|" ++ h.name ++ bar :: url =
        ascii "sitestart|" ++ h.name ++ [bar] ++ url by simp]
      exact idle_splitOn hs hu fun _ => ⟨rfl, rfl⟩
    · have hs : newline ∉ ascii "sitestart|" ++ n := by
        rw [List.mem_append, not_or]
        exact ⟨hstart, hn⟩
      rw [hname, show ascii "sitestart|" ++ (n ++ [newline]) ++ bar :: url =
        (ascii "sitestart|" ++ n) ++ newline :: ([bar] ++ url) by simp,
        List.splitOn_append_cons_self_of_not_mem hs]
      intro record hmem
      rcases List.mem_cons.mp hmem with rfl | hmem
      · exact ⟨rfl, rfl⟩
      · exact idle_splitOn (by decide) hu (fun _ => ⟨rfl, rfl⟩) record hmem

end Frame

/-! ### The whole list -/

/-- The counter that a section depends on. -/
def sectionCount (st : Stats) : FileDiff → ℤ
  | .unchanged => 0
  | .changed => st.numchanged
  | .new => st.numnew
  | .deleted => st.numdeleted
  | .moved => st.nummoved

/-- The items that a reader gets from a section. -/
def sectionItems (site : Site) (diff : FileDiff) : List Item :=
  if sectionCount site.stats diff > 0 then
    (site.files.filter fun f => f.diff = diff).map itemRead
  else []

section Decode
variable {site : Site} {item : Item} {f : SiteFile}

theorem decode_siteFlatlist (h : Heading) (hplain : ∀ f ∈ site.files, PlainNames f) :
    decode (siteFlatlist h site) = sectionItems site .new ++ sectionItems site .changed ++
      sectionItems site .deleted ++ sectionItems site .moved := by
  have hsection : ∀ (diff : FileDiff) (name : Text), newline ∉ name → bar ∉ name →
      sectionKind name = some diff →
      Yields (if sectionCount site.stats diff > 0 then siteFlatlistItems site diff name else [])
        (sectionItems site diff) :=
    fun diff name hname hbar hkind => yields_section hplain hname hbar hkind _
  have hnew := hsection .new (ascii "added") (by decide) (by decide) rfl
  have hchanged := hsection .changed (ascii "changed") (by decide) (by decide) rfl
  have hdeleted := hsection .deleted (ascii "deleted") (by decide) (by decide) rfl
  have hmoved := hsection .moved (ascii "moved") (by decide) (by decide) rfl
  have hend : Yields (ascii "siteend|" ++
      (if site.stats.remoteIsDifferent then ascii "changed" else ascii "unchanged") ++
        [newline]) [] :=
    yields_idle (idle_splitOn (by decide) (by split_ifs <;> decide) fun _ => ⟨rfl, rfl⟩)
  have hall := (((((yields_idle (idle_heading h)).append hnew).append hchanged).append
    hdeleted).append hmoved).append hend
  rw [List.nil_append, List.append_nil] at hall
  rw [← hall.decode]
  simp only [siteFlatlist, List.append_assoc]
  rfl

/-- An item is read exactly if it is printed. -/
lemma mem_decode (h : Heading) (hplain : ∀ f ∈ site.files, PlainNames f) :
    item ∈ decode (siteFlatlist h site) ↔
      ∃ f ∈ site.files, sectionCount site.stats f.diff > 0 ∧ itemRead f = item := by
  have hmem : ∀ diff, item ∈ sectionItems site diff ↔
      ∃ f ∈ site.files,
        f.diff = diff ∧ sectionCount site.stats f.diff > 0 ∧ itemRead f = item := by
    intro diff
    unfold sectionItems
    split_ifs with hcount
    · simp only [List.mem_map, List.mem_filter, decide_eq_true_eq, and_assoc]
      constructor
      · rintro ⟨f, hf, rfl, hread⟩
        exact ⟨f, hf, rfl, hcount, hread⟩
      · rintro ⟨f, hf, hd, -, hread⟩
        exact ⟨f, hf, hd, hread⟩
    · simp only [List.not_mem_nil, false_iff, not_exists, not_and]
      rintro f - rfl hpos
      exact absurd hpos hcount
  simp only [decode_siteFlatlist h hplain, List.mem_append, hmem]
  constructor
  · rintro (((⟨f, hf, -, hread⟩ | ⟨f, hf, -, hread⟩) | ⟨f, hf, -, hread⟩) | ⟨f, hf, -, hread⟩)
    all_goals exact ⟨f, hf, hread⟩
  · rintro ⟨f, hf, hcount, hread⟩
    cases hd : f.diff with
    | unchanged =>
      rw [hd] at hcount
      exact absurd hcount (lt_irrefl 0)
    | new => exact Or.inl (Or.inl (Or.inl ⟨f, hf, hd, hcount, hread⟩))
    | changed => exact Or.inl (Or.inl (Or.inr ⟨f, hf, hd, hcount, hread⟩))
    | deleted => exact Or.inl (Or.inr ⟨f, hf, hd, hcount, hread⟩)
    | moved => exact Or.inr ⟨f, hf, hd, hcount, hread⟩

/-- The section of an entry is there, unless all of its entries are ignored ones. -/
lemma sectionCount_pos (hr : CountedSite site) (hf : f ∈ site.files) (hd : f.diff ≠ .unchanged)
    (hi : f.diff = .changed → f.ignore = false) : sectionCount site.stats f.diff > 0 := by
  obtain ⟨a, b, hexact⟩ := hr
  have hst := statistics_of_exact hexact.exact
  have hshift : sectionCount site.stats f.diff = sectionCount (shift a b site.stats) f.diff := by
    cases f.diff <;> rfl
  have hpos : ∀ p : SiteFile → Bool, p f = true → (0 : ℤ) < site.files.countP p :=
    fun p hp => Int.natCast_pos.mpr (List.countP_pos_iff.mpr ⟨f, hf, hp⟩)
  rw [hshift]
  cases hdiff : f.diff with
  | unchanged => exact absurd hdiff hd
  | new => exact (hpos _ (by simp [hdiff])).trans_eq hst.numnew.symm
  | changed => exact (hpos _ (by simp [hdiff, hi hdiff])).trans_eq hst.numchanged.symm
  | deleted => exact (hpos _ (by simp [hdiff])).trans_eq hst.numdeleted.symm
  | moved => exact (hpos _ (by simp [hdiff])).trans_eq hst.nummoved.symm

/-- The entries that the flat list tells of correctly. -/
def ToldRightly (file : SiteFile) : Prop :=
  if file.diff = .moved then file.storedState.filename.getD [] ≠ [] else file.ignore = false

lemma itemRead_eq_iff : itemRead f = itemOf f ↔ ToldRightly f := by
  have hmark : ascii "ignored" ≠ [] := by decide
  unfold ToldRightly
  split_ifs with hmoved
  · simp [itemRead, itemOf, thirdField, hmoved]
  · cases hi : f.ignore <;> simp [itemRead, itemOf, thirdField, hmoved, hi, hmark]

lemma perm_filter_or {p q : SiteFile → Prop} [DecidablePred p] [DecidablePred q]
    (hdisjoint : ∀ f, p f → ¬ q f) (files : List SiteFile) :
    (files.filter (p ·) ++ files.filter (q ·)).Perm (files.filter fun f => p f ∨ q f) := by
  have hp : (files.filter fun f => p f ∨ q f).filter (p ·) = files.filter (p ·) := by
    rw [List.filter_filter]
    exact List.filter_congr fun f _ => by by_cases h : p f <;> simp [h]
  have hq : (files.filter fun f => p f ∨ q f).filter (fun f => !decide (p f)) =
      files.filter (q ·) := by
    rw [List.filter_filter]
    refine List.filter_congr fun f _ => ?_
    by_cases h : p f
    · simp [h, hdisjoint f h]
    · simp [h]
  rw [← hp, ← hq]
  exact List.filter_append_perm _ _

/-- The sections have every entry that differs, once. -/
lemma perm_sections (files : List SiteFile) :
    ((files.filter fun f => f.diff = .new) ++ (files.filter fun f => f.diff = .changed) ++
      (files.filter fun f => f.diff = .deleted) ++ files.filter fun f => f.diff = .moved).Perm
        (files.filter fun f => f.diff ≠ .unchanged) := by
  have hall : ∀ f : SiteFile, (((f.diff = .new ∨ f.diff = .changed) ∨ f.diff = .deleted) ∨
      f.diff = .moved) ↔ f.diff ≠ .unchanged := fun f => by cases f.diff <;> simp
  simp only [← hall]
  refine (List.Perm.append_right _ ?_).trans (perm_filter_or (fun f h hm => by simp [hm] at h) _)
  refine (List.Perm.append_right _ ?_).trans (perm_filter_or (fun f h hd => by simp [hd] at h) _)
  exact perm_filter_or (fun f h hc => by simp [hc] at h) _

lemma sectionItems_told (hr : CountedSite site)
    (htold : ∀ f ∈ site.files, f.diff ≠ .unchanged → ToldRightly f) {diff : FileDiff}
    (hd : diff ≠ .unchanged) :
    sectionItems site diff = (site.files.filter fun f => f.diff = diff).map itemOf := by
  have hread : (site.files.filter fun f => f.diff = diff).map itemRead =
      (site.files.filter fun f => f.diff = diff).map itemOf := by
    refine List.map_congr_left fun f hf => ?_
    obtain ⟨hmem, hdiff⟩ := List.mem_filter.mp hf
    simp only [decide_eq_true_eq] at hdiff
    exact itemRead_eq_iff.mpr (htold f hmem (hdiff ▸ hd))
  unfold sectionItems
  split_ifs with hcount
  · exact hread
  · -- a section that is left out has no entries
    rw [List.filter_eq_nil_iff.mpr, List.map_nil]
    intro f hf hdiff
    simp only [decide_eq_true_eq] at hdiff
    subst hdiff
    have htold := htold f hf hd
    refine hcount (sectionCount_pos hr hf hd fun hchanged => ?_)
    simpa [ToldRightly, hchanged] using htold

/-- The flat list tells what happened to every entry, once and with the right names, exactly if
no entry that differs is an ignored one and every moved entry had a name before. -/
theorem decode_flatlist_iff {o : SiteOptions} (hr : Reached o site) (h : Heading)
    (hplain : ∀ f ∈ site.files, PlainNames f) :
    (decode (siteFlatlist h site)).Perm
        ((site.files.filter fun f => f.diff ≠ .unchanged).map itemOf) ↔
      ∀ f ∈ site.files, f.diff ≠ .unchanged →
        if f.diff = .moved then f.storedState.filename.getD [] ≠ [] else f.ignore = false := by
  have hcounted := hr.reachedSite.counted
  constructor
  · intro hperm f hf hd
    have hread : ∀ g ∈ site.files, sectionCount site.stats g.diff > 0 →
        ∃ g' ∈ site.files, itemRead g = itemOf g' := by
      intro g hg hcount
      have hmem := hperm.mem_iff.mp ((mem_decode h hplain).mpr ⟨g, hg, hcount, rfl⟩)
      obtain ⟨g', hg', heq⟩ := List.mem_map.mp hmem
      exact ⟨g', (List.mem_filter.mp hg').1, heq.symm⟩
    have htold : itemOf f ∈ decode (siteFlatlist h site) :=
      hperm.mem_iff.mpr (List.mem_map_of_mem (List.mem_filter.mpr ⟨hf, by simpa using hd⟩))
    obtain ⟨g, hg, hcount, heq⟩ := (mem_decode h hplain).mp htold
    have hkind : g.diff = f.diff := congrArg Item.kind heq
    rw [hkind] at hcount
    obtain ⟨g', -, hread⟩ := hread f hf hcount
    have hkind' : f.diff = g'.diff := congrArg Item.kind hread
    have hold : (if thirdField f ≠ [] then some (thirdField f) else none) =
        if g'.diff = .moved then some (g'.storedState.filename.getD []) else none :=
      congrArg Item.old hread
    rw [← hkind'] at hold
    split_ifs with hmoved
    · -- an old name is read, so it is not empty
      rw [if_pos hmoved] at hold
      split_ifs at hold with hthird
      rwa [thirdField, if_pos hmoved] at hthird
    · -- no old name is read, so nothing was marked
      rw [if_neg hmoved] at hold
      split_ifs at hold with hthird
      rw [thirdField, if_neg hmoved] at hthird
      by_contra hignored
      rw [Bool.not_eq_false] at hignored
      rw [if_pos hignored] at hthird
      exact hthird (by decide)
  · intro htold
    rw [decode_siteFlatlist h hplain, sectionItems_told hcounted htold (by decide),
      sectionItems_told hcounted htold (by decide), sectionItems_told hcounted htold (by decide),
      sectionItems_told hcounted htold (by decide), ← List.map_append, ← List.map_append,
      ← List.map_append]
    exact (perm_sections site.files).map itemOf

end Decode

def heading : Heading where
  name := ascii "web"
  url := none
  name_line := by decide
  url_line := by simp

theorem decode_flatlist_iff_sample :
    (decode (siteFlatlist heading sampleSite)).Perm
        ((sampleSite.files.filter fun f => f.diff ≠ .unchanged).map itemOf) ↔
      ∀ f ∈ sampleSite.files, f.diff ≠ .unchanged →
        if f.diff = .moved then f.storedState.filename.getD [] ≠ [] else f.ignore = false :=
  decode_flatlist_iff (o := {}) (.setStored _ _ (.setLocal _ _ .empty rfl) rfl) heading
    (by decide)

/-- A new file `a` that matches an ignore pattern. -/
def ignoredFile : Site :=
  (fileSetLocal .file { filename := some (ascii "a"), existing := true }
    { opts := { ignores := [⟨ascii "a", false⟩], fnmatch := fun _ p t => p = t } }).1

/-- Its mark is read as an old name. -/
theorem ignored_item_misread :
    Reached { ignores := [⟨ascii "a", false⟩], fnmatch := fun _ p t => p = t } ignoredFile ∧
      (∀ f ∈ ignoredFile.files, PlainNames f) ∧
      decode (siteFlatlist heading ignoredFile) =
        [⟨.new, ascii "a", some (ascii "ignored")⟩] ∧
      ¬ (decode (siteFlatlist heading ignoredFile)).Perm
        ((ignoredFile.files.filter fun f => f.diff ≠ .unchanged).map itemOf) := by
  have hplain : ∀ f ∈ ignoredFile.files, PlainNames f := by decide
  have hread : decode (siteFlatlist heading ignoredFile) =
      [⟨.new, ascii "a", some (ascii "ignored")⟩] := by
    rw [decode_siteFlatlist heading hplain]
    decide +kernel
  have hexpected : (ignoredFile.files.filter fun f => f.diff ≠ .unchanged).map itemOf =
      [⟨.new, ascii "a", none⟩] := by decide
  refine ⟨.setLocal _ _ .empty rfl, hplain, hread, ?_⟩
  rw [hread, hexpected]
  decide

end Sitecopy.FlatList
