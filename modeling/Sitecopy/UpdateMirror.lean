import Sitecopy.RemoteTree

/-!
# Updates mirror the local tree

The entries of a list show one tree on the local side and one on the stored side. If the stored
side shows the remote tree, an update makes the remote tree the local one, unless a file takes
the place of a directory.
-/
namespace Sitecopy.UpdateMirror
open SiteModel FileSet FileSetSpec StateProgram SiteStats SiteUpdate UpdateAccounting
open UpdateConvergence ReachedFiles HiddenPaths DirectoryLists DirectoryOrder FileTrees Paths
open DriverCalls RemoteTree

variable {β : Type}

/-! ### Lists that show trees -/

/-- The tree has a file of the type at the path. -/
def Holds (t : Tree UInt8 β) (type : FileType) (n : Text) : Prop :=
  match type with
  | .file => IsFile t n
  | .dir => t n = some .dir
  | .link => False

/-- The entries on side `s` are the directories and files of the tree. -/
structure Shows (s : Slot) (files : List SiteFile) (t : Tree UInt8 β) : Prop where
  closed : Closed slash t
  entries : ∀ type n, Holds t type n ↔ ∃ f ∈ files, f.type = type ∧ sideName s f = some n

/-- No two entries have the same type and the same name on either side. -/
def Matched (files : List SiteFile) : Prop :=
  ∀ f ∈ files, ∀ g ∈ files, ∀ s s' n, f.type = g.type → sideName s f = some n →
    sideName s' g = some n → f = g

/-- A list that shows the local tree, and whose record of the remote tree is what there is. -/
structure Shown (o : SiteOptions) (files : List SiteFile) (L R : Tree UInt8 β) : Prop where
  nodup : files.Nodup
  entries : ∀ f ∈ files, Entry o f
  matched : Matched files
  ordered : Ordered files
  locals : Shows .localSlot files L
  stored : Shows .storedSlot files R
  /-- files that do not look changed are the same on both sides -/
  honest : ∀ f ∈ files, f.type = .file → f.localState.existing = true →
    f.storedState.existing = true → fileContentsChanged o f = false →
      R (localName f) = L (localName f)

/-- A list before an update. -/
structure Listed (o : SiteOptions) (files : List SiteFile) (L R : Tree UInt8 β) : Prop
    extends Shown o files L R where
  notHeld : ∀ f ∈ files, ¬ Held f
  /-- the names of temporary files are not in use -/
  temps : o.tempupload = true → ∀ n, IsFile L n →
    L (tempUploadFilename n) = none ∧ R (tempUploadFilename n) = none

section Entries
variable {o : SiteOptions} {files : List SiteFile} {t : Tree UInt8 β} {f g : SiteFile}
  {s : Slot} {type : FileType} {n : Text} {p : Handler}

/-- The name of an entry on one side. -/
def nameOn (s : Slot) (f : SiteFile) : Text := (s.get f).filename.getD []

lemma side_some (h : sideName s f = some n) : (s.get f).existing = true ∧ nameOn s f = n := by
  unfold sideName at h
  split_ifs at h with hex
  exact ⟨hex, by rw [nameOn, h, Option.getD_some]⟩

lemma NamesOk.side (h : NamesOk f) (hex : (s.get f).existing = true) :
    sideName s f = some (nameOn s f) := by
  have hname : ∃ n, (s.get f).filename = some n := by
    cases s with
    | localSlot => exact (h.localName hex).imp fun _ => And.left
    | storedSlot => exact (h.storedName hex).imp fun _ => And.left
  obtain ⟨n, hn⟩ := hname
  rw [sideName, if_pos hex, nameOn, hn, Option.getD_some]

lemma Shows.entry (h : Shows s files t) (type : FileType) (hn : Holds t type n) :
    ∃ f ∈ files, f.type = type ∧ (s.get f).existing = true ∧ nameOn s f = n := by
  obtain ⟨f, hf, ht, hside⟩ := (h.entries type n).mp hn
  exact ⟨f, hf, ht, side_some hside⟩

lemma Shows.there (h : Shows s files t) (ho : Ordered files) (hf : f ∈ files)
    (hex : (s.get f).existing = true) : Holds t f.type (nameOn s f) :=
  (h.entries _ _).mpr ⟨f, hf, rfl, NamesOk.side (ho.entries f hf) hex⟩

/-- The name of an entry that is missing on one side is free there. -/
lemma Shows.missing (h : Shows s files t) (hm : Matched files) (ho : Ordered files)
    (hf : f ∈ files) (hex : (s.get f).existing = false) (hother : (s.other.get f).existing = true) :
    ¬ Holds t f.type (nameOn s.other f) := by
  intro hn
  obtain ⟨g, hg, ht, hside⟩ := (h.entries _ _).mp hn
  obtain rfl := hm f hf g hg _ _ _ ht.symm (NamesOk.side (ho.entries f hf) hother) hside
  rw [(side_some hside).1] at hex
  cases hex

lemma sameName (hoff : o.checkmoved = false) (he : Entry o f) (hl : f.localState.existing = true)
    (hs : f.storedState.existing = true) : storedName f = localName f := by
  unfold storedName localName
  rcases he.paired.named hl hs with hsame | ⟨hmoved, -⟩
  · rw [hsame]
  · rw [hoff] at hmoved
    cases hmoved

/-- A diff says which of the states there are. -/
lemma diff_cases (hoff : o.checkmoved = false) (he : Entry o f) :
    f.diff = .deleted ∧ f.localState.existing = false ∧ f.storedState.existing = true ∨
      f.diff = .new ∧ f.localState.existing = true ∧ f.storedState.existing = false ∨
      (f.diff = .changed ∨ f.diff = .unchanged) ∧ f.localState.existing = true ∧
        f.storedState.existing = true := by
  have hc := he.ok.compared.symm
  cases hd : f.diff with
  | deleted =>
    have hl := fileCompare_deleted_iff.mp (hc.trans hd)
    exact Or.inl ⟨rfl, hl, he.ok.present.resolve_left (by simp [hl])⟩
  | new => exact Or.inr (Or.inl ⟨rfl, fileCompare_new_iff.mp (hc.trans hd)⟩)
  | changed =>
    exact Or.inr (Or.inr ⟨Or.inl rfl, fileCompare_both (hc.trans hd) (by decide) (by decide)⟩)
  | unchanged =>
    exact Or.inr (Or.inr ⟨Or.inr rfl, fileCompare_both (hc.trans hd) (by decide) (by decide)⟩)
  | moved =>
    have hon := (fileCompare_moved (hc.trans hd)).2.1
    rw [hoff] at hon
    cases hon

end Entries

/-! ### Entries with changes -/

/-- The entries to act on, each with a path and its changes. -/
def blocksOf (acts : SiteFile → Prop) [DecidablePred acts] (path : SiteFile → Text)
    (changes : SiteFile → List (Change UInt8 β)) (files : List SiteFile) :
    List (Text × List (Change UInt8 β)) :=
  files.filterMap fun f => if acts f then some (path f, changes f) else none

section Selected
variable {acts : SiteFile → Prop} [DecidablePred acts] {path : SiteFile → Text}
  {changes : SiteFile → List (Change UInt8 β)} {files : List SiteFile} {n : Text}
  {b : Text × List (Change UInt8 β)} {type : FileType} {s : Slot}

lemma mem_blocksOf : b ∈ blocksOf acts path changes files ↔
    ∃ f ∈ files, acts f ∧ b = (path f, changes f) := by
  unfold blocksOf
  rw [List.mem_filterMap]
  constructor
  · rintro ⟨f, hf, hb⟩
    split_ifs at hb with hact
    exact ⟨f, hf, hact, (Option.some.inj hb).symm⟩
  · rintro ⟨f, hf, hact, rfl⟩
    exact ⟨f, hf, if_pos hact⟩

lemma blocksOf_changes (h : ∀ f, ¬ acts f → changes f = []) :
    (blocksOf acts path changes files).flatMap Prod.snd = files.flatMap changes := by
  induction files with
  | nil => rfl
  | cons f files ih =>
    unfold blocksOf at ih ⊢
    rw [List.filterMap_cons, List.flatMap_cons, ← ih]
    split_ifs with hact
    · rfl
    · rw [h f hact]
      rfl

lemma blocksOf_paths : (blocksOf acts path changes files).map Prod.fst =
    files.filterMap fun f => if acts f then some (path f) else none := by
  unfold blocksOf
  rw [List.map_filterMap]
  apply List.filterMap_congr
  intro f _
  split_ifs <;> rfl

lemma mem_pathsOf : n ∈ (blocksOf acts path changes files).map Prod.fst ↔
    ∃ f ∈ files, acts f ∧ path f = n := by
  rw [blocksOf_paths, List.mem_filterMap]
  constructor
  · rintro ⟨f, hf, hn⟩
    split_ifs at hn with hact
    exact ⟨f, hf, hact, Option.some.inj hn⟩
  · rintro ⟨f, hf, hact, rfl⟩
    exact ⟨f, hf, if_pos hact⟩

/-- The changes of entries with one change each. -/
lemma blocksOf_single {change : Text → Change UInt8 β} (h : ∀ f, ¬ acts f → changes f = [])
    (hone : ∀ f, acts f → changes f = [change (path f)]) :
    files.flatMap changes = ((blocksOf acts path changes files).map Prod.fst).map change := by
  rw [← @blocksOf_changes _ _ _ path _ files h, List.map_map,
    ← List.flatMap_singleton' (List.map _ _), List.flatMap_map]
  apply List.flatMap_congr
  intro b hb
  obtain ⟨f, -, hact, rfl⟩ := mem_blocksOf.mp hb
  exact hone f hact

lemma blocksOf_nodup (hnd : files.Nodup) (hm : Matched files)
    (ha : ∀ f ∈ files, acts f → f.type = type ∧ ∃ s, sideName s f = some (path f)) :
    ((blocksOf acts path changes files).map Prod.fst).Nodup := by
  rw [blocksOf_paths, List.Nodup, List.pairwise_filterMap]
  apply List.Pairwise.imp_of_mem _ hnd
  intro f g hf hg hne a hfa b hgb hab
  split_ifs at hfa hgb with hactf hactg
  obtain ⟨htf, s, hs⟩ := ha f hf hactf
  obtain ⟨htg, s', hs'⟩ := ha g hg hactg
  have hpath : path f = path g := Option.some.inj (hfa.trans (hab ▸ hgb.symm))
  exact hne (hm f hf g hg s s' (path f) (htf.trans htg.symm) hs (hpath ▸ hs'))

lemma blocksOf_ordered (ho : Ordered files)
    (ha : ∀ f ∈ files, acts f → f.type = .dir ∧ sideName s f = some (path f)) :
    ParentsFirst slash ((blocksOf acts path changes files).map Prod.fst) := by
  have hsides : ParentsFirst slash (files.filterMap fun f =>
      if f.type = .dir then sideName s f else none) := by
    cases s with
    | localSlot => exact ho.sides.1
    | storedSlot => exact ho.sides.2
  rw [blocksOf_paths]
  apply hsides.sublist
  apply filterMap_sublist
  intro f hf n hn
  split_ifs at hn with hact
  obtain ⟨ht, hside⟩ := ha f hf hact
  rw [if_pos ht, hside]
  exact hn

end Selected

/-! ### The plan of an update -/

/-- The entries on which a handler acts, each with its path and its changes. -/
def blocks (o : SiteOptions) (source : Tree UInt8 β) (p : Handler) (s : Slot)
    (files : List SiteFile) : List (Text × List (Change UInt8 β)) :=
  blocksOf (fun f => activeHandler f = some p) (nameOn s) (turnChanges o source p) files

section Blocks
variable {o : SiteOptions} {files : List SiteFile} {source : Tree UInt8 β} {f : SiteFile}
  {s : Slot} {p : Handler} {n : Text} {b : Text × List (Change UInt8 β)}

lemma mem_blocks : b ∈ blocks o source p s files ↔
    ∃ f ∈ files, activeHandler f = some p ∧ b = (nameOn s f, turnChanges o source p f) :=
  mem_blocksOf

lemma blocks_changes (o : SiteOptions) (source : Tree UInt8 β) (p : Handler) (s : Slot)
    (files : List SiteFile) :
    (blocks o source p s files).flatMap Prod.snd = files.flatMap (turnChanges o source p) :=
  blocksOf_changes fun _ => turnChanges_active

lemma mem_paths : n ∈ (blocks o source p s files).map Prod.fst ↔
    ∃ f ∈ files, activeHandler f = some p ∧ nameOn s f = n := mem_pathsOf

/-- The changes of a handler that makes one change for each entry. -/
lemma blocks_single {change : Text → Change UInt8 β}
    (h : ∀ f, activeHandler f = some p → turnChanges o source p f = [change (nameOn s f)]) :
    files.flatMap (turnChanges o source p) =
      ((blocks o source p s files).map Prod.fst).map change :=
  blocksOf_single (fun _ => turnChanges_active) h

/-- Each entry that a handler acts on has a state on the side of its name. -/
def Acts (p : Handler) (type : FileType) (s : Slot) (files : List SiteFile) : Prop :=
  ∀ f ∈ files, activeHandler f = some p → f.type = type ∧ (s.get f).existing = true

lemma blocks_nodup {type : FileType} (hnd : files.Nodup) (hm : Matched files) (ho : Ordered files)
    (ha : Acts p type s files) : ((blocks o source p s files).map Prod.fst).Nodup :=
  blocksOf_nodup hnd hm fun f hf hact =>
    ⟨(ha f hf hact).1, s, NamesOk.side (ho.entries f hf) (ha f hf hact).2⟩

lemma blocks_ordered (ho : Ordered files) (ha : Acts p .dir s files) :
    ParentsFirst slash ((blocks o source p s files).map Prod.fst) :=
  blocksOf_ordered ho fun f hf hact =>
    ⟨(ha f hf hact).1, NamesOk.side (ho.entries f hf) (ha f hf hact).2⟩

end Blocks

/-! ### What the turns do to a tree -/

section Effects
variable {o : SiteOptions} {L R t : Tree UInt8 β} {f : SiteFile} {n : Text}

lemma chmod_runs {c : Prop} [Decidable c] (hn : t n ≠ none) :
    Runs slash (if c then [.chmod n] else []) t t := by
  split_ifs
  · exact ⟨hn, rfl⟩
  · rfl

lemma temp_ne (n : Text) : tempUploadFilename n ≠ n := by
  obtain ⟨d, hd, hroot, hno⟩ := afterSlash_suffix n
  intro heq
  have hlen := congrArg List.length heq
  rw [hd, tempUploadFilename_eq hroot hno] at hlen
  simp only [List.length_append, show (ascii ".in.").length = 4 from rfl] at hlen
  omega

/-- An upload puts the local contents in place. -/
lemma upload_runs (hdir : t (localName f) ≠ some .dir) (hreach : Reaches slash t (localName f))
    (hfile : IsFile L (localName f))
    (htemp : o.tempupload = true → t (tempUploadFilename (localName f)) = none) :
    Runs slash (uploadChanges o L f ++ permChanges o f) t
      (Function.update t (localName f) (L (localName f))) := by
  obtain ⟨c, hc⟩ := hfile
  have hperm : Runs slash (permChanges o f) (Function.update t (localName f) (some (.file c)))
      (Function.update t (localName f) (some (.file c))) := chmod_runs (by simp)
  unfold uploadChanges
  rw [hc]
  dsimp only
  generalize localName f = n at *
  split_ifs with hvia
  · have hnone := htemp hvia.2
    have hne := temp_ne n
    have hbelow : ∀ q, Below slash n q → q ≠ tempUploadFilename n := by
      rintro q hq rfl
      rw [hreach _ hq] at hnone
      cases hnone
    refine ⟨⟨by simp [hnone], fun q hq => hreach q (below_temp hq)⟩,
      ⟨⟨c, Function.update_self _ _ _⟩, ?_, fun q hq => ?_⟩, ?_⟩
    · change Function.update t _ _ n ≠ _
      rwa [Function.update_of_ne hne.symm]
    · exact (Function.update_of_ne (hbelow q hq) _ _).trans (hreach q hq)
    · have hmoved : (Renames.Rename.mk (tempUploadFilename n) n).apply
          (Function.update t (tempUploadFilename n) (some (.file c))) =
            Function.update t n (some (.file c)) := by
        rw [Renames.Rename.apply, Function.update_idem, Function.update_self]
        congr 1
        rw [← hnone, Function.update_eq_self]
      change Runs slash (permChanges o f) ((Renames.Rename.mk (tempUploadFilename n) n).apply
        (Function.update t (tempUploadFilename n) (some (.file c)))) _
      rw [hmoved]
      exact hperm
  · exact ⟨⟨hdir, hreach⟩, hperm⟩

lemma newFile_runs (hreach : Reaches slash t (localName f)) (hfile : IsFile L (localName f))
    (hdir : t (localName f) ≠ some .dir) (hold : f.diff = .changed → IsFile t (localName f))
    (htemp : o.tempupload = true → t (tempUploadFilename (localName f)) = none) :
    Runs slash (newFileChanges o L f) t
      (Function.update t (localName f) (L (localName f))) := by
  unfold newFileChanges
  rw [List.append_assoc]
  split_ifs with hdelete
  · refine ⟨hold hdelete.1, ?_⟩
    change Runs slash _ (Function.update t (localName f) none) _
    rw [← Function.update_idem (a := localName f) none (L (localName f)) t]
    apply upload_runs
    · simp
    · intro q hq
      have hne : q ≠ localName f := by
        rintro rfl
        exact hq.irrefl
      exact (Function.update_of_ne hne _ _).trans (hreach q hq)
    · exact hfile
    · intro hon
      exact (Function.update_of_ne (temp_ne _) _ _).trans (htemp hon)
  · exact upload_runs hdir hreach hfile htemp

lemma dirChanges_runs (hreach : Reaches slash t (localName f))
    (hnew : f.diff = .new → t (localName f) = none)
    (hold : f.diff ≠ .new → t (localName f) = some .dir) :
    Runs slash (dirChanges o f) t (Function.update t (localName f) (some .dir)) := by
  unfold dirChanges
  split_ifs with hd hperm hperm
  · refine ⟨⟨hnew hd, hreach⟩, ?_, rfl⟩
    exact (Function.update_self (localName f) _ t).trans_ne (by simp)
  · exact ⟨⟨hnew hd, hreach⟩, rfl⟩
  · refine ⟨(hold hd).trans_ne (by simp), ?_⟩
    exact Function.update_eq_self_iff.mpr (hold hd).symm
  · exact Function.update_eq_self_iff.mpr (hold hd).symm

end Effects

/-! ### The update of a tree -/

/-- No file is where a directory was. -/
def NoClash (L R : Tree UInt8 β) : Prop := ∀ n, R n = some .dir → ¬ IsFile L n

/-- The handler that makes the files of a type. -/
def sendHandler : FileType → Handler
  | .file => .files
  | .dir => .createDirectories
  | .link => .links

section Handlers
variable {f : SiteFile}

lemma active_delete (type : FileType) (ht : type ≠ .link) :
    activeHandler f = some (deleteHandler type) ↔ f.type = type ∧ f.diff = .deleted := by
  cases type <;> cases hd : f.diff <;> cases htf : f.type <;>
    simp [activeHandler, hd, htf, deleteHandler] at ht ⊢

lemma active_send (type : FileType) (ht : type ≠ .link) :
    activeHandler f = some (sendHandler type) ↔
      f.type = type ∧ (f.diff = .new ∨ f.diff = .changed) := by
  cases type <;> cases hd : f.diff <;> cases htf : f.type <;>
    simp [activeHandler, hd, htf, sendHandler] at ht ⊢

end Handlers

section Mirror
variable {o : SiteOptions} {files : List SiteFile} {L R : Tree UInt8 β} {n : Text}
  {f : SiteFile} {type : FileType}

lemma Listed.deletes (h : Listed o files L R) (type : FileType) (hp : Plain o) (ht : type ≠ .link) :
    Acts (deleteHandler type) type .storedSlot files := by
  intro f hf hact
  obtain ⟨htype, hd⟩ := (active_delete type ht).mp hact
  refine ⟨htype, ?_⟩
  rcases diff_cases hp.checkmoved (h.entries f hf) with ⟨-, -, hs⟩ | ⟨hno, -⟩ | ⟨-, -, hs⟩
  · exact hs
  · rw [hd] at hno
    cases hno
  · exact hs

lemma Listed.sends (h : Listed o files L R) (type : FileType) (ht : type ≠ .link) :
    Acts (sendHandler type) type .localSlot files := by
  intro f hf hact
  obtain ⟨htype, hd⟩ := (active_send type ht).mp hact
  exact ⟨htype, (h.entries f hf).ok.compared.localExisting hd⟩

/-- What is deleted is what only the remote tree has. -/
lemma Listed.mem_deleted (h : Listed o files L R) (type : FileType) (hp : Plain o)
    (ht : type ≠ .link) :
    n ∈ (blocks o L (deleteHandler type) .storedSlot files).map Prod.fst ↔
      Holds R type n ∧ ¬ Holds L type n := by
  rw [mem_paths]
  constructor
  · rintro ⟨f, hf, hact, rfl⟩
    obtain ⟨rfl, hs⟩ := h.deletes type hp ht f hf hact
    have hd := ((active_delete _ ht).mp hact).2
    have hl : f.localState.existing = false := (h.entries f hf).paired.deleted_iff.mp hd
    exact ⟨h.stored.there h.ordered hf hs, h.locals.missing h.matched h.ordered hf hl hs⟩
  · rintro ⟨hR, hL⟩
    obtain ⟨f, hf, rfl, hs, rfl⟩ := h.stored.entry type hR
    refine ⟨f, hf, (active_delete _ ht).mpr ⟨rfl, ?_⟩, rfl⟩
    rw [(h.entries f hf).paired.deleted_iff]
    by_contra hl
    rw [Bool.not_eq_false] at hl
    apply hL
    rw [show nameOn .storedSlot f = _ from sameName hp.checkmoved (h.entries f hf) hl hs]
    exact h.locals.there h.ordered hf hl

lemma Listed.of_sent (h : Listed o files L R) (type : FileType) (ht : type ≠ .link)
    (hn : n ∈ (blocks o L (sendHandler type) .localSlot files).map Prod.fst) :
    Holds L type n := by
  obtain ⟨f, hf, hact, rfl⟩ := mem_paths.mp hn
  obtain ⟨rfl, hl⟩ := h.sends type ht f hf hact
  exact h.locals.there h.ordered hf hl

/-- What the remote tree has not got is sent. -/
lemma Listed.new_sent (h : Listed o files L R) (type : FileType) (hp : Plain o) (ht : type ≠ .link)
    (hL : Holds L type n) (hR : ¬ Holds R type n) :
    n ∈ (blocks o L (sendHandler type) .localSlot files).map Prod.fst := by
  obtain ⟨f, hf, rfl, hl, rfl⟩ := h.locals.entry type hL
  refine mem_paths.mpr ⟨f, hf, (active_send _ ht).mpr ⟨rfl, Or.inl ?_⟩, rfl⟩
  rcases diff_cases hp.checkmoved (h.entries f hf) with ⟨-, hno, -⟩ | ⟨hd, -⟩ | ⟨-, -, hs⟩
  · rw [show f.localState.existing = true from hl] at hno
    cases hno
  · exact hd
  · exfalso
    apply hR
    rw [show nameOn .localSlot f = _ from (sameName hp.checkmoved (h.entries f hf) hl hs).symm]
    exact h.stored.there h.ordered hf hs

lemma contents_unchanged (hc : Compared o f) (ht : f.type = .file) (hd : f.diff = .unchanged) :
    fileContentsChanged o f = false := by
  have hcmp := hc.symm.trans hd
  obtain ⟨hl, hs⟩ := fileCompare_both hcmp (by decide) (by decide)
  rw [ht, fileCompare_file hl hs] at hcmp
  rw [contents_eq]
  split_ifs at hcmp with hm ha
  simp [hm, ha]

/-- If nothing differs, both trees are the same. -/
lemma Shown.same (h : Shown o files L R) (hoff : o.checkmoved = false)
    (hsame : ∀ f ∈ files, f.diff = .unchanged) : L = R := by
  have hboth : ∀ f ∈ files, f.localState.existing = true ∧ f.storedState.existing = true ∧
      storedName f = localName f := by
    intro f hf
    have he := h.entries f hf
    obtain ⟨hl, hs⟩ :=
      fileCompare_both (he.ok.compared.symm.trans (hsame f hf)) (by decide) (by decide)
    exact ⟨hl, hs, sameName hoff he hl hs⟩
  have hfile : ∀ n, IsFile L n → R n = L n := by
    intro n hL
    obtain ⟨f, hf, ht, hl, rfl⟩ := h.locals.entry .file hL
    obtain ⟨-, hs, -⟩ := hboth f hf
    exact h.honest f hf ht hl hs
      (contents_unchanged (h.entries f hf).ok.compared ht (hsame f hf))
  have hdir : ∀ n, L n = some .dir ↔ R n = some .dir := by
    intro n
    constructor
    · intro hL
      obtain ⟨f, hf, ht, hl, rfl⟩ := h.locals.entry .dir hL
      obtain ⟨-, hs, hname⟩ := hboth f hf
      have hthere := h.stored.there h.ordered hf hs
      rwa [ht, show nameOn .storedSlot f = _ from hname] at hthere
    · intro hR
      obtain ⟨f, hf, ht, hs, rfl⟩ := h.stored.entry .dir hR
      obtain ⟨hl, -, hname⟩ := hboth f hf
      have hthere := h.locals.there h.ordered hf hl
      rwa [ht, show nameOn .localSlot f = _ from hname.symm] at hthere
  funext n
  rcases node_cases L n with hL | hL | hL
  · rcases node_cases R n with hR | hR | hR
    · rw [hL, hR]
    · rw [hR, (hdir n).mpr hR]
    · obtain ⟨f, hf, ht, hs, rfl⟩ := h.stored.entry .file hR
      obtain ⟨hl, -, hname⟩ := hboth f hf
      have hthere := h.locals.there h.ordered hf hl
      rw [ht, show nameOn .localSlot f = _ from hname.symm] at hthere
      exact (hfile _ hthere).symm
  · rw [hL, (hdir n).mp hL]
  · exact (hfile n hL).symm

/-- A file that is not sent is there already. -/
lemma Listed.file_sent (h : Listed o files L R) (hp : Plain o) (hL : IsFile L n) :
    n ∈ (blocks o L .files .localSlot files).map Prod.fst ∨ R n = L n := by
  obtain ⟨f, hf, ht, hl, rfl⟩ := h.locals.entry .file hL
  have he := h.entries f hf
  have hmem : f.diff = .new ∨ f.diff = .changed →
      nameOn .localSlot f ∈ (blocks o L .files .localSlot files).map Prod.fst := fun hd =>
    mem_paths.mpr ⟨f, hf, (active_send .file (by decide)).mpr ⟨ht, hd⟩, rfl⟩
  rcases diff_cases hp.checkmoved he with ⟨-, hno, -⟩ | ⟨hd, -⟩ | ⟨hd | hd, -, hs⟩
  · rw [show f.localState.existing = true from hl] at hno
    cases hno
  · exact Or.inl (hmem (Or.inl hd))
  · exact Or.inl (hmem (Or.inr hd))
  · exact Or.inr (h.honest f hf ht hl hs (contents_unchanged he.ok.compared ht hd))

/-- What a directory's turn does to a tree on the way. -/
lemma Listed.makes (h : Listed o files L R) (hp : Plain o) {t : Tree UInt8 β} (hf : f ∈ files)
    (hact : activeHandler f = some .createDirectories)
    (hold : R (localName f) = some .dir → t (localName f) = some .dir)
    (hnew : R (localName f) ≠ some .dir → t (localName f) = none)
    (hreach : Reaches slash t (localName f)) :
    Runs slash (turnChanges o L .createDirectories f) t
      (Function.update t (localName f) (some .dir)) := by
  obtain ⟨ht, hd⟩ := (active_send .dir (by decide)).mp hact
  have he := h.entries f hf
  have hl := he.ok.compared.localExisting hd
  have hchanges : turnChanges o L .createDirectories f = dirChanges o f := if_pos hact
  rw [hchanges]
  apply dirChanges_runs hreach
  · intro hd
    have hs := (fileCompare_new_iff.mp (he.ok.compared.symm.trans hd)).2
    have hmissing := h.stored.missing h.matched h.ordered hf hs hl
    rw [ht] at hmissing
    exact hnew hmissing
  · intro hd'
    have hd := hd.resolve_left hd'
    have hs := (fileCompare_both (he.ok.compared.symm.trans hd) (by decide) (by decide)).2
    have hthere := h.stored.there h.ordered hf hs
    rw [ht, show nameOn .storedSlot f = _ from sameName hp.checkmoved he hl hs] at hthere
    exact hold hthere

/-- What a file's turn does to a tree on the way. -/
lemma Listed.stores (h : Listed o files L R) (hp : Plain o) (hclash : NoClash L R)
    {t : Tree UInt8 β} (hf : f ∈ files) (hact : activeHandler f = some .files)
    (hsame : t (localName f) = R (localName f)) (hreach : Reaches slash t (localName f))
    (hnone : ∀ q, R q = none → L q = none → t q = none) :
    Runs slash (turnChanges o L .files f) t
      (Function.update t (localName f) (L (localName f))) := by
  obtain ⟨ht, hd⟩ := (active_send .file (by decide)).mp hact
  have he := h.entries f hf
  have hl := he.ok.compared.localExisting hd
  have hfile : IsFile L (localName f) := by
    have hthere := h.locals.there h.ordered hf hl
    rw [ht] at hthere
    exact hthere
  have hchanged : f.diff = .changed → f.storedState.existing = true := fun hd =>
    (fileCompare_both (he.ok.compared.symm.trans hd) (by decide) (by decide)).2
  have hi : ¬ (f.diff = .changed ∧ f.ignore = true) := fun hi =>
    h.notHeld f hf ⟨ht, hi.1, hi.2⟩
  unfold turnChanges
  rw [if_pos hact]
  dsimp only
  rw [if_neg hi]
  split_ifs with hperms
  · -- only the permissions are set
    have heq : t (localName f) = L (localName f) :=
      hsame.trans (h.honest f hf ht hl (hchanged hperms.1) hperms.2)
    rw [← heq, Function.update_eq_self]
    apply chmod_runs
    rw [heq]
    obtain ⟨c, hc⟩ := hfile
    simp [hc]
  · apply newFile_runs hreach hfile
    · rw [hsame]
      exact fun hdir => hclash _ hdir hfile
    · intro hd
      have hthere := h.stored.there h.ordered hf (hchanged hd)
      rw [ht, show nameOn .storedSlot f = _ from
        sameName hp.checkmoved he hl (hchanged hd)] at hthere
      unfold IsFile
      rw [hsame]
      exact hthere
    · intro hon
      obtain ⟨hL, hR⟩ := h.temps hon _ hfile
      exact hnone _ hR hL

/-- The changes of an update in a plan that leads from the remote tree to the local one. -/
def plan (h : Listed o files L R) (hp : Plain o) (hclash : NoClash L R) : Plan slash R L where
  gone := (blocks o L .deleteFiles .storedSlot files).map Prod.fst
  dirs := blocks o L .createDirectories .localSlot files
  files := blocks o L .files .localSlot files
  olds := ((blocks o L .deleteDirectories .storedSlot files).map Prod.fst).reverse
  closedSource := h.stored.closed
  closedTarget := h.locals.closed
  kept := hclash
  goneNodup := blocks_nodup h.nodup h.matched h.ordered (h.deletes .file hp (by decide))
  gone_file _ hn := (h.mem_deleted .file hp (by decide)).mp hn
  gone_of_dir _ hR hL := (h.mem_deleted .file hp (by decide)).mpr
    ⟨hR, fun hfile => hfile.not_dir hL⟩
  gone_of_file _ hR hL := Or.inl ((h.mem_deleted .file hp (by decide)).mpr ⟨hR, hL⟩)
  dirsNodup := blocks_nodup h.nodup h.matched h.ordered (h.sends .dir (by decide))
  dirsOrdered := blocks_ordered h.ordered (h.sends .dir (by decide))
  dirs_dir _ hb := h.of_sent .dir (by decide) (List.mem_map_of_mem hb)
  mem_dirs _ hL hR := h.new_sent .dir hp (by decide) hL hR
  makes b hb t hold hnew hreach := by
    obtain ⟨f, hf, hact, rfl⟩ := mem_blocks.mp hb
    exact h.makes hp hf hact hold hnew hreach
  filesNodup := blocks_nodup h.nodup h.matched h.ordered (h.sends .file (by decide))
  files_cases b hb := by
    have hL := h.of_sent .file (by decide) (List.mem_map_of_mem hb)
    refine ⟨fun hgone => ?_, Or.inl hL⟩
    exact ((h.mem_deleted .file hp (by decide)).mp hgone).2 hL
  mem_files _ hL := h.file_sent hp hL
  stores b hb t hsame hreach hnone := by
    obtain ⟨f, hf, hact, rfl⟩ := mem_blocks.mp hb
    exact h.stores hp hclash hf hact hsame hreach hnone
  oldsNodup := List.nodup_reverse.mpr
    (blocks_nodup h.nodup h.matched h.ordered (h.deletes .dir hp (by decide)))
  oldsOrdered := by
    rw [List.reverse_reverse]
    exact blocks_ordered h.ordered (h.deletes .dir hp (by decide))
  mem_olds n := by
    rw [List.mem_reverse]
    exact h.mem_deleted .dir hp (by decide)

lemma changes_plan (h : Listed o files L R) (hp : Plain o) (hclash : NoClash L R) :
    updateChanges o L files = (plan h hp hclash).changes := by
  have hgone : ∀ f, activeHandler f = some .deleteFiles →
      turnChanges o L .deleteFiles f = [.unlink (nameOn .storedSlot f)] := fun f hact => if_pos hact
  have hold : ∀ f, activeHandler f = some .deleteDirectories →
      turnChanges o L .deleteDirectories f = [.rmdir (nameOn .storedSlot f)] := fun f hact =>
    if_pos hact
  have hreverse : ((blocks o L .deleteDirectories .storedSlot files.reverse).map Prod.fst) =
      ((blocks o L .deleteDirectories .storedSlot files).map Prod.fst).reverse := by
    unfold blocks blocksOf
    rw [List.filterMap_reverse, List.map_reverse]
  unfold updateChanges passChanges Plan.changes plan
  dsimp only
  rw [if_neg (by decide), if_neg (by decide), if_neg (by decide), if_pos rfl,
    blocks_single hgone, blocks_single hold, hreverse, blocks_changes, blocks_changes]

lemma Listed.ready (h : Listed o files L R) : ∀ f ∈ files, Ready o L f := by
  refine fun f hf _ => ⟨h.entries f hf, fun hact => ?_⟩
  obtain ⟨ht, hl⟩ := h.sends .file (by decide) f hf hact
  have hthere := h.locals.there h.ordered hf hl
  rw [ht] at hthere
  exact hthere

end Mirror

/-! ### What an update of a tree leaves -/

section After
variable {o : SiteOptions} {files files' : List SiteFile} {L R : Tree UInt8 β} {f g : SiteFile}

/-- An entry that no handler acts on is up to date. -/
lemma unchanged_of_idle (hp : Plain o) (he : Entry o f) (hheld : ¬ Held f)
    (h : ∀ e ∈ handlerTable o, e.2 = true → activeHandler f = some e.1 → Held f) :
    f.diff = .unchanged := by
  have hno : ∀ p, (p, true) ∈ handlerTable o → activeHandler f ≠ some p := fun p hmem hact =>
    hheld (h _ hmem rfl hact)
  have hdelete : deletesType o f.type = true := by
    cases ht : f.type with
    | link => exact absurd ht he.nolink
    | file | dir => simp [deletesType, hp.nodelete]
  rcases diff_cases hp.checkmoved he with ⟨hd, -⟩ | ⟨hd, -⟩ | ⟨hd | hd, -⟩
  · exact absurd (active_deleted hd) (hno _ (deleteHandler_guard.mpr hdelete))
  · cases ht : f.type with
    | link => exact absurd ht he.nolink
    | file =>
      exact absurd ((active_send .file (by decide)).mpr ⟨ht, Or.inl hd⟩)
        (hno .files (by simp [handlerTable]))
    | dir =>
      exact absurd ((active_send .dir (by decide)).mpr ⟨ht, Or.inl hd⟩)
        (hno .createDirectories (by simp [handlerTable]))
  · cases ht : f.type with
    | link => exact absurd ht he.nolink
    | file =>
      exact absurd ((active_send .file (by decide)).mpr ⟨ht, Or.inr hd⟩)
        (hno .files (by simp [handlerTable]))
    | dir =>
      exact absurd ((active_send .dir (by decide)).mpr ⟨ht, Or.inr hd⟩)
        (hno .createDirectories (by simp [handlerTable]))
  · exact hd

/-- The local state of an entry is recorded. -/
structure UpToDate (o : SiteOptions) (g : SiteFile) : Prop where
  unchanged : g.diff = .unchanged
  localExisting : g.localState.existing = true
  storedExisting : g.storedState.existing = true
  name : g.storedState.filename = g.localState.filename
  compared : Compared o g

/-- What an entry has of the one before the update. -/
structure Descends (modtime : Text → ℤ) (f g : SiteFile) : Prop where
  addr : g.addr = f.addr
  type : g.type = f.type
  localState : g.localState = f.localState
  served : Served modtime f g
  size : g.storedState.size = f.localState.size ∨ g.storedState.size = f.storedState.size
  time : g.storedState.time = f.localState.time ∨ g.storedState.time = f.storedState.time

/-- What an update leaves of the entries. -/
lemma Listed.after (h : Listed o files L R) (hp : Plain o)
    (hupdated : Updated o modtime (handlerTable o) files files') (hg : g ∈ files') :
    UpToDate o g ∧ ∃ f ∈ files, Descends modtime f g := by
  obtain ⟨f, hf, hcases⟩ := hupdated.sound g hg
  have he := h.entries f hf
  have hboth : ∀ x : SiteFile, Compared o x → x.diff = .unchanged →
      x.localState.existing = true ∧ x.storedState.existing = true := fun x hc hd =>
    fileCompare_both (hc.symm.trans hd) (by decide) (by decide)
  rcases hcases with ⟨rfl, hidle⟩ | hfresh
  · have hd := unchanged_of_idle hp he (h.notHeld g hf) hidle
    obtain ⟨hl, hs⟩ := hboth g he.ok.compared hd
    refine ⟨⟨hd, hl, hs, ?_, he.ok.compared⟩, g, hf, rfl, rfl, rfl, Or.inl rfl, Or.inr rfl,
      Or.inr rfl⟩
    rcases he.paired.named hl hs with hsame | ⟨hmoved, -⟩
    · exact hsame.symm
    · rw [hp.checkmoved] at hmoved
      cases hmoved
  · obtain ⟨hl, hs⟩ := hboth g hfresh.compared hfresh.diff
    exact ⟨⟨hfresh.diff, hl, hs, hfresh.name, hfresh.compared⟩, f, hf, hfresh.addr, hfresh.type,
      hfresh.localState, hfresh.served, hfresh.size, hfresh.time⟩

/-- Afterwards both sides of the list show the local tree. -/
lemma Listed.shows_after (h : Listed o files L R) (hp : Plain o)
    (hupdated : Updated o modtime (handlerTable o) files files') (s : Slot) : Shows s files' L where
  closed := h.locals.closed
  entries type n := by
    rw [h.locals.entries]
    have hside : ∀ g ∈ files', sideName s g = sideName .localSlot g := by
      intro g hg
      obtain ⟨hcurrent, -⟩ := h.after hp hupdated hg
      cases s with
      | localSlot => rfl
      | storedSlot =>
        unfold sideName Slot.get
        dsimp only
        rw [if_pos hcurrent.localExisting, if_pos hcurrent.storedExisting, hcurrent.name]
    have hlocal : ∀ f g : SiteFile, g.localState = f.localState →
        sideName .localSlot g = sideName .localSlot f := by
      intro f g heq
      unfold sideName Slot.get
      dsimp only
      rw [heq]
    constructor
    · rintro ⟨f, hf, ht, hn⟩
      have hd : f.diff ≠ .deleted := by
        intro hd
        rw [(h.entries f hf).paired.deleted_iff] at hd
        rw [show f.localState.existing = true from (side_some hn).1] at hd
        cases hd
      obtain ⟨g, hg, rfl | hfresh⟩ := hupdated.complete f hf hd
      · exact ⟨g, hg, ht, (hside g hg).trans hn⟩
      · refine ⟨g, hg, hfresh.type.trans ht, ?_⟩
        rw [hside g hg, hlocal f g hfresh.localState, hn]
    · rintro ⟨g, hg, ht, hn⟩
      obtain ⟨-, f, hf, hfrom⟩ := h.after hp hupdated hg
      refine ⟨f, hf, hfrom.type.symm.trans ht, ?_⟩
      rw [← hlocal f g hfrom.localState, ← hside g hg, hn]

end After

/-! ### A file in the place of a directory -/

section Clash
variable {o : SiteOptions} {L t : Tree UInt8 β} {modtime : Text → ℤ} {n loc : Text}
  {f : SiteFile} {files : List SiteFile} {p : Handler} {r : Run (Tree UInt8 β)}
  {change : Change UInt8 β}

/-- A call that removes no directory. -/
def KeepsDirs (_ : Option ℕ) (c : DriverCall) : Prop := ∀ path, c ≠ .dirRemove path

lemma stable_dir (o : SiteOptions) (L : Tree UInt8 β) (modtime : Text → ℤ) (n : Text) :
    Stable (treeDriver o L modtime) KeepsDirs fun r => r.sess n = some .dir where
  call _ c r hc hr := by
    dsimp only
    rcases exec_cases o L r.sess modtime c with hsame | ⟨change, hchange, henabled, hafter⟩
    · rw [hsame]
      exact hr
    · rw [hafter]
      apply henabled.keeps_dir _ hr
      rintro path rfl
      obtain ⟨path', hpath⟩ := requested_rmdir hchange
      exact hc path' hpath
  ask _ _ hr := hr
  stats _ _ hr := hr
  uploaded _ _ hr := hr
  removed _ _ hr := hr

lemma turn_keeps_dir (hp : p ≠ .deleteDirectories) (hr : r.sess n = some .dir) :
    Ends (p.turn (treeDriver o L modtime) o f) r fun _ r' => r'.sess n = some .dir := by
  have hstable : Stable (treeDriver o L modtime) (OwnCall o f p) fun r => r.sess n = some .dir := by
    apply (stable_dir o L modtime n).mono
    rintro a c ⟨-, hc⟩ path rfl
    cases hc
    exact hp rfl
  cases p with
  | deleteFiles => exact (updateDeleteFile_makes _ hstable r hr).mono fun _ _ h => h.2
  | createDirectories => exact (updateCreateDirectory_makes _ hstable r hr).mono fun _ _ h => h.2
  | moveFiles => exact (updateMoveFile_makes _ hstable r hr).mono fun _ _ h => h.2
  | files => exact (updateFile_makes _ hstable r hr).mono fun _ _ h => h.2
  | links => exact (updateLink_makes _ hstable r hr).mono fun _ _ h => h.2
  | deleteDirectories => exact absurd rfl hp

/-- A file is neither written over a directory nor moved there. -/
lemma over_dir (hdir : t n = some .dir) :
    (∀ a, requested o L (.fileUpload loc (o.remoteRoot ++ n) a) = some change →
      ¬ change.Enabled slash t) ∧
    (∀ a m, requested o L (.fileUploadCond loc (o.remoteRoot ++ n) a m) = some change →
      ¬ change.Enabled slash t) ∧
    (requested o L (.fileMove loc (o.remoteRoot ++ n)) = some change →
      ¬ change.Enabled slash t) := by
  refine ⟨fun a h henabled => ?_, fun a m h henabled => ?_, fun h henabled => ?_⟩
  · simp only [requested, relative_append] at h
    obtain ⟨loc', -, h⟩ := Option.bind_eq_some_iff.mp h
    split at h
    · cases h
      exact henabled.1 hdir
    · cases h
  · simp only [requested, relative_append] at h
    obtain ⟨loc', -, h⟩ := Option.bind_eq_some_iff.mp h
    split at h
    · cases h
      exact henabled.1 hdir
    · cases h
  · simp only [requested, relative_append] at h
    obtain ⟨src, -, h⟩ := Option.bind_eq_some_iff.mp h
    cases h
    exact henabled.2.1 hdir

/-- An upload fails if there is a directory in its place. -/
lemma uploadFile_fails (hp : Plain o) (hr : r.sess (localName f) = some .dir) :
    Ends (uploadFile (treeDriver o L modtime) o f) r fun out _ => out.2 = true := by
  have hremote := fullRemote_local (f := f) hp
  unfold uploadFile
  dsimp only
  rw [hremote]
  split_ifs
  · rw [ends_bind, ends_call, exec_failing (fun _ => (over_dir hr).2.1 _ _) rfl]
    rfl
  · rw [ends_bind, ends_call]
    split_ifs
    · simp only [ends_bind, ends_driverErr, ends_pure]
    · rw [ends_bind, ends_call, exec_failing (fun _ => (over_dir ?_).2.2) rfl]
      · rfl
      · exact (stable_dir o L modtime (localName f)).call f.addr (.fileUpload _ _ _) r
          (by rintro path ⟨⟩) hr
  · rw [ends_bind, ends_call, exec_failing (fun _ => (over_dir hr).1 _) rfl]
    rfl

lemma updateFile_fails (hp : Plain o) (ht : f.type = .file) (hd : f.diff = .new)
    (hr : r.sess (localName f) = some .dir) :
    Ends (updateFile (treeDriver o L modtime) o f) r fun out _ => out.2 = true := by
  unfold updateFile updateNewFile
  rw [if_neg (by simp [ht])]
  simp only [hd, ends_bind, ends_feCanUpdate]
  rw [if_pos (tree_yes f r.sess), if_neg (by simp)]
  exact uploadFile_fails hp hr

/-- The passes before keep both the directory and the entry. -/
lemma pass_keeps_dir (hp : p ≠ .deleteDirectories) (hact : activeHandler f ≠ some p)
    (hf : f ∈ files) (hr : r.sess n = some .dir) :
    Ends (p.pass (treeDriver o L modtime) o files) r fun out r' =>
      f ∈ out.1 ∧ r'.sess n = some .dir := by
  have hforward : Ends (forEach (p.turn (treeDriver o L modtime) o) files) r fun out r' =>
      f ∈ out.1 ∧ r'.sess n = some .dir := by
    apply (forEach_ends (I := fun done rest _ r => f ∈ done ++ rest ∧ r.sess n = some .dir) _
      ⟨hf, hr⟩).mono
    · intro out r' hout
      simpa using hout
    · rintro done g rest failed r ⟨hmem, hr⟩
      by_cases hg : g = f
      · rw [hg, turn_idle hact, ends_pure]
        exact ⟨by simp, hr⟩
      · apply (turn_keeps_dir hp hr).mono
        intro out r' hr'
        refine ⟨?_, hr'⟩
        simp only [List.mem_append, List.mem_cons, Ne.symm hg, false_or] at hmem ⊢
        exact hmem.imp_left Or.inl
  cases p with
  | deleteFiles | createDirectories | moveFiles | files | links => exact hforward
  | deleteDirectories => exact absurd rfl hp

lemma filesPass_fails (hp : Plain o) (ht : f.type = .file) (hd : f.diff = .new) (hf : f ∈ files)
    (hr : r.sess (localName f) = some .dir) :
    Ends (Handler.files.pass (treeDriver o L modtime) o files) r fun out _ => out.2 = true := by
  change Ends (forEach (Handler.files.turn (treeDriver o L modtime) o) files) r _
  apply (forEach_ends (I := fun _ rest failed r => r.sess (localName f) = some .dir ∧
      (failed = true ∨ f ∈ rest)) _ ⟨hr, Or.inr hf⟩).mono
  · rintro out r' ⟨-, hfailed | hmem⟩
    · exact hfailed
    · cases hmem
  · rintro done g rest failed r ⟨hr, hI⟩
    have hkept : Ends (Handler.files.turn (treeDriver o L modtime) o g) r
        fun _ r' => r'.sess (localName f) = some .dir := turn_keeps_dir (by decide) hr
    rcases hI with rfl | hmem
    · exact hkept.mono fun out r' hr' => ⟨hr', Or.inl rfl⟩
    · rcases List.mem_cons.mp hmem with rfl | hmem
      · exact (hkept.and (updateFile_fails hp ht hd hr)).mono fun out r' hout =>
          ⟨hout.1, Or.inl (by rw [hout.2, Bool.or_true])⟩
      · exact hkept.mono fun out r' hr' => ⟨hr', Or.inr hmem⟩

/-- What failed stays failed. -/
lemma runHandlers_failed (table : List (SiteUpdate.Pass (Tree UInt8 β) × Bool)) :
    Ends (runHandlers o table true files) r fun out _ => out.2 = true := by
  induction table generalizing files r with
  | nil => rfl
  | cons e table ih =>
    simp only [runHandlers, Bool.not_true, Bool.false_or, ends_ite, ends_bind, ends_pure,
      Bool.true_or]
    split_ifs
    · exact Ends.of_forall fun _ _ => ih
    · exact ih

lemma runHandlers_fails (hp : Plain o) (ht : f.type = .file) (hd : f.diff = .new)
    (before after : List (Handler × Bool))
    (hbefore : ∀ e ∈ before, e.1 ≠ .files ∧ e.1 ≠ .deleteDirectories) (hf : f ∈ files)
    (hr : r.sess (localName f) = some .dir) (failed : Bool) :
    Ends (runHandlers o ((before ++ (.files, true) :: after).map fun e =>
      (e.1.pass (treeDriver o L modtime) o, e.2)) failed files) r fun out _ => out.2 = true := by
  induction before generalizing files r failed with
  | nil =>
    cases failed with
    | true => exact runHandlers_failed _
    | false =>
      simp only [List.nil_append, List.map_cons, runHandlers, Bool.not_false, Bool.true_or,
        ↓reduceIte, ends_bind]
      apply (filesPass_fails hp ht hd hf hr).mono
      intro out r' hout
      rw [hout]
      exact runHandlers_failed _
  | cons e before ih =>
    have hrest : ∀ e ∈ before, e.1 ≠ .files ∧ e.1 ≠ .deleteDirectories :=
      fun e he => hbefore e (List.mem_cons_of_mem _ he)
    obtain ⟨hne, hdirs⟩ := hbefore e List.mem_cons_self
    cases failed with
    | true => exact runHandlers_failed _
    | false =>
      simp only [List.cons_append, List.map_cons, runHandlers, Bool.not_false, Bool.true_or,
        ↓reduceIte, ends_ite, ends_bind]
      split_ifs
      · have hact : activeHandler f ≠ some e.1 := by
          rw [(active_send .file (by decide)).mpr ⟨ht, Or.inl hd⟩]
          exact fun h => hne (Option.some.inj h).symm
        apply (pass_keeps_dir hdirs hact hf hr).mono
        rintro out r' ⟨hmem, hr'⟩
        exact ih hrest hmem hr' _
      · exact ih hrest hf hr _

/-- A new file in the place of a directory makes the update fail. -/
lemma siteUpdate_fails {site : Site} {R : Tree UInt8 β} (hp : Plain site.opts)
    (hf : f ∈ site.files) (ht : f.type = .file) (hd : f.diff = .new)
    (hR : R (localName f) = some .dir) :
    (siteUpdate (treeDriver site.opts L modtime) site R).ret = SITE_ERRORS := by
  have hrun : Ends (updateSiteFiles (treeDriver site.opts L modtime) site.opts site.files)
      { stats := site.stats, sess := R } fun out _ => out.2 = SITE_ERRORS := by
    unfold updateSiteFiles protoInit protoFinish
    simp only [ends_bind, ends_ite, ends_pure, ends_call, ends_driverErr]
    split_ifs with hret
    · exact absurd rfl hret
    · rw [handlers_eq]
      apply (runHandlers_fails hp ht hd [(.deleteFiles, !site.opts.nodelete),
        (.createDirectories, true), (.moveFiles, site.opts.checkmoved)]
        [(.links, site.opts.symlinks = .maintain), (.deleteDirectories, !site.opts.nodelete)]
        (by simp) hf (by exact hR) false).mono
      intro out r' hout
      rw [hout]
      rfl
  exact hrun

end Clash

/-! ### Updates that mirror a tree -/

/-- What an update has achieved that made the remote tree the local one: both sides of the list
show this tree, and nothing differs. -/
structure Mirrors (L : Tree UInt8 β) (result : UpdateResult (Tree UInt8 β)) : Prop where
  ret : result.ret = SITE_OK
  remote : result.sess = L
  shows : ∀ s, Shows s result.site.files L
  unchanged : ∀ f ∈ result.site.files, f.diff = .unchanged

/-- Without such a file the update does all its changes. -/
theorem Listed.updates {site : Site} {L R : Tree UInt8 β} (modtime : Text → ℤ)
    (h : Listed site.opts site.files L R) (hp : Plain site.opts) (hclash : NoClash L R) :
    (siteUpdate (treeDriver site.opts L modtime) site R).ret = SITE_OK ∧
      (siteUpdate (treeDriver site.opts L modtime) site R).sess = L ∧
      Updated site.opts modtime (handlerTable site.opts) site.files
        (siteUpdate (treeDriver site.opts L modtime) site R).site.files := by
  have hruns : Runs slash (updateChanges site.opts L site.files) R L := by
    rw [changes_plan h hp hclash]
    exact (plan h hp hclash).runs
  exact siteUpdate_does modtime hp h.ready hruns

/-- A new file. -/
def loneFile : SiteFile where
  addr := 0
  diff := .new
  localState := { filename := some (ascii "a"), existing := true }

def loneSite : Site := { opts := {}, files := [loneFile], freshAddr := 1 }

/-- A tree with this file only. -/
def loneTree : Tree UInt8 ℕ := Function.update (fun _ => none) (ascii "a") (some (.file 7))

end Sitecopy.UpdateMirror
