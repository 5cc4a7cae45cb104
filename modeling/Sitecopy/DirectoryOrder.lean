import Sitecopy.DirectoryLists
import Sitecopy.HiddenPaths
import Sitecopy.NamedEntries

/-!
# The order of the directories in a list

A list is ordered if none of its directories comes before one that it lies below, whether
the directory exists locally, is stored, or both. Every loop over the files keeps the
order, and reading an ordered state file into a scanned list gives an ordered list.
-/
namespace Sitecopy.DirectoryOrder
open SiteModel FileSet FileSetSpec StateProgram SiteStats StateFile DirectoryLists Paths
open NamedEntries HiddenPaths SiteUpdate UpdateAccounting DriverCalls ReachedFiles SiteOperations

/-- The name of a directory, which both of its states have if it has both. -/
def dirName (f : SiteFile) : Option Text :=
  if f.type = .dir then sideName .localSlot f <|> sideName .storedSlot f else none

def dirNames (files : List SiteFile) : List Text := files.filterMap dirName

/-- A state that exists has a name that is a C string. -/
def CNamed (s : FileState) : Prop := s.existing = true → ∃ n, s.filename = some n ∧ 0 ∉ n

structure NamesOk (f : SiteFile) : Prop where
  localName : CNamed f.localState
  storedName : CNamed f.storedState
  same : f.type = .dir → f.localState.existing = true → f.storedState.existing = true →
    f.localState.filename = f.storedState.filename

structure Ordered (files : List SiteFile) : Prop where
  entries : ∀ f ∈ files, NamesOk f
  distinct : (dirNames files).Nodup
  parentsFirst : ParentsFirst slash (dirNames files)

section Names
variable {f g : SiteFile} {files : List SiteFile}

lemma dirNames_eq (files : List SiteFile) :
    dirNames files = (dirPairs files).filterMap fun p => p.1 <|> p.2 := by
  unfold dirNames dirPairs
  rw [List.filterMap_filterMap]
  apply List.filterMap_congr
  intro f _
  unfold dirName dirPair
  split_ifs <;> rfl

/-- A function that finds more finds what it shares with another one in the same order. -/
lemma filterMap_sublist {α β : Type} {h h' : α → Option β} {l : List α}
    (hl : ∀ a ∈ l, ∀ b, h a = some b → h' a = some b) :
    (l.filterMap h).Sublist (l.filterMap h') := by
  induction l with
  | nil => exact List.Sublist.refl _
  | cons a l ih =>
    have hrest := ih fun x hx => hl x (List.mem_cons_of_mem a hx)
    cases ha : h a with
    | none =>
      rw [List.filterMap_cons_none ha]
      apply hrest.trans
      exact (List.sublist_cons_self a l).filterMap h'
    | some b =>
      rw [List.filterMap_cons_some ha, List.filterMap_cons_some (hl a List.mem_cons_self b ha)]
      exact hrest.cons_cons b

lemma localDirs_sublist (files : List SiteFile) : (localDirs files).Sublist (dirNames files) := by
  apply filterMap_sublist
  intro f _ n hn
  unfold dirName
  split_ifs at hn ⊢
  rw [hn]
  rfl

lemma NamesOk.stored_dirName (h : NamesOk f) (ht : f.type = .dir) {n : Text}
    (hn : sideName .storedSlot f = some n) : dirName f = some n := by
  unfold dirName
  rw [if_pos ht, hn]
  cases hl : sideName .localSlot f with
  | none => rfl
  | some m =>
    unfold sideName Slot.get at hn hl
    dsimp only at hn hl
    split_ifs at hn hl with hstored hlocal
    have hsame := h.same ht hlocal hstored
    rw [hl, hn] at hsame
    rw [hsame]
    rfl

lemma Ordered.storedDirs_sublist (h : Ordered files) :
    (storedDirs files).Sublist (dirNames files) := by
  apply filterMap_sublist
  intro f hf n hn
  split_ifs at hn with ht
  exact (h.entries f hf).stored_dirName ht hn

/-- On either side the directories come in order. -/
theorem Ordered.sides (h : Ordered files) :
    ParentsFirst slash (localDirs files) ∧ ParentsFirst slash (storedDirs files) :=
  ⟨h.parentsFirst.sublist (localDirs_sublist files), h.parentsFirst.sublist h.storedDirs_sublist⟩

end Names

/-! ### Loops over the files -/

/-- What a loop may leave of an entry: the stored name is the one it had, or the local one. -/
structure Renewed (f g : SiteFile) : Prop where
  type_eq : g.type = f.type
  local_eq : g.localState = f.localState
  stored : g.storedState.filename = f.storedState.filename ∧
      g.storedState.existing = f.storedState.existing ∨
    f.localState.existing = true ∧
      (g.storedState.existing = true → g.storedState.filename = f.localState.filename)

section Loops
variable {f g : SiteFile} {files pre post : List SiteFile} {out : Option SiteFile}

lemma Renewed.refl (f : SiteFile) : Renewed f f := ⟨rfl, rfl, Or.inl ⟨rfl, rfl⟩⟩

lemma Renewed.names (h : Renewed f g) (hf : NamesOk f) : NamesOk g := by
  refine ⟨?_, ?_, fun ht hl hs => ?_⟩
  · rw [h.local_eq]
    exact hf.localName
  · intro hs
    rcases h.stored with ⟨hn, hex⟩ | ⟨hl, hn⟩
    · rw [hn]
      exact hf.storedName (hex.symm.trans hs)
    · rw [hn hs]
      exact hf.localName hl
  · rw [h.local_eq] at hl ⊢
    rcases h.stored with ⟨hn, hex⟩ | ⟨-, hn⟩
    · rw [hn]
      exact hf.same (h.type_eq.symm.trans ht) hl (hex.symm.trans hs)
    · exact (hn hs).symm

lemma Renewed.dirName_eq (h : Renewed f g) (hf : NamesOk f) : dirName g = dirName f := by
  unfold dirName
  rw [h.type_eq]
  split_ifs
  · have hlocal : sideName .localSlot g = sideName .localSlot f := by
      unfold sideName Slot.get
      dsimp only
      rw [h.local_eq]
    rw [hlocal]
    rcases h.stored with ⟨hn, hex⟩ | ⟨hl, -⟩
    · have hstored : sideName .storedSlot g = sideName .storedSlot f := by
        unfold sideName Slot.get
        dsimp only
        rw [hn, hex]
      rw [hstored]
    · obtain ⟨n, hn, -⟩ := hf.localName hl
      have hname : sideName .localSlot f = some n := by
        unfold sideName Slot.get
        dsimp only
        rw [if_pos hl, hn]
      rw [hname]
      rfl
  · rfl

/-- One entry is renewed or dropped. -/
lemma Ordered.replace (h : Ordered (pre ++ f :: post)) (hout : ∀ g, out = some g → Renewed f g) :
    Ordered (pre ++ out.toList ++ post) := by
  have hf := h.entries f (by simp)
  have hsub : (dirNames (pre ++ out.toList ++ post)).Sublist (dirNames (pre ++ f :: post)) := by
    unfold dirNames
    simp only [List.append_assoc, List.filterMap_append]
    apply List.Sublist.append_left
    cases out with
    | none => exact (List.sublist_cons_self f post).filterMap dirName
    | some g =>
      rw [Option.toList_some, ← List.filterMap_append, List.singleton_append,
        List.filterMap_cons, List.filterMap_cons, (hout g rfl).dirName_eq hf]
  refine ⟨fun g hg => ?_, h.distinct.sublist hsub, h.parentsFirst.sublist hsub⟩
  simp only [List.mem_append, Option.mem_toList] at hg
  rcases hg with (hg | hg) | hg
  · exact h.entries g (by simp [hg])
  · exact (hout g hg).names hf
  · exact h.entries g (by simp [hg])

variable {ρ : Type} {body : SiteFile → StateM ρ SiteUpdate.Outcome} {r : ρ}

lemma forEach_ordered (hbody : ∀ f ∈ files, ∀ r,
      Ends (body f) r fun out _ => ∀ g, out.1 = some g → Renewed f g) (h : Ordered files) :
    Ends (forEach body files) r fun out _ => Ordered out.1 := by
  apply (forEach_ends (I := fun done rest _ _ => Ordered (done ++ rest) ∧ ∀ f ∈ rest, f ∈ files) _
    ⟨h, fun f hf => hf⟩).mono
  · intro out r' hr
    simpa using hr.1
  · rintro done f rest failed r ⟨hI, hrest⟩
    apply (hbody f (hrest f List.mem_cons_self) r).mono
    intro out r' hout
    exact ⟨hI.replace hout, fun g hg => hrest g (List.mem_cons_of_mem f hg)⟩

lemma forEachBackward_ordered (hbody : ∀ f ∈ files, ∀ r,
      Ends (body f) r fun out _ => ∀ g, out.1 = some g → Renewed f g) (h : Ordered files) :
    Ends (forEachBackward body files) r fun out _ => Ordered out.1 := by
  apply (forEachBackward_ends (I := fun rest done _ _ => Ordered (rest ++ done) ∧
    ∀ f ∈ rest, f ∈ files) _ ⟨by simpa, fun f hf => hf⟩).mono
  · intro out r' hr
    simpa using hr.1
  · rintro rest f done failed r ⟨hI, hrest⟩
    rw [List.append_assoc, List.singleton_append] at hI
    apply (hbody f (hrest f (by simp)) r).mono
    intro out r' hout
    rw [← List.append_assoc]
    exact ⟨hI.replace hout, fun g hg => hrest g (by simp [hg])⟩

end Loops

/-! ### The loops of the program -/

section Turns
variable {σ : Type} {env : Env σ} {o : SiteOptions} {f : SiteFile} {r : Run σ}

lemma makes_ends {allowed : Option ℕ → DriverCall → Prop} {α : Type} {m : StateM (Run σ) α}
    {R : α → Prop} (h : Makes env allowed m R) (r : Run σ) : Ends m r fun a _ => R a := by
  have hstable : Stable env allowed fun _ => True := by
    constructor <;> intros <;> trivial
  exact (h _ hstable r trivial).mono fun a _ ha => ha.1

lemma renewed_uploaded (hl : f.localState.existing = true) : Renewed f (uploadedEntry o f) :=
  ⟨rfl, rfl, Or.inr ⟨hl, fun _ => rfl⟩⟩

lemma renewed_stored {g : SiteFile} (hsame : SameFile f g) (hs : StoredAfter o f g.storedState) :
    Renewed f g := by
  refine ⟨hsame.type, hsame.localState, ?_⟩
  generalize g.storedState = s at hs
  cases hs with
  | kept | mode => exact Or.inl ⟨rfl, rfl⟩
  | uploaded hl => exact Or.inr ⟨hl, fun _ => rfl⟩

lemma updateFile_stored (h : NameOk f) : Stores o f r (updateFile env o f) := by
  unfold Stores updateFile
  by_cases ht : f.type ≠ .file
  · rw [if_pos ht]
    exact stores_kept
  · rw [if_neg ht]
    cases hd : f.diff with
    | unchanged | deleted | moved => exact stores_kept
    | new => exact updateNewFile_stores (h.localExisting (by simp [hd]))
    | changed =>
      have hl := h.localExisting (by simp [hd])
      simp only [ends_ite, ends_bind, ends_pure]
      split_ifs
      · exact stores_kept
      · apply fileChmod_stores.mono
        rintro out r' ⟨-, -, hs⟩ g ⟨⟩
        rcases hs with hs | hs
        · rw [hs]
          exact .kept
        · rw [hs]
          exact .mode hl (h.paired (Or.inr hd))
      · exact updateNewFile_stores hl

lemma updateLink_stored : Stores o f r (updateLink env o f) := by
  unfold Stores updateLink
  have hlinked : ∀ g, some { f with diff := .unchanged } = some g →
      StoredAfter o f g.storedState := by
    rintro g ⟨⟩
    exact .kept
  by_cases ht : f.type ≠ .link
  · rw [if_pos ht]
    exact stores_kept
  · rw [if_neg ht]
    cases f.diff with
    | unchanged | moved => exact stores_kept
    | new | changed =>
      simp only [ends_ite, ends_bind, ends_pure, ends_call, ends_driverErr]
      split_ifs
      · exact stores_kept
      · exact hlinked
    | deleted =>
      simp only [ends_ite, ends_bind, ends_pure, ends_call, ends_driverErr, ends_deleteEntry]
      split_ifs
      · exact stores_kept
      · simp

/-- The turn of a handler renews the entry or drops it. -/
theorem turn_renews (p : Handler) (h : NameOk f) (r : Run σ) :
    Ends (p.turn env o f) r fun out _ => ∀ g, out.1 = some g → Renewed f g := by
  by_cases hact : activeHandler f = some p
  · have hkept : ∀ g, g = f → Renewed f g := by
      rintro g rfl
      exact .refl g
    have hstored : ∀ g, f.diff ≠ .deleted → g = f ∨ g = uploadedEntry o f → Renewed f g := by
      rintro g hd (rfl | rfl)
      · exact .refl g
      · exact renewed_uploaded (h.localExisting hd)
    cases p with
    | deleteFiles =>
      apply (makes_ends updateDeleteFile_makes r).mono
      exact fun out _ hout g hg => hkept g (hout g hg)
    | deleteDirectories =>
      apply (makes_ends updateDeleteDirectory_makes r).mono
      exact fun out _ hout g hg => hkept g (hout g hg)
    | createDirectories =>
      have hd : f.diff ≠ .deleted := by
        cases hd : f.diff <;> cases ht : f.type <;> simp [activeHandler, hd, ht] at hact ⊢
      apply (makes_ends updateCreateDirectory_makes r).mono
      exact fun out _ hout g hg => hstored g hd (hout g hg)
    | moveFiles =>
      have hd : f.diff ≠ .deleted := by
        cases hd : f.diff <;> cases ht : f.type <;> simp [activeHandler, hd, ht] at hact ⊢
      apply (makes_ends updateMoveFile_makes r).mono
      exact fun out _ hout g hg => hstored g hd (hout g hg)
    | files =>
      apply ((makes_ends updateFile_makes r).and (@updateFile_stored σ env o f r h)).mono
      exact fun out _ hout g hg => renewed_stored (hout.1 g hg) (hout.2 g hg)
    | links =>
      apply ((makes_ends updateLink_makes r).and (@updateLink_stored σ env o f r)).mono
      exact fun out _ hout g hg => renewed_stored (hout.1 g hg) (hout.2 g hg)
  · rw [turn_idle hact]
    rintro g ⟨⟩
    exact .refl f

lemma catchupFile_renews (h : NameOk f) (st : Stats) :
    Ends (catchupFile o f) st fun out _ => ∀ g, out.1 = some g → Renewed f g := by
  unfold catchupFile
  cases hd : f.diff with
  | unchanged =>
    rintro g ⟨⟩
    exact .refl f
  | deleted => simp [dropFile]
  | changed | new | moved =>
    rintro g ⟨⟩
    exact ⟨rfl, rfl, Or.inr ⟨h.localExisting (by simp [hd]), fun _ => rfl⟩⟩

end Turns

/-- A list in order whose entries have the states that their diffs tell. -/
structure OrderedSite (site : Site) : Prop extends NamedSite site where
  ordered : Ordered site.files

/-- The same of a list with some of these nodes. -/
structure OrderedList (addrs : List ℕ) (files : List SiteFile) : Prop extends
    NamedList addrs files where
  ordered : Ordered files

section Sites
variable {σ : Type} {env : Env σ} {o : SiteOptions} {addrs : List ℕ} {files : List SiteFile}
  {r : Run σ} {site : Site}

lemma handlerPass_ordered (p : Handler) (h : OrderedList addrs files) :
    Ends (p.pass env o files) r fun out _ => OrderedList addrs out.1 := by
  have hturn : ∀ f ∈ files, ∀ r : Run σ, Ends (p.turn env o f) r fun out _ =>
      ∀ g, out.1 = some g → Renewed f g := fun f hf r => turn_renews p (h.entries f hf) r
  have hpass : Ends (p.pass env o files) r fun out _ => Ordered out.1 := by
    cases p with
    | deleteFiles | createDirectories | moveFiles | files | links =>
      exact forEach_ordered hturn h.ordered
    | deleteDirectories => exact forEachBackward_ordered hturn h.ordered
  exact ((handlerPass_named p h.toNamedList).and hpass).mono fun out _ hout => ⟨hout.1, hout.2⟩

lemma runHandlers_ordered (table : List (Handler × Bool)) (failed : Bool)
    (h : OrderedList addrs files) :
    Ends (runHandlers o (table.map fun e => (e.1.pass env o, e.2)) failed files) r fun out _ =>
      OrderedList addrs out.1 := by
  induction table generalizing files failed r with
  | nil => exact h
  | cons e table ih =>
    rw [List.map_cons, runHandlers]
    simp only [ends_ite, ends_bind, ends_pure]
    split_ifs
    · exact (handlerPass_ordered e.1 h).mono fun out _ hout => ih _ hout
    · exact ih _ h
    · exact h

theorem updateSiteFiles_ordered (h : OrderedList addrs files) :
    Ends (updateSiteFiles env o files) r fun out _ => OrderedList addrs out.1 := by
  unfold updateSiteFiles protoInit protoFinish
  simp only [ends_ite, ends_bind, ends_pure, ends_call, ends_driverErr]
  rw [handlers_eq]
  split_ifs
  all_goals first
    | exact h
    | exact runHandlers_ordered _ _ h

lemma OrderedSite.list (h : OrderedSite site) :
    OrderedList (site.files.map SiteFile.addr) site.files := ⟨h.toNamedSite.list, h.ordered⟩

lemma OrderedSite.replace (h : OrderedSite site) {files : List SiteFile} {st : Stats}
    (hl : OrderedList (site.files.map SiteFile.addr) files) :
    OrderedSite { site with files := files, stats := st } :=
  ⟨h.toNamedSite.update hl.toNamedList, hl.ordered⟩

theorem OrderedSite.handler (h : OrderedSite site) (env : Env σ) (sess : σ) (p : Handler) :
    OrderedSite (runHandler env sess p site) :=
  h.replace (handlerPass_ordered p h.list)

theorem OrderedSite.update (h : OrderedSite site) (env : Env σ) (sess : σ) :
    OrderedSite (siteUpdate env site sess).site :=
  h.replace (updateSiteFiles_ordered h.list)

theorem OrderedSite.catchup (h : OrderedSite site) : OrderedSite (siteCatchup site) where
  toNamedSite := h.toNamedSite.visitFiles fun _ _ hf => catchupFile_named hf
  ordered := forEach_ordered (fun f hf st => catchupFile_renews (h.entries f hf) st) h.ordered

end Sites

/-! ### Reading stored directories into a list -/

section Reading
variable {o : SiteOptions} {type : FileType} {state : FileState} {site site' : Site} {n : Text}
  {L K : List Text}

/-- Without a local directory of this name, and only then, a stored one gets its own entry. -/
lemma create_dir (hmoved : ∀ f ∈ site.files, f.type = .dir → f.diff ≠ .moved) {beta : Slot}
    (hp : choosePlacement .dir state site beta = .create) :
    ∀ f ∈ site.files, isDirect .dir state beta f = false := by
  have hnone : ((found .dir state site beta).moved <|> (found .dir state site beta).frename) =
      none := by
    cases hm : ((found .dir state site beta).moved <|> (found .dir state site beta).frename) with
    | none => rfl
    | some m => simpa [isCandidate] using (found_moved hm).2
  unfold choosePlacement at hp
  rw [← found] at hp
  cases hd : (found .dir state site beta).direct with
  | none => exact (findCandidates_no_direct hd).2
  | some d =>
    obtain ⟨hmem, hdirect⟩ := found_direct hd
    have ht : d.type = .dir := by
      simp only [isDirect, Bool.and_eq_true, decide_eq_true_eq] at hdirect
      exact hdirect.1.2
    simp [hd, hnone, hmoved d hmem ht] at hp

lemma setSlot_cnamed {alpha : Slot} (wl : WellLinked site)
    (h : ∀ f ∈ site.files, ∀ s : Slot, CNamed (s.get f)) (hs : CNamed state) :
    ∀ f ∈ (setSlot alpha type state site).1.files, ∀ s : Slot, CNamed (s.get f) := by
  have hcleared : CNamed {} := by
    intro hx
    cases hx
  have hsides : ∀ f : SiteFile, CNamed (alpha.get f) → CNamed (alpha.other.get f) →
      ∀ s : Slot, CNamed (s.get f) := by
    intro f hown hother s
    rcases s.eq_or_other alpha with rfl | rfl
    · exact hown
    · exact hother
  intro f hf
  obtain hf | ⟨-, rfl⟩ | ⟨old, diff, hp, rfl | ⟨-, rfl⟩⟩ := mem_fileSet wl hf
  · exact h f hf
  · apply hsides
    · rw [newEntry, Slot.get_put]
      exact hs
    · rw [newEntry, Slot.other_get_put]
      cases alpha <;> exact hcleared
  · apply hsides
    · rw [reusedEntry, Slot.get_put]
      exact hs
    · rw [reusedEntry, Slot.other_get_put]
      have hold := h old (choosePlacement_reuse hp).mem alpha.other
      cases alpha <;> exact hold
  · apply hsides
    · rw [shovedEntry, Slot.get_put]
      exact h old (choosePlacement_reuse hp).mem alpha
    · rw [shovedEntry, Slot.other_get_put]
      cases alpha <;> exact hcleared

/-- A stored directory that is not in the list yet joins the local one of its name, or goes
behind all others. -/
theorem setStored_dir (h : PairedSite o site) (hn : state.filename = some n)
    (hex : state.existing = true) (hfree : n ∉ storedDirs site.files) :
    localDirs (setSlot .storedSlot .dir state site).1.files = localDirs site.files ∧
      (∀ m ∈ storedDirs (setSlot .storedSlot .dir state site).1.files,
        m ∈ storedDirs site.files ∨ m = n) ∧
      (n ∈ localDirs site.files ∧
          dirNames (setSlot .storedSlot .dir state site).1.files = dirNames site.files ∨
        n ∉ localDirs site.files ∧
          dirNames (setSlot .storedSlot .dir state site).1.files = dirNames site.files ++ [n]) := by
  cases hp : choosePlacement .dir state site Slot.localSlot with
  | create =>
    have hnone := create_dir (fun f hf ht hd => by
      have hcmp := (h.paired f hf).compared.symm.trans hd
      rw [(fileCompare_moved hcmp).1] at ht
      cases ht) hp
    have hlocal : n ∉ localDirs site.files := by
      intro hmem
      obtain ⟨f, hf, hname⟩ := List.mem_filterMap.mp hmem
      unfold sideName Slot.get at hname
      dsimp only at hname
      split_ifs at hname with ht hl
      have hdirect := hnone f hf
      simp [isDirect, Slot.get, ht, hl, hname, hn] at hdirect
    have hpairs := @dirPairs_setSlot_create .storedSlot state site n hn hex hp
    simp only [localDirs_eq, storedDirs_eq, dirNames_eq, hpairs, List.filterMap_append] at hlocal ⊢
    refine ⟨by simp [Slot.single], fun m hm => ?_, Or.inr ⟨hlocal, by simp [Slot.single]⟩⟩
    simpa [Slot.single] using hm
  | reuse old diff =>
    obtain ⟨hmem, ⟨hdirect, -⟩ | ⟨hcand, -⟩⟩ := choosePlacement_source hp
    · simp only [isDirect, Bool.and_eq_true, decide_eq_true_eq, Slot.get] at hdirect
      obtain ⟨⟨hl, ht⟩, hname⟩ := hdirect
      replace hname := (of_decide_eq_true hname).trans hn
      obtain ⟨pre, post, hfiles⟩ := List.append_of_mem hmem
      -- the local directory has no stored state yet
      have hstored : old.storedState.existing = false := by
        by_contra hs
        rw [Bool.not_eq_false] at hs
        rcases (h.paired old hmem).named hl hs with hsame | ⟨-, hfile⟩
        · apply hfree
          refine List.mem_filterMap.mpr ⟨old, hmem, ?_⟩
          simp [sideName, Slot.get, ht, hs, ← hsame, hname]
        · rw [ht] at hfile
          cases hfile
      have hset : (setSlot .storedSlot .dir state site).1.files =
          reusedFiles state site .storedSlot .deleted pre old diff post :=
        fileSet_reuse h.linked hfiles hp
      have hfiles' : (setSlot .storedSlot .dir state site).1.files =
          pre ++ reusedEntry state .storedSlot old diff :: post := by
        rw [hset, reusedFiles, if_neg (by simp [Slot.get, hstored])]
      rw [hfiles', hfiles]
      simp only [localDirs, storedDirs, dirNames, List.filterMap_append, List.filterMap_cons,
        dirName, sideName, Slot.get, reusedEntry, Slot.put, ht, hl, hname, hn, hex, hstored]
      refine ⟨by simp, fun m hm => ?_, Or.inl ⟨by simp, by simp⟩⟩
      simp only [↓reduceIte, List.mem_append, List.mem_cons] at hm ⊢
      tauto
    · simp [isCandidate] at hcand

/-- A list into which stored directories `K` were read when it had the local directories `L`. -/
structure Merging (o : SiteOptions) (L K : List Text) (site : Site) : Prop where
  paired : PairedSite o site
  cnamed : ∀ f ∈ site.files, ∀ s : Slot, CNamed (s.get f)
  locals : localDirs site.files = L
  recorded : ∀ n ∈ storedDirs site.files, n ∈ K
  dirs : ∃ D, dirNames site.files = L ++ D ∧ D.Sublist K ∧ ∀ n ∈ D, n ∉ L

/-- Only the types and the names of both sides are looked at. -/
lemma Merging.write {f : SiteFile} (h : Merging o L K site) (hm : f ∈ site.files)
    (server : FileState) : Merging o L K (FileSet.write { f with serverState := server } site) := by
  have hpairs : dirPairs (FileSet.write { f with serverState := server } site).files =
      dirPairs site.files := dirPairs_write h.paired.linked hm rfl rfl
  have hmem : ∀ g ∈ (FileSet.write { f with serverState := server } site).files,
      g = { f with serverState := server } ∨ g ∈ site.files := by
    intro g hg
    obtain ⟨x, hx, rfl⟩ := List.mem_map.mp hg
    split_ifs
    · exact Or.inl rfl
    · exact Or.inr hx
  have hlocals := h.locals
  have hrecorded := h.recorded
  have hdirs := h.dirs
  rw [localDirs_eq, ← hpairs, ← localDirs_eq] at hlocals
  rw [storedDirs_eq, ← hpairs, ← storedDirs_eq] at hrecorded
  rw [dirNames_eq, ← hpairs, ← dirNames_eq] at hdirs
  refine ⟨⟨write_wellLinked h.paired.linked _, h.paired.opts, fun g hg => ?_⟩, fun g hg s => ?_,
    hlocals, hrecorded, hdirs⟩
  · rcases hmem g hg with rfl | hg
    · obtain ⟨hcompared, hpresent, hnamed⟩ := h.paired.paired f hm
      exact ⟨hcompared, hpresent, hnamed⟩
    · exact h.paired.paired g hg
  · rcases hmem g hg with rfl | hg
    · have hf := h.cnamed f hm s
      cases s <;> exact hf
    · exact h.cnamed g hg s

lemma Merging.setStored (h : Merging o L K site) (hn : state.filename = some n)
    (hex : state.existing = true) (hnul : 0 ∉ n)
    (hnodup : (K ++ dirKeys [(type, n)]).Nodup) :
    Merging o L (K ++ dirKeys [(type, n)]) (setSlot .storedSlot type state site).1 := by
  have hpaired := h.paired.setSlot .storedSlot type hex
  have hcnamed := @setSlot_cnamed type state site .storedSlot h.paired.linked h.cnamed
    fun _ => ⟨n, hn, hnul⟩
  obtain ⟨D, hD, hsub, hnew⟩ := h.dirs
  by_cases ht : type = .dir
  · subst ht
    have hkey : dirKeys [(FileType.dir, n)] = [n] := rfl
    rw [hkey] at hnodup ⊢
    have hfree : n ∉ K := fun hmem => (List.nodup_append.mp hnodup).2.2 n hmem n (by simp) rfl
    obtain ⟨hlocals, hstored, hplace⟩ := setStored_dir h.paired hn hex fun hmem =>
      hfree (h.recorded n hmem)
    refine ⟨hpaired, hcnamed, hlocals.trans h.locals, fun m hm => ?_, ?_⟩
    · rcases hstored m hm with hm | rfl
      · exact List.mem_append_left _ (h.recorded m hm)
      · simp
    · rw [h.locals] at hplace
      rcases hplace with ⟨-, hdirs⟩ | ⟨hlocal, hdirs⟩
      · exact ⟨D, hdirs.trans hD, hsub.trans (List.sublist_append_left K [n]), hnew⟩
      · refine ⟨D ++ [n], ?_, hsub.append (List.Sublist.refl _), fun m hm => ?_⟩
        · rw [hdirs, hD, List.append_assoc]
        · rcases List.mem_append.mp hm with hm | hm
          · exact hnew m hm
          · rw [List.mem_singleton.mp hm]
            exact hlocal
  · have hkey : dirKeys [(type, n)] = [] := by simp [dirKeys, ht]
    have hpairs := @dirPairs_setSlot_ne .storedSlot type state site h.paired.linked ht
    rw [hkey, List.append_nil]
    refine ⟨hpaired, hcnamed, ?_, ?_, D, ?_, hsub, hnew⟩
    · rw [localDirs_eq, hpairs, ← localDirs_eq, h.locals]
    · rw [storedDirs_eq, hpairs, ← storedDirs_eq]
      exact h.recorded
    · rw [dirNames_eq, hpairs, ← dirNames_eq, hD]

lemma dirKeys_cons (k : FileType × Text) (keys : List (FileType × Text)) :
    dirKeys (k :: keys) = dirKeys [k] ++ dirKeys keys :=
  @List.filterMap_append _ _ [k] keys _

/-- Items read one after the other. -/
theorem storesAll_merging {keys : List (FileType × Text)} (hs : StoresAll keys site site')
    (h : Merging o L K site) (hnul : ∀ k ∈ keys, 0 ∉ k.2) (hnodup : (K ++ dirKeys keys).Nodup) :
    Merging o L (K ++ dirKeys keys) site' := by
  induction hs generalizing K with
  | nil =>
    have hnone : dirKeys [] = [] := rfl
    rwa [hnone, List.append_nil]
  | @cons type n keys state site site₁ site' hn hex hsite _ ih =>
    rw [dirKeys_cons, ← List.append_assoc] at hnodup ⊢
    have hset := h.setStored hn hex (hnul (type, n) List.mem_cons_self)
      (List.nodup_append.mp hnodup).1
    have hone : Merging o L (K ++ dirKeys [(type, n)]) site₁ := by
      rcases hsite with rfl | ⟨server, rfl⟩
      · exact hset
      · have hmem := @setSlot_mem type state site .storedSlot h.paired.linked
        exact hset.write hmem server
    exact ih hone (fun k hk => hnul k (List.mem_cons_of_mem _ hk)) hnodup

/-- If both sides were in order, and what lies above a local directory is a local directory,
then the list is ordered. -/
theorem Merging.ordered (h : Merging o L K site) (hL : L.Nodup ∧ ParentsFirst slash L)
    (hclosed : ∀ a ∈ L, ∀ b, Below slash a b → b ∈ L) (hK : K.Nodup ∧ ParentsFirst slash K) :
    Ordered site.files := by
  obtain ⟨D, hD, hsub, hnew⟩ := h.dirs
  refine ⟨fun f hf => ⟨h.cnamed f hf .localSlot, h.cnamed f hf .storedSlot, fun ht hl hs => ?_⟩,
    ?_, ?_⟩
  · rcases (h.paired.paired f hf).named hl hs with hsame | ⟨-, hfile⟩
    · exact hsame
    · rw [ht] at hfile
      cases hfile
  · rw [hD]
    refine List.nodup_append.mpr ⟨hL.1, hK.1.sublist hsub, ?_⟩
    rintro a ha b hb rfl
    exact hnew a hb ha
  · rw [hD]
    refine List.pairwise_append.mpr ⟨hL.2, hK.2.sublist hsub, fun a ha b hb hbelow => ?_⟩
    exact hnew b hb (hclosed a ha b hbelow)

end Reading

end Sitecopy.DirectoryOrder
