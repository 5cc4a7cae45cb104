import Sitecopy.Paths
import Sitecopy.SiteStats
import Sitecopy.StateFileNames

/-!
# The directories of a files list

The names that the directories of a list have on each side, and what `file_set` does to
them. As long as only one side is set, every state gets an entry of its own.
-/
namespace Sitecopy.DirectoryLists
open SiteModel FileSet FileSetSpec SiteStats StateFile Paths

/-- The name that an entry has on one side. -/
def sideName (s : Slot) (f : SiteFile) : Option Text :=
  if (s.get f).existing then (s.get f).filename else none

/-- The names of a directory on the local and on the stored side. -/
def dirPair (f : SiteFile) : Option (Option Text × Option Text) :=
  if f.type = .dir then some (sideName .localSlot f, sideName .storedSlot f) else none

def dirPairs (files : List SiteFile) : List (Option Text × Option Text) := files.filterMap dirPair

/-- The directories that exist locally, in the order of the list. -/
def localDirs (files : List SiteFile) : List Text :=
  files.filterMap fun f => if f.type = .dir then sideName .localSlot f else none

/-- The directories that are stored, in the order of the list. -/
def storedDirs (files : List SiteFile) : List Text :=
  files.filterMap fun f => if f.type = .dir then sideName .storedSlot f else none

/-- The pair of a directory that has the name on one side only. -/
def Slot.single (s : Slot) (n : Option Text) : Option Text × Option Text :=
  match s with
  | .localSlot => (n, none)
  | .storedSlot => (none, n)

section Pairs
variable {files : List SiteFile} {f : SiteFile}

lemma localDirs_eq (files : List SiteFile) : localDirs files = (dirPairs files).filterMap Prod.fst := by
  unfold localDirs dirPairs
  rw [List.filterMap_filterMap]
  apply List.filterMap_congr
  intro f _
  unfold dirPair
  split_ifs <;> rfl

lemma storedDirs_eq (files : List SiteFile) :
    storedDirs files = (dirPairs files).filterMap Prod.snd := by
  unfold storedDirs dirPairs
  rw [List.filterMap_filterMap]
  apply List.filterMap_congr
  intro f _
  unfold dirPair
  split_ifs <;> rfl

lemma dirPair_of_ne (h : f.type ≠ .dir) : dirPair f = none := if_neg h

lemma dirPair_congr {g : SiteFile} (ht : g.type = f.type) (hl : g.localState = f.localState)
    (hn : g.storedState.filename = f.storedState.filename)
    (he : g.storedState.existing = f.storedState.existing) : dirPair g = dirPair f := by
  unfold dirPair sideName Slot.get
  dsimp only
  rw [ht, hl, hn, he]

lemma dirPairs_insert_ne {type : FileType} (hf : f.type ≠ .dir) :
    dirPairs (insertFile type f files) = dirPairs files := by
  unfold insertFile dirPairs
  split_ifs with hnil
  · simp [hnil, dirPair_of_ne hf]
  · simp [dirPair_of_ne hf]
  · simp [dirPair_of_ne hf]

lemma dirPairs_insert_dir (hf : f.type = .dir) : dirPairs (insertFile .dir f files) =
    dirPairs files ++ [(sideName .localSlot f, sideName .storedSlot f)] := by
  unfold insertFile dirPairs
  split_ifs with hnil hdir
  · simp [hnil, dirPair, hf]
  · simp [dirPair, hf]
  · exact absurd rfl hdir

lemma dirPairs_append (l l' : List SiteFile) : dirPairs (l ++ l') = dirPairs l ++ dirPairs l' :=
  List.filterMap_append

/-- Writing back an entry whose names are those of the entry in the list. -/
lemma dirPairs_write {site : Site} {old file : SiteFile} (wl : WellLinked site)
    (hm : old ∈ site.files) (ha : file.addr = old.addr) (hp : dirPair file = dirPair old) :
    dirPairs (write file site).files = dirPairs site.files := by
  obtain ⟨pre, post, hf⟩ := List.append_of_mem hm
  rw [write_files wl.nodup hf ha, hf]
  simp only [dirPairs, List.filterMap_append, List.filterMap_cons, hp]

end Pairs

/-! ### `file_set` -/

section SetSlot
variable {alpha : Slot} {type : FileType} {state : FileState} {site : Site} {n : Text}

/-- Files and links leave the directories alone. -/
theorem dirPairs_setSlot_ne (wl : WellLinked site) (ht : type ≠ .dir) :
    dirPairs (setSlot alpha type state site).1.files = dirPairs site.files := by
  cases hp : choosePlacement type state site alpha.other with
  | create =>
    have hfiles : (setSlot alpha type state site).1.files = insertFile type
        (newEntry type state site alpha alpha.defaultDiff) site.files := fileSet_create hp
    rw [hfiles]
    apply dirPairs_insert_ne
    simpa [newEntry] using ht
  | reuse old diff =>
    have hr := choosePlacement_reuse hp
    obtain ⟨pre, post, hf⟩ := List.append_of_mem hr.mem
    have hfiles : (setSlot alpha type state site).1.files =
        reusedFiles state site alpha alpha.defaultDiff pre old diff post := fileSet_reuse wl hf hp
    have hold : old.type ≠ .dir := by rw [hr.type_eq]; exact ht
    have hreused : (reusedEntry state alpha old diff).type ≠ .dir := by
      simpa [reusedEntry] using hold
    have hmid : dirPairs (pre ++ reusedEntry state alpha old diff :: post) =
        dirPairs site.files := by
      rw [hf]
      simp [dirPairs, dirPair_of_ne hold, dirPair_of_ne hreused]
    rw [hfiles]
    unfold reusedFiles
    dsimp only
    split_ifs
    · rw [dirPairs_insert_ne, hmid]
      simpa [shovedEntry] using hold
    · exact hmid

/-- A directory that gets an entry of its own goes behind all others. -/
theorem dirPairs_setSlot_create (hn : state.filename = some n) (hex : state.existing = true)
    (hp : choosePlacement .dir state site alpha.other = .create) :
    dirPairs (setSlot alpha .dir state site).1.files =
      dirPairs site.files ++ [Slot.single alpha (some n)] := by
  have hfiles : (setSlot alpha .dir state site).1.files = insertFile .dir
      (newEntry .dir state site alpha alpha.defaultDiff) site.files := fileSet_create hp
  rw [hfiles, dirPairs_insert_dir (by simp [newEntry])]
  cases alpha with
  | localSlot => simp [sideName, Slot.get, newEntry, Slot.put, fresh, Slot.single, hn, hex]
  | storedSlot => simp [sideName, Slot.get, newEntry, Slot.put, fresh, Slot.single, hn, hex]

end SetSlot

/-! ### Lists with one side -/

/-- Every entry exists on the side `s`, under a name, and not on the other side. -/
structure OneSided (s : Slot) (site : Site) : Prop where
  linked : WellLinked site
  own : ∀ f ∈ site.files, (s.get f).existing = true ∧ ∃ n, (s.get f).filename = some n
  alone : ∀ f ∈ site.files, (s.other.get f).existing = false

section OneSided
variable {alpha : Slot} {type : FileType} {state : FileState} {site : Site} {n : Text}

lemma OneSided.create (h : OneSided alpha site) :
    choosePlacement type state site alpha.other = .create := by
  cases hp : choosePlacement type state site alpha.other with
  | create => rfl
  | reuse old diff =>
    have hr := choosePlacement_reuse hp
    have hex := hr.existing
    rw [h.alone old hr.mem] at hex
    cases hex

theorem OneSided.setSlot (h : OneSided alpha site) (hn : state.filename = some n)
    (hex : state.existing = true) : OneSided alpha (setSlot alpha type state site).1 := by
  have hfiles : (FileSet.setSlot alpha type state site).1.files = insertFile type
      (newEntry type state site alpha alpha.defaultDiff) site.files := fileSet_create h.create
  refine ⟨fileSet_wellLinked h.linked, fun f hf => ?_, fun f hf => ?_⟩
  · rw [hfiles, mem_insertFile] at hf
    rcases hf with rfl | hf
    · rw [newEntry, Slot.get_put]
      exact ⟨hex, n, hn⟩
    · exact h.own f hf
  · rw [hfiles, mem_insertFile] at hf
    rcases hf with rfl | hf
    · rw [newEntry, Slot.other_get_put]
      cases alpha <;> rfl
    · exact h.alone f hf

theorem OneSided.setSlot_dirPairs (h : OneSided alpha site) (hn : state.filename = some n)
    (hex : state.existing = true) : dirPairs (FileSet.setSlot alpha type state site).1.files =
      dirPairs site.files ++ if type = .dir then [Slot.single alpha (some n)] else [] := by
  split_ifs with ht
  · rw [ht]
    exact dirPairs_setSlot_create hn hex h.create
  · rw [List.append_nil]
    exact dirPairs_setSlot_ne h.linked ht

/-- Writing back an entry that is still one-sided. -/
lemma OneSided.write {old file : SiteFile} (h : OneSided alpha site) (hm : old ∈ site.files)
    (ha : file.addr = old.addr) (hown : (alpha.get file).existing = (alpha.get old).existing ∧
      (alpha.get file).filename = (alpha.get old).filename)
    (hother : (alpha.other.get file).existing = (alpha.other.get old).existing) :
    OneSided alpha (write file site) := by
  obtain ⟨pre, post, hf⟩ := List.append_of_mem hm
  have hfiles := write_files h.linked.nodup hf ha
  have hcases : ∀ f ∈ (FileSet.write file site).files, f = file ∨ f ∈ site.files := by
    intro f hmem
    rw [hfiles, List.mem_append, List.mem_cons] at hmem
    rw [hf, List.mem_append, List.mem_cons]
    tauto
  refine ⟨write_wellLinked h.linked file, fun f hmem => ?_, fun f hmem => ?_⟩
  · rcases hcases f hmem with rfl | hmem
    · rw [hown.1, hown.2]
      exact h.own old hm
    · exact h.own f hmem
  · rcases hcases f hmem with rfl | hmem
    · rw [hother]
      exact h.alone old hm
    · exact h.alone f hmem

/-- The names of the directories among some keys. -/
def dirKeys (keys : List (FileType × Text)) : List Text :=
  keys.filterMap fun k => if k.1 = .dir then some k.2 else none

/-- Items read into a list without local states. -/
theorem StoresAll.oneSided {keys : List (FileType × Text)} {site' : Site}
    (hs : StoresAll keys site site') (h : OneSided .storedSlot site) :
    OneSided .storedSlot site' ∧ storedDirs site'.files = storedDirs site.files ++ dirKeys keys := by
  induction hs with
  | nil => exact ⟨h, by simp [dirKeys]⟩
  | @cons type n keys state site site₁ site' hn hex hsite _ ih =>
    have hset : OneSided .storedSlot (setSlot .storedSlot type state site).1 := h.setSlot hn hex
    have hpairs : dirPairs (setSlot .storedSlot type state site).1.files = dirPairs site.files ++
        if type = .dir then [Slot.single .storedSlot (some n)] else [] := h.setSlot_dirPairs hn hex
    have hmem := @setSlot_mem type state site .storedSlot h.linked
    rw [setSlot_stored] at hset hpairs hmem
    have hone : OneSided .storedSlot site₁ ∧ dirPairs site₁.files = dirPairs site.files ++
        if type = .dir then [Slot.single .storedSlot (some n)] else [] := by
      rcases hsite with rfl | ⟨server, rfl⟩
      · exact ⟨hset, hpairs⟩
      · have hwrite : dirPairs (write { (fileSetStored type state site).2 with
              serverState := server } (fileSetStored type state site).1).files =
            dirPairs (fileSetStored type state site).1.files :=
          dirPairs_write hset.linked hmem rfl rfl
        exact ⟨hset.write hmem rfl ⟨rfl, rfl⟩ rfl, hwrite.trans hpairs⟩
    obtain ⟨hone', hdirs⟩ := ih hone.1
    refine ⟨hone', ?_⟩
    rw [hdirs, storedDirs_eq, storedDirs_eq, hone.2, List.filterMap_append, List.append_assoc]
    congr 1
    simp only [dirKeys]
    split_ifs with ht
    · simp [Slot.single, ht]
    · simp [ht]

end OneSided

/-- What a file records of the directories of a list. -/
lemma dirKeys_stored {site : Site} (h : ∀ f ∈ storedFiles site, Named f) :
    dirKeys ((storedFiles site).map storedKey) = storedDirs site.files := by
  unfold dirKeys storedDirs storedFiles
  rw [List.filterMap_map, List.filterMap_filter]
  apply List.filterMap_congr
  intro f hf
  cases hex : f.storedState.existing with
  | false => simp [sideName, Slot.get, hex]
  | true =>
    obtain ⟨n, hn, _⟩ := h f (List.mem_filter.mpr ⟨hf, hex⟩)
    simp [sideName, Slot.get, hex, storedKey, hn]

end Sitecopy.DirectoryLists
