import Sitecopy.FileSet

/-!
# What one `file_set` does to the list

The two branches of `fileSet` are described once, as equations about the files list;
every invariant of the list is derived from them.
-/
namespace Sitecopy.FileSetSpec
open SiteModel FileSet

/-- Distinct nodes at addresses below the next one to be allocated. -/
structure WellLinked (site : Site) : Prop where
  nodup : (site.files.map SiteFile.addr).Nodup
  bounded : ∀ f ∈ site.files, f.addr < site.freshAddr

lemma WellLinked.files_nodup {site : Site} (h : WellLinked site) : site.files.Nodup :=
  List.Nodup.of_map _ h.nodup

theorem insertFile_perm (type : FileType) (file : SiteFile) (files : List SiteFile) :
    (insertFile type file files).Perm (file :: files) := by
  unfold insertFile
  split_ifs with he hd
  · simp [he]
  · exact List.perm_append_singleton file files
  · exact List.Perm.refl _

@[simp] theorem mem_insertFile {type : FileType} {file f : SiteFile} {files : List SiteFile} :
    f ∈ insertFile type file files ↔ f = file ∨ f ∈ files := by
  rw [(insertFile_perm type file files).mem_iff, List.mem_cons]

/-- Writing through a pointer replaces exactly the node it points to. -/
theorem write_files {site : Site} {pre post : List SiteFile} {old file : SiteFile}
    (hnd : (site.files.map SiteFile.addr).Nodup) (hf : site.files = pre ++ old :: post)
    (ha : file.addr = old.addr) : (write file site).files = pre ++ file :: post := by
  simp only [write, hf, List.map_append, List.map_cons, ha, ↓reduceIte]
  rw [hf, List.map_append, List.map_cons] at hnd
  have hpre : ∀ f ∈ pre, f.addr ≠ old.addr := by
    intro f hfm he
    have hd := (List.nodup_append.mp hnd).2.2 f.addr (List.mem_map_of_mem hfm)
    exact hd old.addr (by simp) he
  have hpost : ∀ f ∈ post, f.addr ≠ old.addr := by
    intro f hfm he
    have hc := (List.nodup_cons.mp (List.nodup_append.mp hnd).2.1).1
    exact hc (he ▸ List.mem_map_of_mem hfm)
  congr 1
  · exact (List.map_congr_left fun f hfm => if_neg (hpre f hfm)).trans (List.map_id pre)
  · congr 1
    exact (List.map_congr_left fun f hfm => if_neg (hpost f hfm)).trans (List.map_id post)

theorem write_wellLinked {site : Site} (wl : WellLinked site) (file : SiteFile) :
    WellLinked (write file site) := by
  have haddr : (write file site).files.map SiteFile.addr = site.files.map SiteFile.addr := by
    rw [write, List.map_map]
    apply List.map_congr_left
    intro f _
    dsimp only [Function.comp]
    split_ifs with hf
    · exact hf.symm
    · rfl
  refine ⟨by rw [haddr]; exact wl.nodup, fun f hf => ?_⟩
  have hmem : f.addr ∈ (write file site).files.map SiteFile.addr := List.mem_map_of_mem hf
  rw [haddr, List.mem_map] at hmem
  obtain ⟨g, hg, hga⟩ := hmem
  rw [← hga]
  exact wl.bounded g hg

/-- A write next to a freshly inserted node. -/
theorem write_insertFile {type : FileType} {other file old : SiteFile} {pre post : List SiteFile}
    (hnd : ((pre ++ old :: post).map SiteFile.addr).Nodup) (ha : file.addr = old.addr)
    (hne : other.addr ≠ old.addr) (site : Site)
    (hf : site.files = insertFile type other (pre ++ old :: post)) :
    (write file site).files = insertFile type other (pre ++ file :: post) := by
  have hw := @write_files { site with files := pre ++ old :: post } _ _ _ _ hnd rfl ha
  simp only [write] at hw
  simp only [write, hf, insertFile]
  have hnil : ∀ a : SiteFile, pre ++ a :: post ≠ [] := fun a => by simp
  simp only [hnil, ↓reduceIte]
  split_ifs with hd
  · rw [List.map_append, hw]
    simp [ha, hne]
  · rw [List.map_cons, hw]
    simp [ha, hne]

/-! ### The search -/

section Search
variable {o : SiteOptions} {type : FileType} {state : FileState} {beta : Slot}

theorem considerFile_direct (c : Candidates) (f : SiteFile) :
    (considerFile o type state beta c f).direct =
      if c.direct = none ∧ isDirect type state beta f then some f else c.direct := by
  unfold considerFile
  split_ifs <;> rfl

theorem considerFile_moved {c : Candidates} {f m : SiteFile}
    (h : (considerFile o type state beta c f).moved = some m) :
    c.moved = some m ∨ m = f ∧ isCandidate o type state beta f = true := by
  unfold considerFile at h
  split_ifs at h with h1 h2 h3 h4
  · exact Or.inl h
  · exact Or.inr ⟨(Option.some.inj h).symm, h2⟩
  · exact Or.inl h
  · exact Or.inl h
  · exact Or.inl h

theorem considerFile_frename {c : Candidates} {f m : SiteFile}
    (h : (considerFile o type state beta c f).frename = some m) :
    c.frename = some m ∨ m = f ∧ isCandidate o type state beta f = true := by
  unfold considerFile at h
  split_ifs at h with h1 h2 h3 h4
  · exact Or.inl h
  · exact Or.inl h
  · exact Or.inr ⟨(Option.some.inj h).symm, h2⟩
  · exact Or.inl h
  · exact Or.inl h

theorem findCandidates_direct {c : Candidates} {files : List SiteFile} {d : SiteFile}
    (h : (findCandidates o type state beta c files).direct = some d) :
    c.direct = some d ∨ d ∈ files ∧ isDirect type state beta d = true := by
  induction files generalizing c with
  | nil => exact Or.inl h
  | cons f rest ih =>
    have hstep : (considerFile o type state beta c f).direct = some d →
        c.direct = some d ∨ d ∈ f :: rest ∧ isDirect type state beta d = true := by
      intro hd
      rw [considerFile_direct] at hd
      split_ifs at hd with hc
      · obtain rfl := Option.some.inj hd
        exact Or.inr ⟨by simp, hc.2⟩
      · exact Or.inl hd
    simp only [findCandidates] at h
    split_ifs at h
    · exact hstep h
    · rcases ih h with hd | ⟨hm, hd⟩
      · exact hstep hd
      · exact Or.inr ⟨List.mem_cons_of_mem f hm, hd⟩

theorem findCandidates_moved {c : Candidates} {files : List SiteFile} {m : SiteFile}
    (h : (findCandidates o type state beta c files).moved = some m) :
    c.moved = some m ∨ m ∈ files ∧ isCandidate o type state beta m = true := by
  induction files generalizing c with
  | nil => exact Or.inl h
  | cons f rest ih =>
    have hstep : (considerFile o type state beta c f).moved = some m →
        c.moved = some m ∨ m ∈ f :: rest ∧ isCandidate o type state beta m = true := by
      intro hd
      rcases considerFile_moved hd with hc | ⟨rfl, hc⟩
      · exact Or.inl hc
      · exact Or.inr ⟨by simp, hc⟩
    simp only [findCandidates] at h
    split_ifs at h
    · exact hstep h
    · rcases ih h with hd | ⟨hm, hd⟩
      · exact hstep hd
      · exact Or.inr ⟨List.mem_cons_of_mem f hm, hd⟩

theorem findCandidates_frename {c : Candidates} {files : List SiteFile} {m : SiteFile}
    (h : (findCandidates o type state beta c files).frename = some m) :
    c.frename = some m ∨ m ∈ files ∧ isCandidate o type state beta m = true := by
  induction files generalizing c with
  | nil => exact Or.inl h
  | cons f rest ih =>
    have hstep : (considerFile o type state beta c f).frename = some m →
        c.frename = some m ∨ m ∈ f :: rest ∧ isCandidate o type state beta m = true := by
      intro hd
      rcases considerFile_frename hd with hc | ⟨rfl, hc⟩
      · exact Or.inl hc
      · exact Or.inr ⟨by simp, hc⟩
    simp only [findCandidates] at h
    split_ifs at h
    · exact hstep h
    · rcases ih h with hd | ⟨hm, hd⟩
      · exact hstep hd
      · exact Or.inr ⟨List.mem_cons_of_mem f hm, hd⟩

/-- The search never stops before a direct match is found, if there is one. -/
theorem findCandidates_no_direct {c : Candidates} {files : List SiteFile}
    (h : (findCandidates o type state beta c files).direct = none) :
    c.direct = none ∧ ∀ f ∈ files, isDirect type state beta f = false := by
  induction files generalizing c with
  | nil => exact ⟨h, by simp⟩
  | cons f rest ih =>
    have hstep : (considerFile o type state beta c f).direct = none →
        c.direct = none ∧ isDirect type state beta f = false := by
      intro hd
      rw [considerFile_direct] at hd
      split_ifs at hd with hc
      exact ⟨hd, by simpa [hd] using hc⟩
    simp only [findCandidates] at h
    split_ifs at h with hstop
    · simp [h] at hstop
    · obtain ⟨hd, hrest⟩ := ih h
      obtain ⟨hc, hf⟩ := hstep hd
      exact ⟨hc, by simpa [hf] using hrest⟩

end Search

/-! ### The decision -/

section Decision
variable {type : FileType} {state : FileState} {site : Site} {beta : Slot}

/-- An entry that `file_set` may overwrite, with the diff it then gets. -/
structure Reusable (type : FileType) (state : FileState) (site : Site) (beta : Slot)
    (file : SiteFile) (diff : FileDiff) : Prop where
  mem : file ∈ site.files
  type_eq : file.type = type
  existing : (beta.get file).existing = true
  diff_eq : diff = fileCompare type state (beta.get file) site.opts
  /-- a complete unchanged entry is given up only to the state it was waiting for -/
  named : file.diff = .unchanged → (beta.get file).filename = state.filename

theorem reusable_direct {d : SiteFile} (hm : d ∈ site.files)
    (hd : isDirect type state beta d = true) :
    Reusable type state site beta d (fileCompare type state (beta.get d) site.opts) := by
  simp only [isDirect, Bool.and_eq_true, decide_eq_true_eq] at hd
  exact ⟨hm, hd.1.2, hd.1.1, rfl, fun _ => hd.2⟩

theorem reusable_candidate {m : SiteFile} (hm : m ∈ site.files)
    (hc : isCandidate site.opts type state beta m = true) :
    Reusable type state site beta m .moved := by
  simp only [isCandidate, Bool.and_eq_true, decide_eq_true_eq] at hc
  obtain ⟨⟨⟨⟨_, ht⟩, hmt⟩, hdiff⟩, hcmp⟩ := hc
  obtain ⟨_, _, _, hex, _⟩ := fileCompare_moved hcmp
  exact ⟨hm, hmt.trans ht.symm, hex, by rw [ht, hcmp], fun h => absurd h hdiff⟩

/-- The search of `file_set` starts without candidates. -/
def found (type : FileType) (state : FileState) (site : Site) (beta : Slot) : Candidates :=
  findCandidates site.opts type state beta {} site.files

theorem found_direct {d : SiteFile} (h : (found type state site beta).direct = some d) :
    d ∈ site.files ∧ isDirect type state beta d = true :=
  (findCandidates_direct h).resolve_left (by simp)

theorem found_moved {m : SiteFile}
    (h : ((found type state site beta).moved <|> (found type state site beta).frename) = some m) :
    m ∈ site.files ∧ isCandidate site.opts type state beta m = true := by
  cases hm : (found type state site beta).moved with
  | some x =>
    rw [hm] at h
    obtain rfl := Option.some.inj h
    exact (findCandidates_moved hm).resolve_left (by simp)
  | none =>
    rw [hm] at h
    exact (findCandidates_frename h).resolve_left (by simp)

/-- A reused entry is the direct match, or a candidate that is marked as moved. -/
theorem choosePlacement_source {file : SiteFile} {diff : FileDiff}
    (h : choosePlacement type state site beta = .reuse file diff) :
    file ∈ site.files ∧
      (isDirect type state beta file = true ∧
          diff = fileCompare type state (beta.get file) site.opts ∨
        isCandidate site.opts type state beta file = true ∧ diff = .moved) := by
  unfold choosePlacement at h
  rw [← found] at h
  cases hd : (found type state site beta).direct with
  | none =>
    cases hm : ((found type state site beta).moved <|> (found type state site beta).frename) with
    | none => simp [hd, hm] at h
    | some m =>
      simp only [hd, hm, Placement.reuse.injEq] at h
      obtain ⟨rfl, rfl⟩ := h
      obtain ⟨hmem, hc⟩ := found_moved hm
      exact ⟨hmem, Or.inr ⟨hc, rfl⟩⟩
  | some d =>
    obtain ⟨hdm, hdd⟩ := found_direct hd
    cases hm : ((found type state site beta).moved <|> (found type state site beta).frename) with
    | none =>
      simp only [hd, hm] at h
      split_ifs at h
      obtain ⟨rfl, rfl⟩ := Placement.reuse.inj h
      exact ⟨hdm, Or.inl ⟨hdd, rfl⟩⟩
    | some m =>
      simp only [hd, hm] at h
      split_ifs at h with hne
      · obtain ⟨rfl, rfl⟩ := Placement.reuse.inj h
        obtain ⟨hmem, hc⟩ := found_moved hm
        exact ⟨hmem, Or.inr ⟨hc, rfl⟩⟩
      · obtain ⟨rfl, rfl⟩ := Placement.reuse.inj h
        exact ⟨hdm, Or.inl ⟨hdd, rfl⟩⟩

theorem choosePlacement_reuse {file : SiteFile} {diff : FileDiff}
    (h : choosePlacement type state site beta = .reuse file diff) :
    Reusable type state site beta file diff := by
  obtain ⟨hm, ⟨hd, rfl⟩ | ⟨hc, rfl⟩⟩ := choosePlacement_source h
  · exact reusable_direct hm hd
  · exact reusable_candidate hm hc

/-- An unchanged direct match wins over every moved or renamed candidate. -/
theorem choosePlacement_unchanged {d : SiteFile} (hm : d ∈ site.files)
    (hd : isDirect type state beta d = true)
    (huniq : ∀ f ∈ site.files, isDirect type state beta f = true → f = d)
    (hcmp : fileCompare type state (beta.get d) site.opts = .unchanged) :
    choosePlacement type state site beta = .reuse d .unchanged := by
  have hfound : (found type state site beta).direct = some d := by
    cases hf : (found type state site beta).direct with
    | none =>
      have hn := (findCandidates_no_direct hf).2 d hm
      simp [hd] at hn
    | some x =>
      obtain ⟨hx, hxd⟩ := found_direct hf
      rw [huniq x hx hxd]
  unfold choosePlacement
  rw [← found]
  cases hmv : ((found type state site beta).moved <|> (found type state site beta).frename) <;>
    simp [hfound, hmv, hcmp]

/-- Without move checking the direct match alone decides. -/
theorem choosePlacement_plain (hoff : site.opts.checkmoved = false)
    (hdiff : ∀ f ∈ site.files, f.diff ≠ .moved) :
    (choosePlacement type state site beta = .create ∧
      ∀ f ∈ site.files, isDirect type state beta f = false) ∨
    ∃ d ∈ site.files, isDirect type state beta d = true ∧
      choosePlacement type state site beta =
        .reuse d (fileCompare type state (beta.get d) site.opts) := by
  have hnone : ((found type state site beta).moved <|> (found type state site beta).frename) =
      none := by
    cases hm : ((found type state site beta).moved <|> (found type state site beta).frename) with
    | none => rfl
    | some m =>
      have hc := (found_moved hm).2
      simp [isCandidate, hoff] at hc
  unfold choosePlacement
  rw [← found]
  cases hd : (found type state site beta).direct with
  | none => exact Or.inl ⟨by simp [hnone, hd], (findCandidates_no_direct hd).2⟩
  | some d =>
    obtain ⟨hdm, hdd⟩ := found_direct hd
    exact Or.inr ⟨d, hdm, hdd, by simp [hnone, hd, hdiff d hdm]⟩

end Decision

/-! ### The effect -/

section Effect
variable {type : FileType} {state : FileState} {site : Site} {alpha beta : Slot}
  {defaultDiff : FileDiff}

@[simp] theorem newEntry_addr :
    (newEntry type state site alpha defaultDiff).addr = site.freshAddr := by
  simp [newEntry, fresh]

@[simp] theorem shovedEntry_addr (old : SiteFile) :
    (shovedEntry old site alpha defaultDiff).addr = site.freshAddr := by
  simp [shovedEntry, fresh]

/-- The entry as `file_set` leaves it in the reuse branch. -/
def reusedEntry (state : FileState) (alpha : Slot) (old : SiteFile) (diff : FileDiff) : SiteFile :=
  alpha.put state { old with diff := diff }

@[simp] theorem reusedEntry_addr (old : SiteFile) (diff : FileDiff) :
    (reusedEntry state alpha old diff).addr = old.addr := by simp [reusedEntry]

/-- The files after the reuse branch, given where the reused entry stands. -/
def reusedFiles (state : FileState) (site : Site) (alpha : Slot) (defaultDiff : FileDiff)
    (pre : List SiteFile) (old : SiteFile) (diff : FileDiff) (post : List SiteFile) :
    List SiteFile :=
  let files := pre ++ reusedEntry state alpha old diff :: post
  if (alpha.get old).existing then
    insertFile old.type (shovedEntry old site alpha defaultDiff) files
  else files

theorem fileSet_opts : (fileSet type state site alpha beta defaultDiff).1.opts = site.opts := by
  unfold fileSet
  cases choosePlacement type state site beta with
  | create => rfl
  | reuse old diff =>
    simp only [updateStats, addStats, write, dropStats, fileInsert]
    split_ifs <;> rfl

theorem fileSet_create (h : choosePlacement type state site beta = .create) :
    (fileSet type state site alpha beta defaultDiff).1.files =
      insertFile type (newEntry type state site alpha defaultDiff) site.files := by
  simp only [fileSet, h, updateStats, addStats, fileInsert]

theorem fileSet_reuse (wl : WellLinked site) {old : SiteFile} {diff : FileDiff}
    {pre post : List SiteFile} (hf : site.files = pre ++ old :: post)
    (h : choosePlacement type state site beta = .reuse old diff) :
    (fileSet type state site alpha beta defaultDiff).1.files =
      reusedFiles state site alpha defaultDiff pre old diff post := by
  have hold : old.addr < site.freshAddr := wl.bounded old (by simp [hf])
  have hnd := wl.nodup
  rw [hf] at hnd
  simp only [fileSet, h, updateStats, addStats, reusedFiles]
  split_ifs with hex
  · exact write_insertFile hnd (by simp) (by simp [shovedEntry, fresh]; omega)
      _ (by simp [fileInsert, dropStats, hf, shovedEntry, fresh])
  · exact @write_files (dropStats old site) pre post old _ (by simpa [dropStats, hf] using hnd)
      (by simp [dropStats, hf]) (by simp)

/-- The reuse branch up to the order of the list: the entry is replaced, and what it held
on the side being set, if anything, goes to a new entry. -/
theorem reusedFiles_perm (state : FileState) (site : Site) (alpha : Slot) (defaultDiff : FileDiff)
    (pre : List SiteFile) (old : SiteFile) (diff : FileDiff) (post : List SiteFile) :
    (reusedFiles state site alpha defaultDiff pre old diff post).Perm
      ((if (alpha.get old).existing then [shovedEntry old site alpha defaultDiff] else []) ++
        reusedEntry state alpha old diff :: (pre ++ post)) := by
  unfold reusedFiles
  split_ifs with hex
  · exact (insertFile_perm _ _ _).trans (List.perm_middle.cons _)
  · exact List.perm_middle

theorem fileSet_freshAddr_le : site.freshAddr ≤
    (fileSet type state site alpha beta defaultDiff).1.freshAddr := by
  unfold fileSet
  cases choosePlacement type state site beta with
  | create => simp [updateStats, addStats, fileInsert]
  | reuse old diff =>
    simp only [updateStats, addStats, write, dropStats, fileInsert]
    split_ifs <;> simp

theorem fileSet_wellLinked (wl : WellLinked site) :
    WellLinked (fileSet type state site alpha beta defaultDiff).1 := by
  cases h : choosePlacement type state site beta with
  | create =>
    have hp : ((fileSet type state site alpha beta defaultDiff).1.files.map SiteFile.addr).Perm
        (site.freshAddr :: site.files.map SiteFile.addr) := by
      rw [fileSet_create h]
      simpa using (insertFile_perm type (newEntry type state site alpha defaultDiff)
        site.files).map SiteFile.addr
    refine ⟨hp.nodup_iff.mpr (List.nodup_cons.mpr ⟨?_, wl.nodup⟩), ?_⟩
    · intro hm
      obtain ⟨f, hf, he⟩ := List.mem_map.mp hm
      have := wl.bounded f hf
      omega
    · intro f hf
      have hfr : (fileSet type state site alpha beta defaultDiff).1.freshAddr =
          site.freshAddr + 1 := by simp [fileSet, h, updateStats, addStats, fileInsert]
      rw [fileSet_create h, mem_insertFile] at hf
      rcases hf with rfl | hf
      · simp [hfr]
      · have := wl.bounded f hf
        omega
  | reuse old diff =>
    obtain ⟨pre, post, hf⟩ := List.append_of_mem (choosePlacement_reuse h).mem
    have hp := (reusedFiles_perm state site alpha defaultDiff pre old diff post).map SiteFile.addr
    rw [← fileSet_reuse wl hf h] at hp
    have hnd : (old.addr :: (pre ++ post).map SiteFile.addr).Nodup := by
      have hq : (site.files.map SiteFile.addr).Perm (old.addr :: (pre ++ post).map SiteFile.addr) := by
        rw [hf]
        exact List.perm_middle.map SiteFile.addr
      exact hq.nodup_iff.mp wl.nodup
    have hb : ∀ a ∈ old.addr :: (pre ++ post).map SiteFile.addr, a < site.freshAddr := by
      intro a ha
      have ha' : a ∈ site.files.map SiteFile.addr := by
        rw [hf]
        simp only [List.map_append, List.map_cons, List.mem_cons, List.mem_append] at ha ⊢
        tauto
      obtain ⟨f, hfm, rfl⟩ := List.mem_map.mp ha'
      exact wl.bounded f hfm
    by_cases hex : (alpha.get old).existing = true
    · simp only [hex, ↓reduceIte, List.map_append, List.map_cons, shovedEntry_addr,
        reusedEntry_addr, List.singleton_append] at hp
      rw [← List.map_append] at hp
      have hfr : (fileSet type state site alpha beta defaultDiff).1.freshAddr =
          site.freshAddr + 1 := by
        simp [fileSet, h, updateStats, addStats, fileInsert, write, dropStats, hex]
      refine ⟨hp.nodup_iff.mpr (List.nodup_cons.mpr ⟨fun hm => ?_, hnd⟩), fun f hfm => ?_⟩
      · exact absurd (hb _ hm) (lt_irrefl _)
      · have hm := hp.mem_iff.mp (List.mem_map_of_mem hfm)
        rw [hfr]
        rcases List.mem_cons.mp hm with he | hm
        · omega
        · have := hb _ hm
          omega
    · simp only [hex, Bool.false_eq_true, ↓reduceIte, List.nil_append, List.map_cons,
        reusedEntry_addr] at hp
      refine ⟨hp.nodup_iff.mpr hnd, fun f hfm => ?_⟩
      exact lt_of_lt_of_le (hb _ (hp.mem_iff.mp (List.mem_map_of_mem hfm))) fileSet_freshAddr_le

/-- An entry of the list that `file_set` leaves was in the list before, or `file_set` wrote it. -/
theorem mem_fileSet (wl : WellLinked site) {file : SiteFile}
    (hm : file ∈ (fileSet type state site alpha beta defaultDiff).1.files) :
    file ∈ site.files ∨
    (choosePlacement type state site beta = .create ∧
      file = newEntry type state site alpha defaultDiff) ∨
    ∃ old diff, choosePlacement type state site beta = .reuse old diff ∧
      (file = reusedEntry state alpha old diff ∨
        (alpha.get old).existing = true ∧ file = shovedEntry old site alpha defaultDiff) := by
  cases hp : choosePlacement type state site beta with
  | create =>
    rw [fileSet_create hp, mem_insertFile] at hm
    rcases hm with hnew | hm
    · exact Or.inr (Or.inl ⟨rfl, hnew⟩)
    · exact Or.inl hm
  | reuse old diff =>
    obtain ⟨pre, post, hf⟩ := List.append_of_mem (choosePlacement_reuse hp).mem
    rw [fileSet_reuse wl hf hp, (reusedFiles_perm _ _ _ _ _ _ _ _).mem_iff, List.mem_append,
      List.mem_cons, List.mem_append] at hm
    rcases hm with hm | hreused | hm
    · split_ifs at hm with hex
      · exact Or.inr (Or.inr ⟨old, diff, rfl, Or.inr ⟨hex, List.mem_singleton.mp hm⟩⟩)
      · exact absurd hm List.not_mem_nil
    · exact Or.inr (Or.inr ⟨old, diff, rfl, Or.inl hreused⟩)
    · apply Or.inl
      rw [hf, List.mem_append, List.mem_cons]
      tauto

end Effect

end Sitecopy.FileSetSpec
