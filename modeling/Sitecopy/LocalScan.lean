import Sitecopy.StackSearch
import Sitecopy.Paths
import Sitecopy.FileMatching

/-!
# Scanning the local tree

`site_read_local_state` walks the local tree with a stack of directories. A call that fails
only produces a warning: its file, or all that the directory contains, is left out.
-/
namespace Sitecopy.LocalScan
open SiteModel FileSet FileSetSpec SiteStats FileMatching StackSearch Paths

/-! ### The local tree -/

/-- The kinds of files that `st_mode` tells apart. -/
inductive Kind
  | regular
  | directory
  | symlink
  | other
  deriving DecidableEq, Repr

/-- What `lstat` and `stat` report. -/
structure Stat where
  kind : Kind
  mode : UInt32 := 0
  mtime : ℤ := 0
  size : ℤ := 0
  deriving DecidableEq, Repr

/-- The files under full paths; the path of a directory that is read ends with a slash. -/
structure Disk where
  entries : Text → List Text
  lstat : Text → Stat
  /-- the file that a link leads to, if there is one -/
  stat : Text → Option Stat
  readlink : Text → Text
  checksum : Text → Checksum

/-- The calls of the scan that can fail. -/
inductive Syscall
  | opendir
  | lstat
  | stat
  | readlink
  | checksum
  deriving DecidableEq, Repr

/-- Which calls fail for which paths. -/
abbrev Failures := Syscall → Text → Bool

def noFailures : Failures := fun _ _ => false

/-! ### The scan -/

/-- `lstat`, and `stat` for a link that is followed. -/
def examine (disk : Disk) (fails : Failures) (o : SiteOptions) (full : Text) : Option Stat :=
  if fails .lstat full then none
  else
    let item := disk.lstat full
    if item.kind = .symlink then
      match o.symlinks with
      | .ignore => none
      -- a broken link is passed over without a warning
      | .follow => if fails .stat full then none else disk.stat full
      | .maintain => some item
    else some item

/-- The type of a file, and the part of its state that depends on the type. -/
def readState (disk : Disk) (fails : Failures) (o : SiteOptions) (full fname : Text) (item : Stat) :
    Option (FileType × FileState) :=
  match item.kind with
  | .regular =>
    match o.stateMethod with
    | .timesize =>
      some (.file, { time := item.mtime, size := item.size, ascii := fileIsascii fname o })
    | .checksum =>
      if fails .checksum full then none
      else some (.file,
        { checksum := disk.checksum full, size := item.size, ascii := fileIsascii fname o })
  | .symlink =>
    if fails .readlink full then none
    else some (.link, { linktarget := some (disk.readlink full) })
  | .directory => some (.dir, {})
  | .other => none

/-- The special entries of a directory. -/
def isSpecial (name : Text) : Bool := name = [dot] || name = [dot, dot]

/-- What the entry `name` of the directory `this` is set to. -/
def scanEntry (disk : Disk) (fails : Failures) (o : SiteOptions) (this name : Text) :
    Option (FileType × FileState) :=
  if isSpecial name then none
  else
    let full := this ++ name
    (examine disk fails o full).bind fun item =>
      let fname := full.drop o.localRoot.length
      if fileIsexcluded fname o then none
      else (readState disk fails o full fname item).map fun r =>
        (r.1, { r.2 with mode := item.mode &&& 0o777, existing := true, filename := some fname })

/-- The loop over the entries of the directory `this`. -/
def scanEntries (disk : Disk) (fails : Failures) (this : Text) :
    List Text → List Text → Site → List Text × Site
  | [], dirstack, site => (dirstack, site)
  | name :: names, dirstack, site =>
    match scanEntry disk fails site.opts this name with
    | none => scanEntries disk fails this names dirstack site
    | some (type, state) =>
      let dirstack := if type = .dir then (this ++ name ++ [slash]) :: dirstack else dirstack
      scanEntries disk fails this names dirstack (fileSetLocal type state site).1

/-- The loop over the stack, with `fuel` turns at most. -/
def scanLoop (disk : Disk) (fails : Failures) : ℕ → List Text → Site → Option Site
  | 0, _, _ => none
  | _ + 1, [], site => some site
  | fuel + 1, this :: dirstack, site =>
    if fails .opendir this then scanLoop disk fails fuel dirstack site
    else
      let r := scanEntries disk fails this (disk.entries this) dirstack site
      scanLoop disk fails fuel r.1 r.2

/-- `site_read_local_state`. -/
def siteReadLocalState (disk : Disk) (fails : Failures) (fuel : ℕ) (site : Site) : Option Site :=
  scanLoop disk fails fuel [site.opts.localRoot] site

/-! ### What there is to be seen -/

/-- A file as the options want links to be seen. -/
def view (disk : Disk) (o : SiteOptions) (full : Text) : Option Stat :=
  if (disk.lstat full).kind = .symlink then
    match o.symlinks with
    | .ignore => none
    | .follow => disk.stat full
    | .maintain => some (disk.lstat full)
  else some (disk.lstat full)

def Kind.type : Kind → Option FileType
  | .regular => some .file
  | .directory => some .dir
  | .symlink => some .link
  | .other => none

/-- No call that the scan makes for a file fails. -/
structure Examined (disk : Disk) (fails : Failures) (o : SiteOptions) (full : Text)
    (type : FileType) : Prop where
  lstat : fails .lstat full = false
  stat : (disk.lstat full).kind = .symlink → o.symlinks = .follow → fails .stat full = false
  readlink : type = .link → fails .readlink full = false
  checksum : type = .file → o.stateMethod = .checksum → fails .checksum full = false

/-- The entry `name` of a directory is a file of this type, is not excluded, and can be
examined. -/
structure Lists (disk : Disk) (fails : Failures) (o : SiteOptions) (d name : Text)
    (type : FileType) : Prop where
  mem : name ∈ disk.entries d
  ordinary : isSpecial name = false
  seen : ∃ item, view disk o (d ++ name) = some item ∧ item.kind.type = some type
  included : fileIsexcluded ((d ++ name).drop o.localRoot.length) o = false
  examined : Examined disk fails o (d ++ name) type

/-- A directory below the local root that can be read, as can those above it. -/
inductive Readable (disk : Disk) (fails : Failures) (o : SiteOptions) : Text → Prop
  | root : fails .opendir o.localRoot = false → Readable disk fails o o.localRoot
  | child {d name : Text} : Readable disk fails o d → Lists disk fails o d name .dir →
      fails .opendir (d ++ name ++ [slash]) = false →
      Readable disk fails o (d ++ name ++ [slash])

/-- A path is there with this type, is not excluded, and is reached and examined. -/
def Shown (disk : Disk) (fails : Failures) (o : SiteOptions) (k : FileType × Text) : Prop :=
  ∃ d name, Readable disk fails o d ∧ Lists disk fails o d name k.1 ∧
    k.2 = (d ++ name).drop o.localRoot.length

/-- The directories that a scan pushes when it has read `d`. -/
def subdirectories (disk : Disk) (fails : Failures) (o : SiteOptions) (d : Text) : List Text :=
  if fails .opendir d then []
  else (disk.entries d).filterMap fun name =>
    match scanEntry disk fails o d name with
    | some (.dir, _) => some (d ++ name ++ [slash])
    | _ => none

/-- All directories in the directory `d`. -/
def directories (disk : Disk) (o : SiteOptions) (d : Text) : List Text :=
  (disk.entries d).filterMap fun name =>
    if isSpecial name then none
    else if (view disk o (d ++ name)).any (·.kind = .directory) then some (d ++ name ++ [slash])
    else none

/-- A local tree of finite height, with different proper names in each directory. -/
structure LocalTree (o : SiteOptions) extends Disk where
  height : ℕ
  finite : HeightAtMost (directories toDisk o) height o.localRoot
  named : ∀ d, ∀ n ∈ entries d, IsName slash n
  distinct : ∀ d, (entries d).Nodup

/-- The calls of `file_set_local` for one directory. -/
def scannedCalls (disk : Disk) (fails : Failures) (o : SiteOptions) (d : Text) : List SetCall :=
  if fails .opendir d then []
  else (disk.entries d).filterMap fun name =>
    (scanEntry disk fails o d name).map fun r =>
      ⟨.localSlot, r.1, { r.2 with existing := true }, rfl⟩

section Entries
variable {disk : Disk} {fails : Failures} {o : SiteOptions} {d name full fname : Text}
  {type : FileType} {state : FileState} {item : Stat}

lemma examine_some : examine disk fails o full = some item ↔
    view disk o full = some item ∧ fails .lstat full = false ∧
      ((disk.lstat full).kind = .symlink → o.symlinks = .follow → fails .stat full = false) := by
  unfold examine view
  cases hl : fails .lstat full with
  | true => simp
  | false =>
    by_cases hk : (disk.lstat full).kind = .symlink
    · cases hm : o.symlinks with
      | ignore | maintain => simp [hk]
      | follow => cases hs : fails .stat full <;> simp [hk]
    · simp [hk]

lemma readState_some : (∃ s, readState disk fails o full fname item = some (type, s)) ↔
    item.kind.type = some type ∧ (type = .link → fails .readlink full = false) ∧
      (type = .file → o.stateMethod = .checksum → fails .checksum full = false) := by
  unfold readState Kind.type
  cases hk : item.kind with
  | regular =>
    cases hm : o.stateMethod with
    | timesize => cases type <;> simp
    | checksum => cases hf : fails .checksum full <;> cases type <;> simp
  | directory => cases type <;> simp
  | symlink => cases hf : fails .readlink full <;> cases type <;> simp
  | other => simp

/-- What a scan sets exists under the path below the local root. -/
lemma scanEntry_state (h : scanEntry disk fails o d name = some (type, state)) :
    state.existing = true ∧ state.filename = some ((d ++ name).drop o.localRoot.length) := by
  unfold scanEntry at h
  split_ifs at h
  obtain ⟨item, _, h⟩ := Option.bind_eq_some_iff.mp h
  dsimp only at h
  split_ifs at h
  obtain ⟨r, _, h⟩ := Option.map_eq_some_iff.mp h
  obtain ⟨_, rfl⟩ := Prod.mk.inj h
  exact ⟨rfl, rfl⟩

/-- An entry is set exactly if it is listed. -/
theorem scanEntry_iff (hm : name ∈ disk.entries d) :
    (∃ s, scanEntry disk fails o d name = some (type, s)) ↔ Lists disk fails o d name type := by
  constructor
  · rintro ⟨s, h⟩
    unfold scanEntry at h
    split_ifs at h with hspecial
    obtain ⟨item, hitem, h⟩ := Option.bind_eq_some_iff.mp h
    dsimp only at h
    split_ifs at h with hex
    obtain ⟨r, hr, h⟩ := Option.map_eq_some_iff.mp h
    obtain ⟨rfl, rfl⟩ := Prod.mk.inj h
    obtain ⟨hview, hlstat, hstat⟩ := examine_some.mp hitem
    obtain ⟨hkind, hlink, hsum⟩ := readState_some.mp ⟨r.2, hr⟩
    exact ⟨hm, by simpa using hspecial, ⟨item, hview, hkind⟩, by simpa using hex,
      ⟨hlstat, hstat, hlink, hsum⟩⟩
  · intro h
    obtain ⟨item, hview, hkind⟩ := h.seen
    have hitem := examine_some.mpr ⟨hview, h.examined.lstat, h.examined.stat⟩
    obtain ⟨s, hs⟩ := (@readState_some disk fails o (d ++ name)
      ((d ++ name).drop o.localRoot.length) type item).mpr
        ⟨hkind, h.examined.readlink, h.examined.checksum⟩
    unfold scanEntry
    rw [if_neg (by simp [h.ordinary])]
    simp [hitem, h.included, hs]

lemma mem_subdirectories {e : Text} : e ∈ subdirectories disk fails o d ↔
    fails .opendir d = false ∧
      ∃ name, Lists disk fails o d name .dir ∧ e = d ++ name ++ [slash] := by
  unfold subdirectories
  cases hf : fails .opendir d with
  | true => simp
  | false =>
    rw [if_neg (by simp), List.mem_filterMap]
    simp only [true_and]
    constructor
    · rintro ⟨n, hn, he⟩
      split at he
      case h_1 s hs =>
        obtain rfl := Option.some.inj he
        exact ⟨n, (scanEntry_iff hn).mp ⟨s, hs⟩, rfl⟩
      case h_2 => cases he
    · rintro ⟨n, hl, rfl⟩
      obtain ⟨s, hs⟩ := (scanEntry_iff hl.mem).mpr hl
      refine ⟨n, hl.mem, ?_⟩
      rw [hs]

/-- Failures hide directories, they add none. -/
lemma subdirectories_subset : subdirectories disk fails o d ⊆ directories disk o d := by
  intro e he
  obtain ⟨_, name, hl, rfl⟩ := mem_subdirectories.mp he
  obtain ⟨item, hview, hkind⟩ := hl.seen
  have hdir : item.kind = .directory := by
    cases hk : item.kind with
    | directory => rfl
    | regular | symlink | other => simp [hk, Kind.type] at hkind
  apply List.mem_filterMap.mpr
  refine ⟨name, hl.mem, ?_⟩
  rw [if_neg (by simp [hl.ordinary]), if_pos (by simp [hview, hdir])]

/-- What a scan reads is what it can reach. -/
lemma readable_iff : Readable disk fails o d ↔
    Reach (subdirectories disk fails o) o.localRoot d ∧ fails .opendir d = false := by
  constructor
  · intro h
    induction h with
    | root hf => exact ⟨.root, hf⟩
    | child _ hl hf ih =>
      exact ⟨ih.1.child (mem_subdirectories.mpr ⟨ih.2, _, hl, rfl⟩), hf⟩
  · rintro ⟨h, hf⟩
    induction h with
    | root => exact .root hf
    | child _ he ih =>
      obtain ⟨hopen, name, hl, rfl⟩ := mem_subdirectories.mp he
      exact .child (ih hopen) hl hf

end Entries

/-! ### What a scan sets -/

section Scan
variable {disk : Disk} {fails : Failures} {o : SiteOptions} {site : Site}

lemma runCalls_append (calls calls' : List SetCall) (site : Site) :
    runCalls (calls ++ calls') site = runCalls calls' (runCalls calls site) := List.foldl_append

/-- The loop over some entries of a directory. -/
lemma scanEntries_eq (this : Text) (names dirstack : List Text) (ho : site.opts = o) :
    scanEntries disk fails this names dirstack site =
      ((names.filterMap fun name => match scanEntry disk fails o this name with
        | some (.dir, _) => some (this ++ name ++ [slash])
        | _ => none).reverse ++ dirstack,
      runCalls (names.filterMap fun name => (scanEntry disk fails o this name).map fun r =>
        ⟨.localSlot, r.1, { r.2 with existing := true }, rfl⟩) site) := by
  induction names generalizing dirstack site with
  | nil => rfl
  | cons name names ih =>
    rw [scanEntries, ho]
    cases he : scanEntry disk fails o this name with
    | none =>
      rw [List.filterMap_cons_none (by rw [he]), List.filterMap_cons_none (by rw [he]; rfl)]
      exact ih dirstack ho
    | some r =>
      obtain ⟨type, state⟩ := r
      have hex : { state with existing := true } = state := by
        rw [← (scanEntry_state he).1]
      have hopts : (fileSetLocal type state site).1.opts = o := fileSet_opts.trans ho
      dsimp only
      rw [ih _ hopts, List.filterMap_cons_some (f := fun name => (scanEntry disk fails o this name).map
        fun r => (⟨.localSlot, r.1, { r.2 with existing := true }, rfl⟩ : SetCall)) (by rw [he]; rfl)]
      have hrun : ∀ calls : List SetCall, runCalls calls (fileSetLocal type state site).1 =
          runCalls (⟨.localSlot, type, { state with existing := true }, rfl⟩ :: calls) site := by
        intro calls
        rw [runCalls, runCalls, List.foldl_cons]
        change _ = List.foldl _ (fileSetLocal type { state with existing := true } site).1 calls
        rw [hex]
      rw [hrun]
      congr 1
      cases type with
      | dir =>
        rw [List.filterMap_cons_some (by rw [he]), List.reverse_cons, if_pos rfl]
        simp
      | file | link =>
        rw [List.filterMap_cons_none (by rw [he])]
        rfl

/-- One turn of the loop over the stack. -/
lemma scanLoop_cons (fuel : ℕ) (this : Text) (dirstack : List Text) (ho : site.opts = o) :
    scanLoop disk fails (fuel + 1) (this :: dirstack) site =
      scanLoop disk fails fuel ((subdirectories disk fails o this).reverse ++ dirstack)
        (runCalls (scannedCalls disk fails o this) site) := by
  rw [scanLoop, subdirectories, scannedCalls]
  cases hf : fails .opendir this with
  | true => rfl
  | false => simp only [Bool.false_eq_true, ↓reduceIte, scanEntries_eq this _ _ ho]

/-- With enough fuel the loop ends, and has made the calls for all directories it visited. -/
theorem scanLoop_runs (fuel : ℕ) {h : ℕ} {visited dirstack : List Text}
    (hvisit : Exploring (subdirectories disk fails o) o.localRoot visited dirstack)
    (hheight : ∀ d ∈ dirstack, HeightAtMost (subdirectories disk fails o) h d)
    (hfuel : (dirstack.map (size (subdirectories disk fails o) h)).sum < fuel) :
    ∃ visited', Exploring (subdirectories disk fails o) o.localRoot visited' [] ∧
      scanLoop disk fails fuel dirstack
          (runCalls (visited.reverse.flatMap (scannedCalls disk fails o)) { opts := o }) =
        some (runCalls (visited'.reverse.flatMap (scannedCalls disk fails o)) { opts := o }) := by
  induction fuel generalizing visited dirstack with
  | zero => omega
  | succ fuel ih =>
    cases dirstack with
    | nil => exact ⟨visited, hvisit, rfl⟩
    | cons d dirstack =>
      have hd := hheight d (by simp)
      have hlt := @size_children_lt Text _ d dirstack h hd
      have hnext : ∀ e ∈ (subdirectories disk fails o d).reverse ++ dirstack,
          HeightAtMost (subdirectories disk fails o) h e := by
        intro e he
        rcases List.mem_append.mp he with he | he
        · exact hd.child (List.mem_reverse.mp he)
        · exact hheight e (List.mem_cons_of_mem d he)
      obtain ⟨visited', hdone, hrun⟩ := ih hvisit.step hnext (by omega)
      refine ⟨visited', hdone, ?_⟩
      rw [scanLoop_cons _ _ _ ((runCalls_opts _ _).trans rfl), ← hrun, ← runCalls_append]
      simp

/-- More fuel does not change the result. -/
lemma scanLoop_mono {fuel fuel' : ℕ} (hle : fuel ≤ fuel') {dirstack : List Text} {site' : Site}
    (h : scanLoop disk fails fuel dirstack site = some site') :
    scanLoop disk fails fuel' dirstack site = some site' := by
  induction fuel generalizing fuel' dirstack site with
  | zero => cases h
  | succ fuel ih =>
    obtain ⟨fuel', rfl⟩ := Nat.exists_eq_add_of_lt (Nat.lt_of_lt_of_le (Nat.succ_pos fuel) hle)
    rw [Nat.zero_add] at hle ⊢
    cases dirstack with
    | nil => exact h
    | cons this dirstack =>
      rw [scanLoop] at h ⊢
      split_ifs at h ⊢
      · exact ih (by omega) h
      · exact ih (by omega) h

end Scan

/-- The turns that a scan of the tree may take. -/
def LocalTree.turns {o : SiteOptions} (tree : LocalTree o) (fails : Failures) : ℕ :=
  size (subdirectories tree.toDisk fails o) tree.height o.localRoot + 1

section Tree
variable {o : SiteOptions} (tree : LocalTree o) (fails : Failures)

/-- A scan of a tree ends, and makes the calls for the directories it reaches. -/
theorem scan_runs :
    ∃ visited : List Text,
      (∀ d, d ∈ visited ↔ Reach (subdirectories tree.toDisk fails o) o.localRoot d) ∧
      ∀ fuel, tree.turns fails ≤ fuel → siteReadLocalState tree.toDisk fails fuel { opts := o } =
        some (runCalls (visited.reverse.flatMap (scannedCalls tree.toDisk fails o)) { opts := o }) := by
  have hheight : HeightAtMost (subdirectories tree.toDisk fails o) tree.height o.localRoot := by
    apply tree.finite.mono
    intro d
    exact subdirectories_subset
  obtain ⟨visited, hdone, hrun⟩ := @scanLoop_runs tree.toDisk fails o (tree.turns fails)
    tree.height [] _ .init (by simpa using hheight) (by simp [LocalTree.turns])
  exact ⟨visited, fun d => hdone.done, fun fuel hfuel => scanLoop_mono hfuel hrun⟩

lemma mem_scannedCalls {c : SetCall} {d : Text} : c ∈ scannedCalls tree.toDisk fails o d →
    c.side = .localSlot ∧ fails .opendir d = false ∧ ∃ name,
      Lists tree.toDisk fails o d name c.type ∧
        c.state.filename = some ((d ++ name).drop o.localRoot.length) := by
  unfold scannedCalls
  split_ifs with hf
  · simp
  · intro hc
    obtain ⟨name, hm, hc⟩ := List.mem_filterMap.mp hc
    obtain ⟨r, hr, rfl⟩ := Option.map_eq_some_iff.mp hc
    exact ⟨rfl, by simpa using hf, name, (scanEntry_iff hm).mp ⟨r.2, hr⟩, (scanEntry_state hr).2⟩

/-- The local paths that a scan sets are those that are shown. -/
theorem scan_shows : ∃ calls : List SetCall, (∀ c ∈ calls, c.side = .localSlot) ∧
      (∀ fuel, tree.turns fails ≤ fuel →
        siteReadLocalState tree.toDisk fails fuel { opts := o } =
          some (runCalls calls { opts := o })) ∧
      ∀ type name, (∃ c ∈ calls, c.type = type ∧ c.state.filename = some name) ↔
        Shown tree.toDisk fails o (type, name) := by
  obtain ⟨visited, hreach, hrun⟩ := scan_runs tree fails
  refine ⟨_, fun c hc => ?_, hrun, fun type name => ⟨?_, ?_⟩⟩
  · obtain ⟨d, _, hc⟩ := List.mem_flatMap.mp hc
    exact (mem_scannedCalls tree fails hc).1
  · rintro ⟨c, hc, rfl, hname⟩
    obtain ⟨d, hd, hc⟩ := List.mem_flatMap.mp hc
    obtain ⟨_, hopen, n, hl, hfile⟩ := mem_scannedCalls tree fails hc
    rw [hname] at hfile
    refine ⟨d, n, readable_iff.mpr ⟨(hreach d).mp (List.mem_reverse.mp hd), hopen⟩, hl, ?_⟩
    exact Option.some.inj hfile
  · rintro ⟨d, n, hd, hl, rfl⟩
    obtain ⟨hr, hopen⟩ := readable_iff.mp hd
    obtain ⟨s, hs⟩ := (scanEntry_iff hl.mem).mpr hl
    refine ⟨⟨.localSlot, type, { s with existing := true }, rfl⟩, ?_, rfl, (scanEntry_state hs).2⟩
    apply List.mem_flatMap.mpr
    refine ⟨d, List.mem_reverse.mpr ((hreach d).mpr hr), ?_⟩
    rw [scannedCalls, if_neg (by simp [hopen]), List.mem_filterMap]
    exact ⟨n, hl.mem, by rw [hs]; rfl⟩

end Tree

end Sitecopy.LocalScan
