import Sitecopy.LocalScan
import Sitecopy.PreorderSearch

/-!
# The scan of the local tree is complete

The scan calls `file_set_local` once for every file of the local tree that is not excluded,
and for a directory before it calls it for what the directory contains.
-/
namespace Sitecopy.ScanCompleteness
open SiteModel FileSet FileSetSpec LocalScan StackSearch PreorderSearch Paths

/-! ### The calls of `file_set_local` -/

section Calls
variable {τ : Type} (set : FileType → FileState → τ → τ)

/-- The loop over the entries of a directory, with another function for `file_set_local`. -/
def scanEntriesWith (disk : Disk) (fails : Failures) (o : SiteOptions) (this : Text) :
    List Text → List Text → τ → List Text × τ
  | [], dirstack, t => (dirstack, t)
  | name :: names, dirstack, t =>
    match scanEntry disk fails o this name with
    | none => scanEntriesWith disk fails o this names dirstack t
    | some (type, state) =>
      let dirstack := if type = .dir then (this ++ name ++ [slash]) :: dirstack else dirstack
      scanEntriesWith disk fails o this names dirstack (set type state t)

/-- The loop over the stack, with another function for `file_set_local`. -/
def scanLoopWith (disk : Disk) (fails : Failures) (o : SiteOptions) :
    ℕ → List Text → τ → Option τ
  | 0, _, _ => none
  | _ + 1, [], t => some t
  | fuel + 1, this :: dirstack, t =>
    if fails .opendir this then scanLoopWith disk fails o fuel dirstack t
    else
      let r := scanEntriesWith set disk fails o this (disk.entries this) dirstack t
      scanLoopWith disk fails o fuel r.1 r.2

/-- Write a call of `file_set_local` down. -/
def logCall (type : FileType) (state : FileState) (calls : List (FileType × FileState)) :
    List (FileType × FileState) := calls ++ [(type, state)]

/-- The calls of `file_set_local` that a scan makes, in order. -/
def scanCalls (disk : Disk) (fails : Failures) (o : SiteOptions) (fuel : ℕ) :
    Option (List (FileType × FileState)) :=
  scanLoopWith logCall disk fails o fuel [o.localRoot] []

/-- Some calls one after the other. -/
def makeCalls (calls : List (FileType × FileState)) (t : τ) : τ :=
  calls.foldl (fun t c => set c.1 c.2 t) t

/-- The calls for one directory. -/
def callsIn (disk : Disk) (fails : Failures) (o : SiteOptions) (d : Text) :
    List (FileType × FileState) :=
  if fails .opendir d then [] else (disk.entries d).filterMap (scanEntry disk fails o d)

variable {disk : Disk} {fails : Failures} {o : SiteOptions}

lemma makeCalls_append (calls calls' : List (FileType × FileState)) (t : τ) :
    makeCalls set (calls ++ calls') t = makeCalls set calls' (makeCalls set calls t) :=
  List.foldl_append

lemma makeCalls_log (calls l : List (FileType × FileState)) :
    makeCalls logCall calls l = l ++ calls := by
  induction calls generalizing l with
  | nil => exact (List.append_nil l).symm
  | cons c calls ih =>
    change makeCalls logCall calls (l ++ [c]) = _
    rw [ih, List.append_assoc]
    rfl

lemma scanEntriesWith_eq (this : Text) (names dirstack : List Text) (t : τ) :
    scanEntriesWith set disk fails o this names dirstack t =
      ((names.filterMap fun name => match scanEntry disk fails o this name with
        | some (.dir, _) => some (this ++ name ++ [slash])
        | _ => none).reverse ++ dirstack,
      makeCalls set (names.filterMap (scanEntry disk fails o this)) t) := by
  induction names generalizing dirstack t with
  | nil => rfl
  | cons name names ih =>
    rw [scanEntriesWith]
    cases he : scanEntry disk fails o this name with
    | none =>
      rw [List.filterMap_cons_none (by rw [he]), List.filterMap_cons_none he]
      exact ih dirstack t
    | some r =>
      obtain ⟨type, state⟩ := r
      dsimp only
      rw [ih, List.filterMap_cons_some he]
      cases type with
      | dir =>
        rw [List.filterMap_cons_some (by rw [he]), List.reverse_cons, if_pos rfl]
        exact Prod.ext (by simp) rfl
      | file | link =>
        rw [List.filterMap_cons_none (by rw [he])]
        rfl

/-- The loop makes the calls for the directories that the search visits. -/
theorem scanLoopWith_eq (fuel : ℕ) (dirstack : List Text) (t : τ) :
    scanLoopWith set disk fails o fuel dirstack t =
      (visits (subdirectories disk fails o) fuel dirstack).map fun ds =>
        makeCalls set (ds.flatMap (callsIn disk fails o)) t := by
  induction fuel generalizing dirstack t with
  | zero => rfl
  | succ fuel ih =>
    cases dirstack with
    | nil => rfl
    | cons d dirstack =>
      rw [scanLoopWith, visits, Option.map_map]
      cases hf : fails .opendir d with
      | true =>
        have hnone : subdirectories disk fails o d = [] := if_pos hf
        have hcalls : callsIn disk fails o d = [] := if_pos hf
        rw [if_pos rfl, ih, hnone]
        simp [Function.comp_def, hcalls]
      | false =>
        have hsubs : subdirectories disk fails o d = _ := if_neg (by simp [hf])
        have hcalls : callsIn disk fails o d = _ := if_neg (by simp [hf])
        rw [if_neg (by simp), scanEntriesWith_eq, ih, hsubs]
        congr 1
        funext ds
        rw [Function.comp_apply, List.flatMap_cons, makeCalls_append, hcalls]

/-- A scan logs the calls of its directories. -/
lemma scanCalls_eq (fuel : ℕ) : scanCalls disk fails o fuel =
    (visits (subdirectories disk fails o) fuel [o.localRoot]).map
      (List.flatMap (callsIn disk fails o)) := by
  rw [scanCalls, scanLoopWith_eq]
  congr 1
  funext ds
  rw [makeCalls_log, List.nil_append]

end Calls

section Sites
variable {disk : Disk} {fails : Failures}

/-- `file_set_local`, for its effect on the site. -/
def setLocal (type : FileType) (state : FileState) (site : Site) : Site :=
  (fileSetLocal type state site).1

lemma scanEntries_with (this : Text) (names dirstack : List Text) (site : Site) :
    scanEntries disk fails this names dirstack site =
      scanEntriesWith setLocal disk fails site.opts this names dirstack site := by
  induction names generalizing dirstack site with
  | nil => rfl
  | cons name names ih =>
    rw [scanEntries, scanEntriesWith]
    cases scanEntry disk fails site.opts this name with
    | none => exact ih dirstack site
    | some r =>
      have hopts : (fileSetLocal r.1 r.2 site).1.opts = site.opts := fileSet_opts
      dsimp only
      rw [ih, hopts]
      rfl

lemma makeCalls_opts (calls : List (FileType × FileState)) (site : Site) :
    (makeCalls setLocal calls site).opts = site.opts := by
  induction calls generalizing site with
  | nil => rfl
  | cons c calls ih => exact (ih _).trans fileSet_opts

lemma scanLoop_with (fuel : ℕ) (dirstack : List Text) (site : Site) :
    scanLoop disk fails fuel dirstack site =
      scanLoopWith setLocal disk fails site.opts fuel dirstack site := by
  induction fuel generalizing dirstack site with
  | zero => rfl
  | succ fuel ih =>
    cases dirstack with
    | nil => rfl
    | cons this dirstack =>
      rw [scanLoop, scanLoopWith]
      split_ifs
      · exact ih dirstack site
      · have hopts : (scanEntriesWith setLocal disk fails site.opts this (disk.entries this) dirstack
            site).2.opts = site.opts := by
          rw [scanEntriesWith_eq]
          exact makeCalls_opts _ _
        dsimp only
        rw [ih, scanEntries_with, hopts]

/-- A scan of the local tree makes the logged calls, whatever the site holds. -/
theorem siteReadLocalState_calls (fuel : ℕ) (site : Site) :
    siteReadLocalState disk fails fuel site =
      (scanCalls disk fails site.opts fuel).map fun calls => makeCalls setLocal calls site := by
  rw [siteReadLocalState, scanLoop_with, scanLoopWith_eq, scanCalls_eq, Option.map_map]
  rfl

end Sites

/-! ### Paths below the local root -/

/-- The full path of a directory, given by the names on the way to it. -/
def dirPath (o : SiteOptions) (ds : List Text) : Text := o.localRoot ++ ds.flatMap (· ++ [slash])

/-- The path of the entry `n` of a directory below the local root. -/
def relPath (ds : List Text) (n : Text) : Text := ds.flatMap (· ++ [slash]) ++ n

section Names
variable {o : SiteOptions} {ds es : List Text} {n m : Text}

lemma dirPath_root : dirPath o [] = o.localRoot := List.append_nil _

lemma dirPath_child : dirPath o (ds ++ [n]) = dirPath o ds ++ n ++ [slash] := by simp [dirPath]

lemma dirPath_entry : dirPath o ds ++ n = o.localRoot ++ relPath ds n := List.append_assoc _ _ _

lemma relPath_cons (c : Text) : relPath (c :: ds) n = c ++ slash :: relPath ds n := by
  simp [relPath]

/-- A text is cut at its first slash in one way only. -/
lemma first_slash_inj {a b s t : Text} (ha : slash ∉ a) (hb : slash ∉ b)
    (h : a ++ slash :: s = b ++ slash :: t) : a = b ∧ s = t := by
  rcases List.append_eq_append_iff.mp h with ⟨l, rfl, hl⟩ | ⟨l, rfl, hl⟩
  · cases l with
    | nil =>
      obtain ⟨-, rfl⟩ := List.cons.inj hl
      simp
    | cons c l =>
      obtain ⟨rfl, -⟩ := List.cons.inj hl
      simp at hb
  · cases l with
    | nil =>
      obtain ⟨-, rfl⟩ := List.cons.inj hl
      simp
    | cons c l =>
      obtain ⟨rfl, -⟩ := List.cons.inj hl
      simp at ha

lemma relPath_inj (hds : ∀ c ∈ ds, slash ∉ c) (hes : ∀ c ∈ es, slash ∉ c) (hn : slash ∉ n)
    (hm : slash ∉ m) (h : relPath ds n = relPath es m) : ds = es ∧ n = m := by
  induction ds generalizing es with
  | nil =>
    cases es with
    | nil => exact ⟨rfl, h⟩
    | cons e es =>
      rw [relPath_cons] at h
      have hmem : slash ∈ n := by
        change n = _ at h
        rw [h]
        simp
      exact absurd hmem hn
  | cons d ds ih =>
    cases es with
    | nil =>
      rw [relPath_cons] at h
      have hmem : slash ∈ m := by
        change _ = m at h
        rw [← h]
        simp
      exact absurd hmem hm
    | cons e es =>
      rw [relPath_cons, relPath_cons] at h
      obtain ⟨rfl, hrest⟩ := first_slash_inj (hds d (by simp)) (hes e (by simp)) h
      obtain ⟨rfl, rfl⟩ := ih (fun c hc => hds c (by simp [hc])) (fun c hc => hes c (by simp [hc]))
        hrest
      exact ⟨rfl, rfl⟩

/-- An entry lies below another one only if its directory is in that one. -/
lemma prefix_of_below (hds : ∀ c ∈ ds, slash ∉ c) (hes : ∀ c ∈ es, slash ∉ c) (hn : slash ∉ n)
    (hm : slash ∉ m) (h : Below slash (relPath ds n) (relPath es m)) : es ++ [m] <+: ds := by
  obtain ⟨t, h⟩ := h
  induction ds generalizing es with
  | nil =>
    have hmem : slash ∈ n := by
      change n = _ at h
      rw [h]
      simp
    exact absurd hmem hn
  | cons d ds ih =>
    rw [relPath_cons] at h
    cases es with
    | nil =>
      obtain ⟨rfl, -⟩ := first_slash_inj (hds d (by simp)) hm h
      simp
    | cons e es =>
      rw [relPath_cons, List.append_assoc, List.cons_append] at h
      obtain ⟨rfl, hrest⟩ := first_slash_inj (hds d (by simp)) (hes e (by simp)) h
      rw [List.cons_append, List.cons_prefix_cons]
      exact ⟨rfl, ih (fun c hc => hds c (by simp [hc])) (fun c hc => hes c (by simp [hc])) hrest⟩

end Names

/-! ### What a complete scan sets -/

/-- A directory that is not excluded and is in no excluded one. -/
inductive Inside (disk : Disk) (o : SiteOptions) : List Text → Prop
  | root : Inside disk o []
  | child {ds : List Text} {n : Text} : Inside disk o ds →
      Lists disk noFailures o (dirPath o ds) n .dir → Inside disk o (ds ++ [n])

/-- A file of this type is there, as the options want links to be seen, and neither it nor a
directory above it is excluded. -/
def Present (disk : Disk) (o : SiteOptions) (type : FileType) (path : Text) : Prop :=
  ∃ ds n, Inside disk o ds ∧ Lists disk noFailures o (dirPath o ds) n type ∧ path = relPath ds n

/-- The state describes the file: its mode, its size and time or checksum, or its target. -/
structure Describes (disk : Disk) (o : SiteOptions) (full : Text) (item : Stat) (type : FileType)
    (state : FileState) : Prop where
  seen : view disk o full = some item
  kind : item.kind.type = some type
  existing : state.existing = true
  mode : state.mode = item.mode &&& 0o777
  size : type = .file → state.size = item.size
  time : type = .file → o.stateMethod = .timesize → state.time = item.mtime
  checksum : type = .file → o.stateMethod = .checksum → state.checksum = disk.checksum full
  target : type = .link → state.linktarget = some (disk.readlink full)

/-- The calls are those for all files that are present: one for each, and no path comes before
one that it lies below. -/
structure Complete (disk : Disk) (o : SiteOptions) (calls : List (FileType × FileState)) :
    Prop where
  listed : ∀ type path, (∃ c ∈ calls, c.1 = type ∧ c.2.filename = some path) ↔
    Present disk o type path
  once : calls.Pairwise fun c e => c.2.filename ≠ e.2.filename
  ordered : calls.Pairwise fun c e => ∀ p q, c.2.filename = some p → e.2.filename = some q →
    ¬ Below slash p q
  described : ∀ c ∈ calls, ∃ path item, c.2.filename = some path ∧
    Describes disk o (o.localRoot ++ path) item c.1 c.2

section Tree
variable {disk : Disk} {o : SiteOptions} {ds : List Text} {n : Text}

/-- The names of the directories that a scan goes into. -/
def letters (disk : Disk) (o : SiteOptions) (ds : List Text) : List Text :=
  (disk.entries (dirPath o ds)).filter fun n =>
    match scanEntry disk noFailures o (dirPath o ds) n with
    | some (.dir, _) => true
    | _ => false

lemma mem_letters : n ∈ letters disk o ds ↔ Lists disk noFailures o (dirPath o ds) n .dir := by
  rw [letters, List.mem_filter]
  constructor
  · rintro ⟨hmem, hdir⟩
    split at hdir
    case h_1 state he => exact (scanEntry_iff hmem).mp ⟨state, he⟩
    case h_2 => cases hdir
  · intro hl
    obtain ⟨state, he⟩ := (scanEntry_iff hl.mem).mpr hl
    refine ⟨hl.mem, ?_⟩
    rw [he]

lemma subdirectories_code (ds : List Text) :
    subdirectories disk noFailures o (dirPath o ds) =
      (extend (letters disk o) ds).map (dirPath o) := by
  rw [subdirectories, if_neg (by simp [noFailures]), extend, letters, List.map_map]
  induction disk.entries (dirPath o ds) with
  | nil => rfl
  | cons n names ih =>
    rw [List.filterMap_cons, List.filter_cons, ih]
    cases scanEntry disk noFailures o (dirPath o ds) n with
    | none => rfl
    | some r =>
      obtain ⟨type, state⟩ := r
      cases type with
      | dir =>
        dsimp only
        rw [if_pos rfl, List.map_cons, Function.comp_apply, dirPath_child]
      | file | link => rfl

lemma inside_iff : Reach (extend (letters disk o)) [] ds ↔ Inside disk o ds := by
  constructor
  · intro h
    induction h with
    | root => exact .root
    | child _ he ih =>
      obtain ⟨n, hn, rfl⟩ := List.mem_map.mp he
      exact ih.child (mem_letters.mp hn)
  · intro h
    induction h with
    | root => exact .root
    | child _ hl ih => exact ih.child (List.mem_map.mpr ⟨_, mem_letters.mpr hl, rfl⟩)

lemma scanEntry_describes {d : Text} {type : FileType} {state : FileState}
    (h : scanEntry disk noFailures o d n = some (type, state)) :
    ∃ item, Describes disk o (d ++ n) item type state := by
  unfold scanEntry at h
  split_ifs at h
  obtain ⟨item, hitem, h⟩ := Option.bind_eq_some_iff.mp h
  dsimp only at h
  split_ifs at h
  obtain ⟨r, hr, h⟩ := Option.map_eq_some_iff.mp h
  obtain ⟨rfl, rfl⟩ := Prod.mk.inj h
  refine ⟨item, (examine_some.mp hitem).1, (readState_some.mp ⟨r.2, hr⟩).1, rfl, rfl, ?_, ?_, ?_, ?_⟩
  all_goals
    unfold readState at hr
    cases hk : item.kind <;> cases hm : o.stateMethod <;>
      simp only [hk, hm, noFailures, Bool.false_eq_true, if_false] at hr <;> cases hr <;> simp

end Tree

/-! ### The calls of a scan of a tree -/

section Complete
variable {o : SiteOptions} {ds : List Text} {n : Text}

/-- What is set for the entries of a directory, with their paths. -/
lemma mem_callsIn {disk : Disk} {c : FileType × FileState} :
    c ∈ callsIn disk noFailures o (dirPath o ds) ↔ ∃ n ∈ disk.entries (dirPath o ds),
      scanEntry disk noFailures o (dirPath o ds) n = some c := by
  rw [callsIn, if_neg (by simp [noFailures]), List.mem_filterMap]

lemma scanEntry_path {disk : Disk} {c : FileType × FileState}
    (h : scanEntry disk noFailures o (dirPath o ds) n = some c) :
    c.2.filename = some (relPath ds n) := by
  have hname := (@scanEntry_state disk noFailures o (dirPath o ds) n c.1 c.2 h).2
  rw [hname, dirPath_entry, List.drop_left]

variable (tree : LocalTree o)

lemma plain_of_inside (h : Inside tree.toDisk o ds) : ∀ c ∈ ds, slash ∉ c := by
  induction h with
  | root => simp
  | @child ds n _ hl ih =>
    intro c hc
    rcases List.mem_append.mp hc with hc | hc
    · exact ih c hc
    · obtain rfl := List.mem_singleton.mp hc
      exact (tree.named _ c hl.mem).plain

/-- The directories that a scan visits, in order. -/
def scannedDirs : List (List Text) :=
  preorder (extend (letters tree.toDisk o)) tree.height []

lemma height_letters : HeightAtMost (extend (letters tree.toDisk o)) tree.height [] := by
  have hcode : HeightAtMost (subdirectories tree.toDisk noFailures o) tree.height (dirPath o []) ↔
      HeightAtMost (extend (letters tree.toDisk o)) tree.height [] :=
    heightAtMost_code subdirectories_code
  rw [← hcode, dirPath_root]
  exact tree.finite.mono fun d => subdirectories_subset

lemma mem_scanned : ds ∈ scannedDirs tree ↔ Inside tree.toDisk o ds :=
  (mem_preorder (height_letters tree)).trans inside_iff

lemma scanned_pairwise : (scannedDirs tree).Pairwise fun x y => ¬ y <+: x := by
  apply preorder_pairwise
  intro ds
  exact (tree.distinct _).filter _

/-- The calls for these directories. -/
def allCalls : List (FileType × FileState) :=
  (scannedDirs tree).flatMap fun ds => callsIn tree.toDisk noFailures o (dirPath o ds)

lemma mem_allCalls {c : FileType × FileState} : c ∈ allCalls tree ↔ ∃ ds n,
    Inside tree.toDisk o ds ∧ n ∈ tree.entries (dirPath o ds) ∧
      scanEntry tree.toDisk noFailures o (dirPath o ds) n = some c := by
  rw [allCalls, List.mem_flatMap]
  constructor
  · rintro ⟨ds, hds, hc⟩
    obtain ⟨n, hn, hc⟩ := mem_callsIn.mp hc
    exact ⟨ds, n, (mem_scanned tree).mp hds, hn, hc⟩
  · rintro ⟨ds, n, hds, hn, hc⟩
    exact ⟨ds, (mem_scanned tree).mpr hds, mem_callsIn.mpr ⟨n, hn, hc⟩⟩

/-- With enough fuel the scan makes these calls. -/
lemma scanCalls_tree {fuel : ℕ}
    (hfuel : size (extend (letters tree.toDisk o)) tree.height [] < fuel) :
    scanCalls tree.toDisk noFailures o fuel = some (allCalls tree) := by
  have hroot : [o.localRoot] = [[]].map (dirPath o) := by
    rw [List.map_singleton, dirPath_root]
  rw [scanCalls_eq, hroot, visits_code subdirectories_code, visits_preorder (h := tree.height) fuel
    (by simpa using height_letters tree) (by simpa using hfuel), List.flatMap_singleton]
  simp only [Option.map_some, List.flatMap_map]
  rfl

/-- The calls of two different entries are for different paths, and in the right order. -/
lemma calls_pairwise : (allCalls tree).Pairwise fun c e =>
    ∀ p q, c.2.filename = some p → e.2.filename = some q → p ≠ q ∧ ¬ Below slash p q := by
  rw [allCalls, List.pairwise_flatMap]
  constructor
  · intro ds hds
    rw [callsIn, if_neg (by simp [noFailures]), List.pairwise_filterMap]
    apply List.Pairwise.imp_of_mem _ (tree.distinct (dirPath o ds))
    intro n m hn hm hne c hc e he p q hp hq
    have hnplain := (tree.named _ n hn).plain
    have hmplain := (tree.named _ m hm).plain
    have hdsplain := plain_of_inside tree ((mem_scanned tree).mp hds)
    obtain rfl := Option.some.inj ((scanEntry_path hc).symm.trans hp)
    obtain rfl := Option.some.inj ((scanEntry_path he).symm.trans hq)
    constructor
    · intro hsame
      exact hne (relPath_inj hdsplain hdsplain hnplain hmplain hsame).2
    · intro hbelow
      have hlen := (prefix_of_below hdsplain hdsplain hnplain hmplain hbelow).length_le
      simp at hlen
  · apply List.Pairwise.imp_of_mem _ (scanned_pairwise tree)
    intro x y hx hy hxy c hc e he p q hp hq
    obtain ⟨n, hn, hc⟩ := mem_callsIn.mp hc
    obtain ⟨m, hm, he⟩ := mem_callsIn.mp he
    have hnplain := (tree.named _ n hn).plain
    have hmplain := (tree.named _ m hm).plain
    have hxplain := plain_of_inside tree ((mem_scanned tree).mp hx)
    have hyplain := plain_of_inside tree ((mem_scanned tree).mp hy)
    obtain rfl := Option.some.inj ((scanEntry_path hc).symm.trans hp)
    obtain rfl := Option.some.inj ((scanEntry_path he).symm.trans hq)
    constructor
    · intro hsame
      obtain ⟨rfl, -⟩ := relPath_inj hxplain hyplain hnplain hmplain hsame
      exact hxy (List.prefix_refl _)
    · intro hbelow
      apply hxy
      exact (List.prefix_append y [m]).trans (prefix_of_below hxplain hyplain hnplain hmplain hbelow)

lemma allCalls_complete : Complete tree.toDisk o (allCalls tree) where
  listed type path := by
    constructor
    · rintro ⟨c, hc, rfl, hname⟩
      obtain ⟨ds, n, hds, hn, hc⟩ := (mem_allCalls tree).mp hc
      refine ⟨ds, n, hds, (scanEntry_iff hn).mp ⟨c.2, hc⟩, ?_⟩
      exact Option.some.inj (hname.symm.trans (scanEntry_path hc))
    · rintro ⟨ds, n, hds, hl, rfl⟩
      obtain ⟨state, hs⟩ := (scanEntry_iff hl.mem).mpr hl
      exact ⟨(type, state), (mem_allCalls tree).mpr ⟨ds, n, hds, hl.mem, hs⟩, rfl, scanEntry_path hs⟩
  once := by
    apply List.Pairwise.imp_of_mem _ (calls_pairwise tree)
    intro c e hc he hce hsame
    obtain ⟨ds, n, -, -, hc⟩ := (mem_allCalls tree).mp hc
    obtain ⟨es, m, -, -, he⟩ := (mem_allCalls tree).mp he
    rw [scanEntry_path hc, scanEntry_path he] at hsame
    exact (hce _ _ (scanEntry_path hc) (scanEntry_path he)).1 (Option.some.inj hsame)
  ordered := by
    apply (calls_pairwise tree).imp
    intro c e hce p q hp hq
    exact (hce p q hp hq).2
  described c hc := by
    obtain ⟨ds, n, -, -, hc⟩ := (mem_allCalls tree).mp hc
    obtain ⟨item, hd⟩ := @scanEntry_describes tree.toDisk o n (dirPath o ds) c.1 c.2 hc
    exact ⟨_, item, scanEntry_path hc, by rwa [← dirPath_entry]⟩

end Complete

/-- A scan of a finite tree in which no call fails sets every file that is not excluded once,
directories before what they contain, and nothing else. -/
theorem scan_complete (site : Site) (tree : LocalTree site.opts) : ∃ calls fuel₀,
    Complete tree.toDisk site.opts calls ∧ ∀ fuel ≥ fuel₀,
      scanCalls tree.toDisk noFailures site.opts fuel = some calls ∧
        siteReadLocalState tree.toDisk noFailures fuel site =
          some (makeCalls setLocal calls site) := by
  refine ⟨allCalls tree, size (extend (letters tree.toDisk site.opts)) tree.height [] + 1,
    allCalls_complete tree, fun fuel hfuel => ?_⟩
  have hcalls := scanCalls_tree tree (show _ < fuel by omega)
  refine ⟨hcalls, ?_⟩
  rw [siteReadLocalState_calls, hcalls, Option.map_some]

end Sitecopy.ScanCompleteness
