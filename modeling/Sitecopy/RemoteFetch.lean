import Sitecopy.Paths
import Sitecopy.ReachedFiles
import Sitecopy.StackSearch

/-!
# Fetching the remote site

`site_fetch` lists the remote directories with a stack of fixed size and then replaces all
stored states by what it found.
-/
namespace Sitecopy.RemoteFetch
open SiteModel FileSet FileSetSpec StateProgram SiteOperations ReachedFiles
open Paths StackSearch

def DIRSTACKSIZE : ℕ := 128

/-- The driver methods that a fetch calls. -/
inductive FetchCall
  | init
  | finish
  | error
  | fetchList (dirname : Text) (needModtimes : Bool)
  | fileRead (remote : Text)
  deriving DecidableEq, Repr

/-- The code of a call, the list that `fetch_list` stores through its pointer, and the
digest of the blocks that `file_read` hands to its callback. -/
structure FetchReply where
  code : ℤ
  files : List ProtoFile := []
  digest : Checksum := .zero

/-- A driver over sessions `σ`, which may lack the method `fetch_list`, and the clock. -/
structure FetchEnv (σ : Type) where
  fetches : Bool
  exec : FetchCall → σ → FetchReply × σ
  time : σ → ℤ × σ

variable {σ : Type}

def fetchCall (env : FetchEnv σ) (c : FetchCall) : StateM σ FetchReply := env.exec c

/-- `fetch_checksum_file`, whose result is not looked at. -/
def fetchChecksumFile (env : FetchEnv σ) (o : SiteOptions) (file : ProtoFile) :
    StateM σ ProtoFile := do
  let ret ← fetchCall env (.fileRead (o.remoteRoot ++ file.filename))
  if ret.code ≠ SITE_OK then do
    let _ ← fetchCall env .error
    pure file
  else pure { file with checksum := ret.digest }

/-- The string between a directory and the names in it. -/
def slashAfter (reldir : Text) : Text := if reldir = [] then [] else [slash]

/-- One turn of the loop over the new files, with the stack after it. -/
def fetchEntry (env : FetchEnv σ) (o : SiteOptions) (reldir : Text) (f : ProtoFile)
    (dirstack : List Text) : StateM σ (ProtoFile × List Text) :=
  let relfn := reldir ++ slashAfter reldir ++ f.filename
  let f := { f with filename := relfn }
  if !fileIsexcluded relfn o then
    if f.type = .dir ∧ dirstack.length < DIRSTACKSIZE then pure (f, relfn :: dirstack)
    else if f.type = .file ∧ o.stateMethod = .checksum then do
      let f ← fetchChecksumFile env o f
      pure (f, dirstack)
    else pure (f, dirstack)
  else pure (f, dirstack)

def fetchEntries (env : FetchEnv σ) (o : SiteOptions) (reldir : Text) :
    List ProtoFile → List Text → StateM σ (List ProtoFile × List Text)
  | [], dirstack => pure ([], dirstack)
  | f :: rest, dirstack => do
    let r ← fetchEntry env o reldir f dirstack
    let rs ← fetchEntries env o reldir rest r.2
    pure (r.1 :: rs.1, rs.2)

/-- The remote modtimes are needed if timesize is used or in safe mode. -/
def needModtimes (o : SiteOptions) : Bool := o.safemode || o.stateMethod = .timesize

/-- The loop over the stack, whose top comes first. It ends with a code and the files
found; `none` when the fuel runs out. -/
def fetchLoop (env : FetchEnv σ) (o : SiteOptions) :
    ℕ → List Text → List ProtoFile → StateM σ (Option (ℤ × List ProtoFile))
  | 0, _, _ => pure none
  | _ + 1, [], files => pure (some (SITE_OK, files))
  | fuel + 1, reldir :: dirstack, files => do
    let r ← fetchCall env
      (.fetchList (o.remoteRoot ++ reldir ++ slashAfter reldir) (needModtimes o))
    if r.code ≠ SITE_OK then pure (some (r.code, files))
    else do
      let new ← fetchEntries env o reldir r.files dirstack
      fetchLoop env o fuel new.2 (new.1 ++ files)

/-- The loop that puts the fetched state into the files list. -/
def addFetched (env : FetchEnv σ) : List ProtoFile → Site → StateM σ Site
  | [], site => pure site
  | f :: rest, site =>
    if !fileIsexcluded f.filename site.opts then do
      let now ← env.time
      addFetched env rest (fetchAddFile f now site).1
    else addFetched env rest site

/-- `proto_finish`, which first fetches the last error. -/
def fetchFinish (env : FetchEnv σ) : StateM σ PUnit := do
  let _ ← fetchCall env .error
  let _ ← fetchCall env .finish
  pure ⟨⟩

structure FetchResult where
  site : Site
  ret : ℤ

/-- `site_fetch`. -/
def siteFetch (env : FetchEnv σ) (fuel : ℕ) (site : Site) : StateM σ (Option FetchResult) := do
  let init ← fetchCall env .init
  if init.code ≠ SITE_OK then do
    let _ ← fetchCall env .error
    fetchFinish env
    pure (some ⟨site, init.code⟩)
  else if !env.fetches then do
    fetchFinish env
    pure (some ⟨site, SITE_UNSUPPORTED⟩)
  else do
    let r ← fetchLoop env site.opts fuel [[]] []
    match r with
    | none => pure none
    | some (ret, files) =>
      if ret = SITE_OK then do
        let site ← addFetched env files (siteDestroyStored site)
        fetchFinish env
        pure (some ⟨site, SITE_OK⟩)
      else do
        fetchFinish env
        pure (some ⟨site, SITE_FAILED⟩)

/-! ### Remote trees -/

/-- The directories among some entries of the directory `d`, by their paths. -/
def directories (d : Text) (l : List ProtoFile) : List Text :=
  (l.filter fun f => f.type = .dir).map fun f => join slash d f.filename

/-- A finite tree: what each directory contains, in the order in which it is listed. -/
structure RemoteTree where
  listing : Text → List ProtoFile
  height : ℕ
  finite : HeightAtMost (fun d => directories d (listing d)) height []
  named : ∀ d, ∀ f ∈ listing d, IsName slash f.filename
  distinct : ∀ d, ((listing d).map ProtoFile.filename).Nodup

/-- A successful `fetch_list` returns exactly the children of the directory asked for. -/
def Serves (env : FetchEnv σ) (o : SiteOptions) (tree : RemoteTree) : Prop :=
  ∀ d need s,
    (env.exec (.fetchList (o.remoteRoot ++ d ++ slashAfter d) need) s).1.code = SITE_OK →
      (env.exec (.fetchList (o.remoteRoot ++ d ++ slashAfter d) need) s).1.files =
        tree.listing d

/-- The subdirectories that a fetch goes into. -/
def subdirectories (o : SiteOptions) (tree : RemoteTree) (d : Text) : List Text :=
  (directories d (tree.listing d)).filter fun p => !fileIsexcluded p o

/-- What a fetch shows of an entry of the directory `d`. -/
def keyOf (d : Text) (f : ProtoFile) : ProtoFiletype × Text := (f.type, join slash d f.filename)

/-- What is shown of a fetched file, whose name is its path. -/
def shown (f : ProtoFile) : ProtoFiletype × Text := (f.type, f.filename)

section Loop
variable {env : FetchEnv σ} {o : SiteOptions} {tree : RemoteTree} {s : σ}

lemma relfn_eq (d n : Text) : d ++ slashAfter d ++ n = join slash d n := by
  unfold slashAfter join
  split_ifs with hd
  · simp [hd]
  · simp

lemma fetchChecksumFile_shown (f : ProtoFile) :
    Ends (fetchChecksumFile env o f) s fun g _ => shown g = shown f := by
  unfold fetchChecksumFile
  rw [ends_bind]
  apply Ends.of_forall
  intro r s
  rw [ends_ite]
  split_ifs
  · rw [ends_bind]
    exact Ends.of_forall fun _ _ => rfl
  · rfl

lemma fetchEntry_spec (d : Text) (f : ProtoFile) (dirstack : List Text) :
    Ends (fetchEntry env o d f dirstack) s fun r _ => shown r.1 = keyOf d f ∧
      r.2 = if f.type = .dir ∧ fileIsexcluded (join slash d f.filename) o = false ∧
          dirstack.length < DIRSTACKSIZE
        then join slash d f.filename :: dirstack else dirstack := by
  unfold fetchEntry
  simp only [relfn_eq]
  cases hex : fileIsexcluded (join slash d f.filename) o with
  | true =>
    rw [if_neg (by simp), if_neg (by simp)]
    exact ⟨rfl, rfl⟩
  | false =>
    rw [if_pos (by simp)]
    by_cases hdir : f.type = .dir ∧ dirstack.length < DIRSTACKSIZE
    · rw [if_pos hdir, if_pos ⟨hdir.1, rfl, hdir.2⟩]
      exact ⟨rfl, rfl⟩
    · have hpush : ¬ (f.type = .dir ∧ false = false ∧ dirstack.length < DIRSTACKSIZE) :=
        fun h => hdir ⟨h.1, h.2.2⟩
      rw [if_neg hdir, if_neg hpush, ends_ite]
      split_ifs
      · rw [ends_bind]
        apply (fetchChecksumFile_shown _).mono
        exact fun g s' hg => ⟨hg, rfl⟩
      · exact ⟨rfl, rfl⟩

lemma fetchEntries_spec (d : Text) (l : List ProtoFile) (dirstack : List Text) :
    Ends (fetchEntries env o d l dirstack) s fun r _ => r.1.map shown = l.map (keyOf d) ∧
      r.2 = push DIRSTACKSIZE dirstack
        ((directories d l).filter fun p => !fileIsexcluded p o) := by
  induction l generalizing dirstack s with
  | nil => exact ⟨rfl, push_nil.symm⟩
  | cons f l ih =>
    simp only [fetchEntries, ends_bind, ends_pure]
    apply (fetchEntry_spec d f dirstack).mono
    rintro r s' ⟨hshown, hstack⟩
    apply (ih r.2).mono
    rintro rs s'' ⟨hrest, hpush⟩
    refine ⟨by simp [hshown, hrest], ?_⟩
    rw [hpush, hstack]
    by_cases hdir : f.type = .dir
    · cases hex : fileIsexcluded (join slash d f.filename) o with
      | true => simp [directories, hdir, hex]
      | false => simp [directories, hdir, hex, push_cons]
    · simp [directories, hdir]

/-- What was found in the visited directories, the last one first. -/
def found (tree : RemoteTree) (visited : List (Text × ℕ)) : List (ProtoFiletype × Text) :=
  visited.flatMap fun p => (tree.listing p.1).map (keyOf p.1)

/-- The loop finds the contents of all directories that ever fit on the stack. -/
theorem fetchLoop_finds (hs : Serves env o tree) (fuel : ℕ) {visited : List (Text × ℕ)}
    {dirstack : List Text} {files : List ProtoFile}
    (h : Searching (subdirectories o tree) DIRSTACKSIZE [] visited dirstack)
    (hfiles : files.map shown = found tree visited) :
    Ends (fetchLoop env o fuel dirstack files) s fun r _ => ∀ ret files', r = some (ret, files') →
      ret = SITE_OK → ∃ visited', Searching (subdirectories o tree) DIRSTACKSIZE [] visited' [] ∧
        files'.map shown = found tree visited' := by
  induction fuel generalizing visited dirstack files s with
  | zero =>
    rintro ret files' ⟨⟩
  | succ fuel ih =>
    cases dirstack with
    | nil =>
      rintro ret files' ⟨⟩ _
      exact ⟨visited, h, hfiles⟩
    | cons d dirstack =>
      simp only [fetchLoop, ends_bind, ends_ite, ends_pure]
      change if _ then _ else _
      split_ifs with hcode
      · rintro ret files' ⟨⟩ hok
        exact absurd hok hcode
      · rw [ne_eq, not_not] at hcode
        have hlist := hs d (needModtimes o) s hcode
        apply (fetchEntries_spec d _ dirstack).mono
        rintro new s' ⟨hnew, hstack⟩
        apply ih
        · rw [hstack]
          change Searching _ _ _ _ (push DIRSTACKSIZE dirstack ((directories d
            (env.exec (.fetchList (o.remoteRoot ++ d ++ slashAfter d) (needModtimes o)) s).1.files
              ).filter fun p => !fileIsexcluded p o))
          rw [hlist]
          exact h.step
        · rw [List.map_append, hnew, hfiles]
          change ((env.exec (.fetchList (o.remoteRoot ++ d ++ slashAfter d) (needModtimes o))
            s).1.files).map (keyOf d) ++ found tree visited = _
          rw [hlist]
          rfl

/-- The directories of the whole tree bound the search. -/
lemma subdirectories_height : HeightAtMost (subdirectories o tree) tree.height [] :=
  tree.finite.mono fun _ _ he => List.mem_of_mem_filter he

/-- With enough fuel the loop ends. -/
theorem fetchLoop_ends (hs : Serves env o tree) (fuel : ℕ) {dirstack : List Text}
    {files : List ProtoFile}
    (hheight : ∀ d ∈ dirstack, HeightAtMost (subdirectories o tree) tree.height d)
    (hfuel : (dirstack.map (size (subdirectories o tree) tree.height)).sum < fuel) :
    Ends (fetchLoop env o fuel dirstack files) s fun r _ => ∃ out, r = some out := by
  induction fuel generalizing dirstack files s with
  | zero => omega
  | succ fuel ih =>
    cases dirstack with
    | nil => exact ⟨_, rfl⟩
    | cons d dirstack =>
      simp only [fetchLoop, ends_bind, ends_ite, ends_pure]
      change if _ then _ else _
      split_ifs with hcode
      · exact ⟨_, rfl⟩
      · rw [ne_eq, not_not] at hcode
        have hlist := hs d (needModtimes o) s hcode
        apply (fetchEntries_spec d _ dirstack).mono
        rintro new s' ⟨_, hstack⟩
        have hnew : new.2 = push DIRSTACKSIZE dirstack (subdirectories o tree d) := by
          rw [hstack]
          change push DIRSTACKSIZE dirstack ((directories d
            (env.exec (.fetchList (o.remoteRoot ++ d ++ slashAfter d) (needModtimes o)) s).1.files
              ).filter fun p => !fileIsexcluded p o) = _
          rw [hlist]
          rfl
        have hd := hheight d (by simp)
        apply ih
        · rw [hnew]
          intro e he
          rcases mem_of_mem_push he with he | he
          · exact hd.child he
          · exact hheight e (List.mem_cons_of_mem d he)
        · rw [hnew]
          have hlt := @size_push_lt Text (subdirectories o tree) d tree.height DIRSTACKSIZE dirstack hd
          omega

end Loop

/-! ### The stored states -/

/-- The types and names of the stored states in a files list. -/
def storedKeys (files : List SiteFile) : Set (FileType × Option Text) :=
  {k | ∃ f ∈ files, f.storedState.existing = true ∧ (f.type, f.storedState.filename) = k}

section Keys
variable {type : FileType} {state : FileState} {site : Site}

lemma setStored_keys (wl : WellLinked site) (hs : state.existing = true) :
    storedKeys (fileSetStored type state site).1.files =
      insert (type, state.filename) (storedKeys site.files) := by
  ext k
  rw [Set.mem_insert_iff]
  rw [← setSlot_stored]
  cases hp : choosePlacement type state site Slot.storedSlot.other with
  | create =>
    have hfiles : (setSlot .storedSlot type state site).1.files =
        insertFile type (newEntry type state site .storedSlot .deleted) site.files :=
      fileSet_create hp
    simp only [storedKeys, Set.mem_ofPred_eq, hfiles, mem_insertFile]
    constructor
    · rintro ⟨f, rfl | hf, hex, rfl⟩
      · exact Or.inl rfl
      · exact Or.inr ⟨f, hf, hex, rfl⟩
    · rintro (rfl | ⟨f, hf, hex, rfl⟩)
      · exact ⟨_, Or.inl rfl, hs, rfl⟩
      · exact ⟨f, Or.inr hf, hex, rfl⟩
  | reuse old diff =>
    have hr := choosePlacement_reuse hp
    obtain ⟨pre, post, hf⟩ := List.append_of_mem hr.mem
    have hfiles : (setSlot .storedSlot type state site).1.files =
        reusedFiles state site .storedSlot .deleted pre old diff post := fileSet_reuse wl hf hp
    have hmem : ∀ f, f ∈ (setSlot .storedSlot type state site).1.files ↔
        (old.storedState.existing = true ∧ f = shovedEntry old site .storedSlot .deleted) ∨
          f = reusedEntry state .storedSlot old diff ∨ f ∈ pre ++ post := by
      intro f
      rw [hfiles, (reusedFiles_perm _ _ _ _ _ _ _ _).mem_iff, List.mem_append, List.mem_cons]
      refine or_congr_left ?_
      change f ∈ (if old.storedState.existing = true then _ else _) ↔ _
      split_ifs with hex <;> simp [hex]
    simp only [storedKeys, Set.mem_ofPred_eq, hmem, hf]
    constructor
    · rintro ⟨f, ⟨hex, rfl⟩ | rfl | hf, hfex, rfl⟩
      · exact Or.inr ⟨old, by simp, hex, rfl⟩
      · exact Or.inl (by rw [← hr.type_eq]; rfl)
      · refine Or.inr ⟨f, ?_, hfex, rfl⟩
        rw [List.mem_append] at hf
        simp only [List.mem_append, List.mem_cons]
        tauto
    · rintro (rfl | ⟨f, hf, hfex, rfl⟩)
      · exact ⟨_, Or.inr (Or.inl rfl), hs, by rw [← hr.type_eq]; rfl⟩
      · rw [List.mem_append, List.mem_cons] at hf
        rcases hf with hf | rfl | hf
        · exact ⟨f, by simp [hf], hfex, rfl⟩
        · exact ⟨_, Or.inl ⟨hfex, rfl⟩, hfex, rfl⟩
        · exact ⟨f, by simp [hf], hfex, rfl⟩

/-- Writing back an entry of which only other fields changed. -/
lemma write_keys {old file : SiteFile} (wl : WellLinked site) (hm : old ∈ site.files)
    (ha : file.addr = old.addr) (ht : file.type = old.type)
    (hn : file.storedState.filename = old.storedState.filename)
    (he : file.storedState.existing = old.storedState.existing) :
    storedKeys (write file site).files = storedKeys site.files := by
  have hold : ∀ f ∈ site.files, f.addr = file.addr → f = old := fun f hf hfa =>
    List.inj_on_of_nodup_map wl.nodup hf hm (hfa.trans ha)
  ext k
  simp only [storedKeys, write, Set.mem_ofPred_eq, List.mem_map]
  constructor
  · rintro ⟨_, ⟨f, hf, rfl⟩, hex, rfl⟩
    split_ifs at hex ⊢ with hfa
    · exact ⟨old, hm, by rw [← he, hex], by rw [ht, hn]⟩
    · exact ⟨f, hf, hex, rfl⟩
  · rintro ⟨f, hf, hex, rfl⟩
    refine ⟨_, ⟨f, hf, rfl⟩, ?_⟩
    split_ifs with hfa
    · obtain rfl := hold f hf hfa
      exact ⟨by rw [he, hex], by rw [ht, hn]⟩
    · exact ⟨hex, rfl⟩

end Keys

/-- The fetched states that are not excluded. -/
def fetchedKeys (o : SiteOptions) (files : List ProtoFile) : Set (FileType × Option Text) :=
  {k | ∃ f ∈ files, fileIsexcluded f.filename o = false ∧ (fetchedType f.type, some f.filename) = k}

lemma fetchedKeys_cons {o : SiteOptions} {f : ProtoFile} {files : List ProtoFile}
    (hex : fileIsexcluded f.filename o = false) : fetchedKeys o (f :: files) =
      insert (fetchedType f.type, some f.filename) (fetchedKeys o files) := by
  ext k
  simp only [fetchedKeys, Set.mem_ofPred_eq, Set.mem_insert_iff, List.exists_mem_cons_iff, hex,
    true_and]
  exact or_congr_left eq_comm

lemma mungeModtime_keeps (o : SiteOptions) (f : SiteFile) (mtime now : ℤ) (st : Stats) :
    (mungeModtime o f mtime now st).1.addr = f.addr ∧
      (mungeModtime o f mtime now st).1.type = f.type ∧
      (mungeModtime o f mtime now st).1.localState = f.localState ∧
      (mungeModtime o f mtime now st).1.storedState.filename = f.storedState.filename ∧
      (mungeModtime o f mtime now st).1.storedState.existing = f.storedState.existing := by
  unfold mungeModtime
  split_ifs <;> exact ⟨rfl, rfl, rfl, rfl, rfl⟩

lemma fetchAddFile_keys {site : Site} (wl : WellLinked site) (f : ProtoFile) (now : ℤ) :
    WellLinked (fetchAddFile f now site).1 ∧ (fetchAddFile f now site).1.opts = site.opts ∧
      storedKeys (fetchAddFile f now site).1.files =
        insert (fetchedType f.type, some f.filename) (storedKeys site.files) := by
  have hwl : WellLinked (fileSetStored (fetchedType f.type) (fetchedState site.opts f) site).1 :=
    fileSet_wellLinked wl
  have hkeys : storedKeys
      (fileSetStored (fetchedType f.type) (fetchedState site.opts f) site).1.files =
        insert (fetchedType f.type, some f.filename) (storedKeys site.files) :=
    setStored_keys wl rfl
  have hmem := @SiteStats.setSlot_mem (fetchedType f.type) (fetchedState site.opts f) site
    .storedSlot wl
  rw [setSlot_stored] at hmem
  refine ⟨?_, fileSet_opts, ?_⟩
  · unfold fetchAddFile
    dsimp only
    split_ifs
    all_goals
      apply write_wellLinked
      exact ⟨hwl.nodup, hwl.bounded⟩
  · rw [← hkeys]
    unfold fetchAddFile
    generalize fileSetStored (fetchedType f.type) (fetchedState site.opts f) site = r at hwl hmem
    obtain ⟨ha, ht, _, hn, he⟩ := mungeModtime_keeps site.opts r.2 f.modtime now r.1.stats
    dsimp only
    split_ifs
    all_goals
      exact @write_keys { r.1 with stats := _ } _ _ ⟨hwl.nodup, hwl.bounded⟩ hmem ha ht hn he

/-- The fetched states are added to those that there are. -/
lemma addFetched_keys {σ : Type} (env : FetchEnv σ) (files : List ProtoFile) {site : Site}
    (wl : WellLinked site) (s : σ) :
    Ends (addFetched env files site) s fun site' _ =>
      storedKeys site'.files = storedKeys site.files ∪ fetchedKeys site.opts files := by
  induction files generalizing site s with
  | nil =>
    change storedKeys site.files = _
    simp [fetchedKeys]
  | cons f files ih =>
    unfold addFetched
    cases hex : fileIsexcluded f.filename site.opts with
    | true =>
      rw [if_neg (by simp)]
      apply (ih wl s).mono
      intro site' s' h
      rw [h]
      congr 1
      simp [fetchedKeys, hex]
    | false =>
      rw [if_pos (by simp), ends_bind]
      apply Ends.of_forall
      intro now s'
      obtain ⟨hwl, ho, hkeys⟩ := fetchAddFile_keys wl f now
      apply (ih hwl s').mono
      intro site' s'' h
      rw [h, hkeys, ho, fetchedKeys_cons hex, Set.union_insert, Set.insert_union]

/-- Nothing is stored after `site_destroy_stored`. -/
lemma destroyStored_keys {site : Site} (wl : WellLinked site) :
    WellLinked (siteDestroyStored site) ∧ storedKeys (siteDestroyStored site).files = ∅ := by
  have hloop : Ends (forEach (destroyStoredFile site.opts) site.files) site.stats fun r _ =>
      (r.1.map SiteFile.addr).Sublist (site.files.map SiteFile.addr) ∧
        ∀ f ∈ r.1, f.storedState.existing = false := by
    apply (forEach_ends (I := fun done rest _ _ =>
      ((done ++ rest).map SiteFile.addr).Sublist (site.files.map SiteFile.addr) ∧
        ∀ f ∈ done, f.storedState.existing = false) _ ⟨List.Sublist.refl _, by simp⟩).mono
    · rintro r st ⟨hsub, hnone⟩
      exact ⟨by simpa using hsub, hnone⟩
    · rintro done f rest failed st ⟨hsub, hnone⟩
      have hout : Ends (destroyStoredFile site.opts f) st fun r _ =>
          ∀ g, r.1 = some g → g.addr = f.addr ∧ g.storedState.existing = false := by
        unfold destroyStoredFile
        rw [ends_ite]
        split_ifs
        · simp [dropFile]
        · rintro g ⟨⟩
          exact ⟨rfl, rfl⟩
      apply hout.mono
      intro r st' hr
      refine ⟨List.Sublist.trans ?_ hsub, fun g hg => ?_⟩
      · rw [List.append_assoc, List.map_append, List.map_append, List.map_append]
        refine (List.Sublist.refl _).append ?_
        cases hout : r.1 with
        | none => simp
        | some g => simp [(hr g hout).1]
      · rw [List.mem_append, Option.mem_toList] at hg
        rcases hg with hg | hg
        · exact hnone g hg
        · exact (hr g hg).2
  obtain ⟨hsub, hnone⟩ := hloop
  refine ⟨⟨hsub.nodup wl.nodup, fun f hf => ?_⟩, ?_⟩
  · have hmem := hsub.subset (List.mem_map_of_mem hf)
    obtain ⟨g, hg, hga⟩ := List.mem_map.mp hmem
    rw [← hga]
    exact wl.bounded g hg
  · apply Set.eq_empty_of_forall_notMem
    rintro k ⟨f, hf, hex, _⟩
    rw [hnone f hf] at hex
    cases hex

/-! ### The whole fetch -/

/-- The directories of the tree that are not excluded and below no excluded one. -/
inductive Visible (o : SiteOptions) (tree : RemoteTree) : Text → Prop
  | root : Visible o tree []
  | child {d e : Text} : Visible o tree d → e ∈ subdirectories o tree d → Visible o tree e

/-- The entries of the tree that are not excluded and below no excluded directory. -/
def treeKeys (o : SiteOptions) (tree : RemoteTree) : Set (FileType × Option Text) :=
  {k | ∃ d, Visible o tree d ∧ ∃ f ∈ tree.listing d,
    fileIsexcluded (join slash d f.filename) o = false ∧
      (fetchedType f.type, some (join slash d f.filename)) = k}

section Tree
variable {o : SiteOptions} {tree : RemoteTree} {d : Text} {n : ℕ}

/-- The directory `d` has an entry that is not excluded. -/
def Occupied (o : SiteOptions) (tree : RemoteTree) (d : Text) : Prop :=
  ∃ f ∈ tree.listing d, fileIsexcluded (join slash d f.filename) o = false

lemma mem_subdirectories {e : Text} : e ∈ subdirectories o tree d ↔
    ∃ f ∈ tree.listing d, f.type = .dir ∧ fileIsexcluded (join slash d f.filename) o = false ∧
      join slash d f.filename = e := by
  simp only [subdirectories, directories, List.mem_filter, List.mem_map, decide_eq_true_eq,
    Bool.not_eq_true']
  constructor
  · rintro ⟨⟨f, ⟨hf, ht⟩, rfl⟩, hex⟩
    exact ⟨f, hf, ht, hex, rfl⟩
  · rintro ⟨f, hf, ht, hex, rfl⟩
    exact ⟨⟨f, ⟨hf, ht⟩, rfl⟩, hex⟩

/-- The place of a directory on the stack. -/
abbrev Placed (o : SiteOptions) (tree : RemoteTree) : Text → ℕ → Prop :=
  Pending (subdirectories o tree) DIRSTACKSIZE []

lemma Placed.unique {m : ℕ} (hn : Placed o tree d n) (hm : Placed o tree d m) : n = m := by
  refine Pending.unique (fun d hd => ?_) (fun {d d' e} hd hd' => ?_) (fun d => ?_) hn hm
  · obtain ⟨f, hf, _, _, he⟩ := mem_subdirectories.mp hd
    exact join_ne_nil (tree.named d f hf) he
  · obtain ⟨f, hf, _, _, rfl⟩ := mem_subdirectories.mp hd
    obtain ⟨g, hg, _, _, he⟩ := mem_subdirectories.mp hd'
    exact ((join_inj (tree.named d' g hg) (tree.named d f hf) he).1).symm
  · apply List.Nodup.filter
    have hnames := (tree.distinct d).sublist ((List.filter_sublist (p := fun f : ProtoFile =>
      decide (f.type = .dir))).map ProtoFile.filename)
    refine List.Nodup.map_on (fun f hf g hg he => ?_) (List.Nodup.of_map _ hnames)
    have hnf := tree.named d f (List.mem_of_mem_filter hf)
    have hng := tree.named d g (List.mem_of_mem_filter hg)
    exact List.inj_on_of_nodup_map hnames hf hg (join_inj hnf hng he).2

lemma Placed.visible (h : Placed o tree d n) : Visible o tree d := by
  induction h with
  | root => exact .root
  | child _ _ he ih => exact .child ih (List.mem_of_getElem? he)

/-- If no full place is lost, every visible directory has a place. -/
lemma Visible.placed (h : Visible o tree d)
    (hfit : ∀ d n, Placed o tree d n → DIRSTACKSIZE ≤ n → ¬ Occupied o tree d) :
    ∃ n, Placed o tree d n := by
  induction h with
  | root => exact ⟨0, .root⟩
  | child _ he ih =>
    obtain ⟨n, hn⟩ := ih
    obtain ⟨f, hf, _, hex, _⟩ := mem_subdirectories.mp he
    have hlt : n < DIRSTACKSIZE := by
      by_contra hge
      exact hfit _ n hn (not_lt.mp hge) ⟨f, hf, hex⟩
    obtain ⟨i, hi⟩ := List.getElem?_of_mem he
    exact ⟨n + i, hn.child hlt hi⟩

/-- What a fetch finds is the whole tree unless a directory that is not empty is dropped. -/
theorem found_iff {visited : List (Text × ℕ)} {files : List ProtoFile}
    (h : Searching (subdirectories o tree) DIRSTACKSIZE [] visited [])
    (hfiles : files.map shown = found tree visited) :
    fetchedKeys o files = treeKeys o tree ↔
      ∀ d n, Placed o tree d n → DIRSTACKSIZE ≤ n → ¬ Occupied o tree d := by
  have hmem : ∀ k, k ∈ fetchedKeys o files ↔ ∃ d n, Placed o tree d n ∧ n < DIRSTACKSIZE ∧
      ∃ f ∈ tree.listing d, fileIsexcluded (join slash d f.filename) o = false ∧
        (fetchedType f.type, some (join slash d f.filename)) = k := by
    intro k
    have hshown : k ∈ fetchedKeys o files ↔ ∃ p ∈ files.map shown,
        fileIsexcluded p.2 o = false ∧ (fetchedType p.1, some p.2) = k := by
      simp only [fetchedKeys, Set.mem_ofPred_eq, List.mem_map, exists_exists_and_eq_and, shown]
    rw [hshown, hfiles]
    constructor
    · rintro ⟨p, hp, hex, hk⟩
      simp only [found, List.mem_flatMap, List.mem_map] at hp
      obtain ⟨⟨d, n⟩, hv, f, hf, rfl⟩ := hp
      obtain ⟨hplaced, hn⟩ := h.done.mp hv
      exact ⟨d, n, hplaced, hn, f, hf, hex, hk⟩
    · rintro ⟨d, n, hplaced, hn, f, hf, hex, hk⟩
      refine ⟨keyOf d f, ?_, hex, hk⟩
      simp only [found, List.mem_flatMap, List.mem_map]
      exact ⟨(d, n), h.done.mpr ⟨hplaced, hn⟩, f, hf, rfl⟩
  constructor
  · rintro heq d n hplaced hn ⟨f, hf, hex⟩
    have htree : (fetchedType f.type, some (join slash d f.filename)) ∈ treeKeys o tree :=
      ⟨d, hplaced.visible, f, hf, hex, rfl⟩
    rw [← heq, hmem] at htree
    obtain ⟨d', n', hplaced', hn', g, hg, _, hk⟩ := htree
    have hpath := Option.some.inj (Prod.mk.inj hk).2
    obtain ⟨rfl, _⟩ := join_inj (tree.named d' g hg) (tree.named d f hf) hpath
    rw [hplaced.unique hplaced'] at hn
    omega
  · intro hfit
    ext k
    rw [hmem]
    constructor
    · rintro ⟨d, n, hplaced, _, f, hf, hex, hk⟩
      exact ⟨d, hplaced.visible, f, hf, hex, hk⟩
    · rintro ⟨d, hvis, f, hf, hex, hk⟩
      obtain ⟨n, hplaced⟩ := hvis.placed hfit
      have hlt : n < DIRSTACKSIZE := by
        by_contra hge
        exact hfit d n hplaced (not_lt.mp hge) ⟨f, hf, hex⟩
      exact ⟨d, n, hplaced, hlt, f, hf, hex, hk⟩

end Tree

section Fetch
variable {env : FetchEnv σ} {site : Site} {tree : RemoteTree}

/-- The fetch ends, and if it succeeds it has added the files found in the directories
that fit on the stack. -/
lemma siteFetch_runs (hs : Serves env site.opts tree) {fuel : ℕ}
    (hfuel : size (subdirectories site.opts tree) tree.height [] < fuel) (sess : σ) :
    Ends (siteFetch env fuel site) sess fun r _ => ∃ out, r = some out ∧
      (out.ret = SITE_OK → ∃ visited files s',
        Searching (subdirectories site.opts tree) DIRSTACKSIZE [] visited [] ∧
        files.map shown = found tree visited ∧
        out.site = ((addFetched env files (siteDestroyStored site)).run s').1) := by
  unfold siteFetch
  rw [ends_bind]
  apply Ends.of_forall
  intro init s
  rw [ends_ite]
  split_ifs with hinit hfetch
  · exact ⟨_, rfl, fun hok => absurd hok hinit⟩
  · exact ⟨_, rfl, fun hok => absurd hok (show SITE_UNSUPPORTED ≠ SITE_OK by decide)⟩
  · rw [ends_bind]
    have hends : Ends (fetchLoop env site.opts fuel [[]] []) s fun r _ => ∃ out, r = some out :=
      fetchLoop_ends hs fuel (by simpa using subdirectories_height) (by simpa using hfuel)
    have hfinds : Ends (fetchLoop env site.opts fuel [[]] []) s fun r _ => ∀ ret files,
        r = some (ret, files) → ret = SITE_OK → ∃ visited,
          Searching (subdirectories site.opts tree) DIRSTACKSIZE [] visited [] ∧
            files.map shown = found tree visited :=
      fetchLoop_finds hs fuel (Searching.init (by decide)) rfl
    apply (hends.and hfinds).mono
    rintro _ s' ⟨⟨⟨ret, files⟩, rfl⟩, hfound⟩
    dsimp only
    rw [ends_ite]
    split_ifs with hret
    · obtain ⟨visited, hdone, hshown⟩ := hfound ret files rfl hret
      exact ⟨_, rfl, fun _ => ⟨visited, files, s', hdone, hshown, rfl⟩⟩
    · exact ⟨_, rfl, fun hok => absurd hok (show SITE_FAILED ≠ SITE_OK by decide)⟩

/-- A fetch that succeeds stores the whole tree exactly when every directory that does not
fit on the stack has no entry to be found. -/
lemma siteFetch_finds (wl : WellLinked site) (hs : Serves env site.opts tree) {fuel : ℕ}
    (hfuel : size (subdirectories site.opts tree) tree.height [] < fuel) (sess : σ) :
    Ends (siteFetch env fuel site) sess fun r _ => ∃ out, r = some out ∧
      (out.ret = SITE_OK → (storedKeys out.site.files = treeKeys site.opts tree ↔
        ∀ d n, Placed site.opts tree d n → DIRSTACKSIZE ≤ n →
          ¬ Occupied site.opts tree d)) := by
  apply (siteFetch_runs hs hfuel sess).mono
  rintro _ _ ⟨out, rfl, hruns⟩
  refine ⟨out, rfl, fun hok => ?_⟩
  obtain ⟨visited, files, s', hdone, hshown, hsite⟩ := hruns hok
  obtain ⟨hwl, hnone⟩ := destroyStored_keys wl
  have hkeys := addFetched_keys env files hwl s'
  change storedKeys ((addFetched env files (siteDestroyStored site)).run s').1.files = _ at hkeys
  rw [hsite, hkeys, hnone, Set.empty_union]
  exact found_iff hdone hshown

lemma fetchCall_ok (hok : ∀ c s, (env.exec c s).1.code = SITE_OK) (c : FetchCall) (s : σ) :
    Ends (fetchCall env c) s fun r _ => r.code = SITE_OK := hok c s

lemma fetchLoop_ok (hok : ∀ c s, (env.exec c s).1.code = SITE_OK) (o : SiteOptions) (fuel : ℕ)
    (dirstack : List Text) (files : List ProtoFile) (s : σ) :
    Ends (fetchLoop env o fuel dirstack files) s fun r _ => ∀ out, r = some out → out.1 = SITE_OK := by
  induction fuel generalizing dirstack files s with
  | zero =>
    rintro out ⟨⟩
  | succ fuel ih =>
    cases dirstack with
    | nil =>
      rintro out ⟨⟩
      rfl
    | cons d dirstack =>
      simp only [fetchLoop, ends_bind, ends_ite, ends_pure]
      apply (fetchCall_ok hok _ s).mono
      intro r s' hr
      rw [if_neg (not_not.mpr hr)]
      apply Ends.of_forall
      intro new s''
      apply ih

/-- A fetch succeeds with a driver that never fails. -/
lemma siteFetch_ok (hok : ∀ c s, (env.exec c s).1.code = SITE_OK) (hfetches : env.fetches = true)
    (fuel : ℕ) (sess : σ) :
    Ends (siteFetch env fuel site) sess fun r _ => ∀ out, r = some out → out.ret = SITE_OK := by
  unfold siteFetch
  rw [ends_bind]
  apply (fetchCall_ok hok _ sess).mono
  intro init s hinit
  rw [if_neg (not_not.mpr hinit), hfetches, if_neg (by simp), ends_bind]
  apply (fetchLoop_ok hok site.opts fuel _ _ _).mono
  intro r s' hr
  cases r with
  | none => rintro out ⟨⟩
  | some p =>
    obtain ⟨ret, files⟩ := p
    obtain rfl : ret = SITE_OK := hr _ rfl
    dsimp only
    rw [if_pos rfl, ends_bind]
    apply Ends.of_forall
    intro site' s''
    rintro out ⟨⟩
    rfl

end Fetch

theorem fetch_finds_iff (env : FetchEnv σ) (site : Site) (tree : RemoteTree)
    (wl : WellLinked site) (hs : Serves env site.opts tree) (sess : σ) :
    ∃ fuel₀, ∀ fuel ≥ fuel₀, ∃ r sess', (siteFetch env fuel site).run sess = (some r, sess') ∧
      (r.ret = SITE_OK → (storedKeys r.site.files = treeKeys site.opts tree ↔
        ∀ d n, Placed site.opts tree d n → DIRSTACKSIZE ≤ n →
          ¬ Occupied site.opts tree d)) := by
  refine ⟨size (subdirectories site.opts tree) tree.height [] + 1, fun fuel hfuel => ?_⟩
  have hsize : size (subdirectories site.opts tree) tree.height [] < fuel := by omega
  obtain ⟨out, hout, hiff⟩ := siteFetch_finds wl hs hsize sess
  exact ⟨out, _, Prod.ext hout rfl, hiff⟩

/-- The driver that serves a tree and never fails. -/
def treeDriver (o : SiteOptions) (tree : RemoteTree) : FetchEnv PUnit where
  fetches := true
  exec c s := match c with
    | .fetchList dirname _ =>
      ({ code := SITE_OK, files := tree.listing (dirname.drop o.remoteRoot.length).dropLast }, s)
    | _ => ({ code := SITE_OK }, s)
  time s := (0, s)

lemma treeDriver_serves (o : SiteOptions) (tree : RemoteTree) :
    Serves (treeDriver o tree) o tree := by
  intro d need s _
  change tree.listing _ = _
  rw [List.append_assoc, List.drop_left]
  unfold slashAfter
  split_ifs with hd
  · rw [hd]
    rfl
  · rw [List.dropLast_concat]

lemma treeDriver_ok (o : SiteOptions) (tree : RemoteTree) (c : FetchCall) (s : PUnit) :
    ((treeDriver o tree).exec c s).1.code = SITE_OK := by
  cases c <;> rfl

/-- `n` directories side by side with one file each. -/
def wideTree (n : ℕ) : RemoteTree where
  listing d :=
    if d = [] then (List.range n).map fun i => { filename := List.replicate (i + 1) 97, type := .dir }
    else [{ filename := ascii "f", type := .file }]
  height := 1
  finite := by
    intro e he
    simp only [directories, List.mem_map, List.mem_filter] at he
    obtain ⟨f, ⟨hf, _⟩, rfl⟩ := he
    rw [if_pos trivial, List.mem_map] at hf
    obtain ⟨i, _, rfl⟩ := hf
    rfl
  named d f hf := by
    split_ifs at hf
    · obtain ⟨i, _, rfl⟩ := List.mem_map.mp hf
      exact ⟨by simp, by simp [List.mem_replicate, slash]⟩
    · rw [List.mem_singleton.mp hf]
      exact ⟨by decide, by decide⟩
  distinct d := by
    split_ifs
    · rw [List.map_map]
      apply List.Nodup.map _ List.nodup_range
      intro i j hij
      simpa using congrArg List.length hij
    · simp

theorem fetch_finds_iff_wide :
    ∃ fuel₀, ∀ fuel ≥ fuel₀, ∃ r sess',
      (siteFetch (treeDriver {} (wideTree 2)) fuel { opts := {} }).run PUnit.unit =
        (some r, sess') ∧
      (r.ret = SITE_OK → (storedKeys r.site.files = treeKeys {} (wideTree 2) ↔
        ∀ d n, Placed {} (wideTree 2) d n → DIRSTACKSIZE ≤ n → ¬ Occupied {} (wideTree 2) d)) :=
  fetch_finds_iff (treeDriver {} (wideTree 2)) { opts := {} } (wideTree 2)
    ⟨List.nodup_nil, by simp⟩ (treeDriver_serves _ _) PUnit.unit

/-- The last of 129 directories does not fit on the stack, and its file is lost. -/
theorem dropped_directory_not_fetched :
    ∃ fuel r sess', (siteFetch (treeDriver {} (wideTree 129)) fuel { opts := {} }).run PUnit.unit =
        (some r, sess') ∧
      r.ret = SITE_OK ∧ storedKeys r.site.files ≠ treeKeys {} (wideTree 129) := by
  have hsubs : subdirectories {} (wideTree 129) [] =
      (List.range 129).map fun i => List.replicate (i + 1) 97 := by
    simp [subdirectories, directories, wideTree, fileIsexcluded, fnlistMatch, join_root,
      List.filter_map, Function.comp_def]
  have hplaced : Placed {} (wideTree 129) (List.replicate 129 97) 128 :=
    Pending.child (n := 0) (i := 128) .root (by decide) (by rw [hsubs]; simp)
  have hfile : Occupied {} (wideTree 129) (List.replicate 129 97) :=
    ⟨{ filename := ascii "f", type := .file }, by simp [wideTree], rfl⟩
  have hwl : WellLinked { opts := {} } := ⟨List.nodup_nil, by simp⟩
  obtain ⟨fuel, hfuel⟩ := exists_gt
    (size (subdirectories {} (wideTree 129)) (wideTree 129).height [])
  have hfinds := siteFetch_finds hwl (treeDriver_serves {} (wideTree 129)) hfuel PUnit.unit
  have hok : Ends (siteFetch (treeDriver {} (wideTree 129)) fuel { opts := {} }) PUnit.unit
      fun r _ => ∀ out, r = some out → out.ret = SITE_OK :=
    siteFetch_ok (treeDriver_ok {} (wideTree 129)) rfl fuel PUnit.unit
  obtain ⟨⟨out, hout, hiff⟩, hret⟩ := hfinds.and hok
  refine ⟨fuel, out, _, Prod.ext hout rfl, hret out hout, fun heq => ?_⟩
  apply (hiff (hret out hout)).mp heq _ _ hplaced _ hfile
  simp [DIRSTACKSIZE]

end Sitecopy.RemoteFetch
