import Sitecopy.DirectoryOrder
import Sitecopy.FileTrees
import Sitecopy.UpdateConvergence

/-!
# Updates of a remote tree

The remote site as a tree of files on which a driver acts as the calls say. Each turn of a
pass stands for some changes to the tree; as long as these succeed, so do the turns.
-/
namespace Sitecopy.RemoteTree
open SiteModel FileSet StateProgram SiteStats SiteUpdate UpdateAccounting UpdateConvergence
open ReachedFiles HiddenPaths FileTrees Paths

variable {β : Type}

/-! ### The driver -/

/-- The part of a full path behind the root. -/
def relative (root path : Text) : Option Text :=
  if root.isPrefixOf path then some (path.drop root.length) else none

@[simp] lemma relative_append (root n : Text) : relative root (root ++ n) = some n := by
  simp [relative, List.isPrefixOf_iff_prefix]

/-- The change that a driver method makes to the remote tree. Uploads take the contents from
the local tree. -/
def requested (o : SiteOptions) (source : Tree UInt8 β) : DriverCall → Option (Change UInt8 β)
  | .fileMove src dst => do
    let src ← relative o.remoteRoot src
    let dst ← relative o.remoteRoot dst
    pure (.rename src dst)
  | .fileUpload loc remote _ | .fileUploadCond loc remote _ _ => do
    let loc ← relative o.localRoot loc
    let remote ← relative o.remoteRoot remote
    match source loc with
    | some (.file c) => pure (.write remote c)
    | _ => none
  | .fileDelete path => (relative o.remoteRoot path).map .unlink
  | .fileChmod path _ => (relative o.remoteRoot path).map .chmod
  | .dirCreate path => (relative o.remoteRoot path).map .mkdir
  | .dirRemove path => (relative o.remoteRoot path).map .rmdir
  | .init | .finish | .error | .fileGetModtime _ => none
  | .linkCreate _ _ | .linkChange _ _ | .linkDelete _ => none

open Classical in
/-- A driver over the remote tree, for a user who agrees to everything. A call that fails
changes nothing, and there are no links. -/
noncomputable def treeDriver (o : SiteOptions) (source : Tree UInt8 β) (modtime : Text → ℤ) :
    Env (Tree UInt8 β) where
  exec c t :=
    match c with
    | .init | .finish | .error => ({ code := SITE_OK }, t)
    | .fileGetModtime path => ({ code := SITE_OK, modtime := modtime path }, t)
    | c =>
      match requested o source c with
      | some change =>
        if change.Enabled slash t then ({ code := SITE_OK }, change.effect t)
        else ({ code := SITE_FAILED }, t)
      | none => ({ code := SITE_FAILED }, t)
  canUpdate _ t := (true, t)

section Driver
variable {o : SiteOptions} {source t : Tree UInt8 β} {modtime : Text → ℤ} {c : DriverCall}
  {change : Change UInt8 β}

lemma exec_enabled (hc : requested o source c = some change) (h : change.Enabled slash t) :
    (treeDriver o source modtime).exec c t = ({ code := SITE_OK }, change.effect t) := by
  cases c with
  | init | finish | error | fileGetModtime => cases hc
  | linkCreate | linkChange | linkDelete => cases hc
  | _ => simp only [treeDriver, hc, if_pos h]

lemma exec_failing (hc : ∀ change, requested o source c = some change → ¬ change.Enabled slash t)
    (hobject : handlesObject c = true) :
    (treeDriver o source modtime).exec c t = ({ code := SITE_FAILED }, t) := by
  cases h : requested o source c with
  | none =>
    cases c with
    | init | finish | error | fileGetModtime | fileChmod => cases hobject
    | _ => simp only [treeDriver, h]
  | some change =>
    have hno := hc change h
    cases c with
    | init | finish | error | fileGetModtime | fileChmod => cases hobject
    | _ => simp only [treeDriver, h, if_neg hno]

/-- A call either fails, or is for nothing in the tree, or makes its change. -/
lemma exec_cases (o : SiteOptions) (source t : Tree UInt8 β) (modtime : Text → ℤ)
    (c : DriverCall) : ((treeDriver o source modtime).exec c t).2 = t ∨
      ∃ change, requested o source c = some change ∧ change.Enabled slash t ∧
        ((treeDriver o source modtime).exec c t).2 = change.effect t := by
  classical
  cases hc : requested o source c with
  | none =>
    left
    cases c with
    | init | finish | error | fileGetModtime => rfl
    | _ => simp only [treeDriver, hc]
  | some change =>
    by_cases henabled : change.Enabled slash t
    · exact Or.inr ⟨change, rfl, henabled, by rw [exec_enabled hc henabled]⟩
    · left
      cases c with
      | init | finish | error | fileGetModtime => rfl
      | _ => simp only [treeDriver, hc, if_neg henabled]

/-- Only one method removes directories. -/
lemma requested_rmdir {n : Text} (hc : requested o source c = some (.rmdir n)) :
    ∃ path, c = .dirRemove path := by
  cases c with
  | dirRemove path => exact ⟨path, rfl⟩
  | fileMove src dst =>
    obtain ⟨_, -, hc⟩ := Option.bind_eq_some_iff.mp hc
    obtain ⟨_, -, hc⟩ := Option.bind_eq_some_iff.mp hc
    cases hc
  | fileUpload | fileUploadCond =>
    obtain ⟨_, -, hc⟩ := Option.bind_eq_some_iff.mp hc
    obtain ⟨_, -, hc⟩ := Option.bind_eq_some_iff.mp hc
    split at hc
    · cases hc
    · cases hc
  | fileDelete | fileChmod | dirCreate => simp [requested] at hc
  | _ => cases hc

end Driver

/-! ### What a turn does to the tree -/

/-- The local name of an entry. -/
def localName (f : SiteFile) : Text := f.localState.filename.getD []

/-- The stored name of an entry. -/
def storedName (f : SiteFile) : Text := f.storedState.filename.getD []

def permChanges (o : SiteOptions) (f : SiteFile) : List (Change UInt8 β) :=
  if filePermsChanged o f then [.chmod (localName f)] else []

/-- An upload under the local name, perhaps by way of a temporary one. -/
def uploadChanges (o : SiteOptions) (source : Tree UInt8 β) (f : SiteFile) :
    List (Change UInt8 β) :=
  match source (localName f) with
  | some (.file c) =>
    if ¬ (o.safemode ∧ f.serverState.existing) ∧ o.tempupload then
      [.write (tempUploadFilename (localName f)) c,
        .rename (tempUploadFilename (localName f)) (localName f)]
    else [.write (localName f) c]
  | _ => []

/-- The changes for a new file, or for one whose contents changed. -/
def newFileChanges (o : SiteOptions) (source : Tree UInt8 β) (f : SiteFile) :
    List (Change UInt8 β) :=
  (if f.diff = .changed ∧ o.nooverwrite then [.unlink (localName f)] else []) ++
    uploadChanges o source f ++ permChanges o f

def dirChanges (o : SiteOptions) (f : SiteFile) : List (Change UInt8 β) :=
  (if f.diff = .new then [.mkdir (localName f)] else []) ++
    if o.dirperms then [.chmod (localName f)] else []

/-- The changes of one turn, of an entry on which its handler acts. -/
def turnChanges (o : SiteOptions) (source : Tree UInt8 β) (p : Handler) (f : SiteFile) :
    List (Change UInt8 β) :=
  if activeHandler f = some p then
    match p with
    | .deleteFiles => [.unlink (storedName f)]
    | .createDirectories => dirChanges o f
    | .moveFiles | .links => []
    | .files =>
      if f.diff = .changed ∧ f.ignore then []
      else if f.diff = .changed ∧ fileContentsChanged o f = false then permChanges o f
      else newFileChanges o source f
    | .deleteDirectories => [.rmdir (storedName f)]
  else []

/-- Between directories a name begins where the root ends. -/
def RootOk (root : Text) : Prop := root = [] ∨ ∃ r, root = r ++ [slash]

/-- What the options have to be like: names are sent as they are, nothing is moved, and
conditional uploads are not combined with temporary ones. -/
structure Plain (o : SiteOptions) : Prop where
  checkmoved : o.checkmoved = false
  lowercase : o.lowercase = false
  nodelete : o.nodelete = false
  root : o.tempupload = true → RootOk o.remoteRoot

/-- What a handler makes of the server state. -/
def Served (modtime : Text → ℤ) (f g : SiteFile) : Prop :=
  g.serverState = f.serverState ∨ ∃ path, g.serverState.time = modtime path

/-- An entry that is up to date with the local state of `f`. -/
structure Fresh (o : SiteOptions) (modtime : Text → ℤ) (f g : SiteFile) : Prop where
  addr : g.addr = f.addr
  type : g.type = f.type
  localState : g.localState = f.localState
  localExisting : g.localState.existing = true
  compared : Compared o g
  diff : g.diff = .unchanged
  name : g.storedState.filename = g.localState.filename
  served : Served modtime f g
  size : g.storedState.size = f.localState.size ∨ g.storedState.size = f.storedState.size
  time : g.storedState.time = f.localState.time ∨ g.storedState.time = f.storedState.time

/-- What handler `p` makes of an entry if it succeeds. -/
def TurnedTo (o : SiteOptions) (modtime : Text → ℤ) (p : Handler) (f : SiteFile)
    (out : Option SiteFile) : Prop :=
  (activeHandler f ≠ some p ∨ Held f → out = some f) ∧
  (activeHandler f = some p → ¬ Held f → out = none ∧ f.diff = .deleted ∨
    ∃ g, out = some g ∧ Fresh o modtime f g)

/-- The entries that an update of a tree deals with. -/
structure Entry (o : SiteOptions) (f : SiteFile) : Prop where
  ok : EntryOk o f
  paired : Paired o f
  nolink : f.type ≠ .link

section Names
variable {q root n : Text}

lemma afterSlash_suffix (n : Text) :
    ∃ d, n = d ++ afterSlash n ∧ RootOk d ∧ slash ∉ afterSlash n := by
  induction n with
  | nil => exact ⟨[], rfl, Or.inl rfl, by simp [afterSlash]⟩
  | cons c cs ih =>
    unfold afterSlash
    split_ifs with hmem hc
    · obtain ⟨d, hd, hroot, hno⟩ := ih
      refine ⟨c :: d, by rw [List.cons_append, ← hd], Or.inr ?_, hno⟩
      rcases hroot with rfl | ⟨r, rfl⟩
      · rw [List.nil_append] at hd
        rw [hd] at hmem
        exact absurd hmem hno
      · exact ⟨c :: r, rfl⟩
    · exact ⟨[c], by simp, Or.inr ⟨[], by simp [hc]⟩, hmem⟩
    · exact ⟨[], rfl, Or.inl rfl, by simp [hmem, Ne.symm hc]⟩

lemma afterSlash_unique {d base : Text} (hd : RootOk d) (hbase : slash ∉ base) :
    afterSlash (d ++ base) = base := by
  rcases hd with rfl | ⟨r, rfl⟩
  · obtain ⟨d, hd, hroot, -⟩ := afterSlash_suffix base
    rcases hroot with rfl | ⟨r, rfl⟩
    · exact hd.symm
    · rw [hd] at hbase
      simp at hbase
  · induction r with
    | nil =>
      change afterSlash (slash :: base) = base
      rw [afterSlash, if_neg hbase, if_pos rfl]
    | cons c r ih =>
      change afterSlash (c :: (r ++ [slash] ++ base)) = base
      rw [afterSlash, if_pos (by simp), ih]

/-- The temporary name keeps what is before the last component. -/
lemma tempUploadFilename_eq {d base : Text} (hd : RootOk d) (hbase : slash ∉ base) :
    tempUploadFilename (d ++ base) = d ++ ascii ".in." ++ base := by
  unfold tempUploadFilename
  rw [afterSlash_unique hd hbase]
  simp

lemma tempUploadFilename_append (hroot : RootOk root) (n : Text) :
    tempUploadFilename (root ++ n) = root ++ tempUploadFilename n := by
  obtain ⟨d, hd, hdroot, hno⟩ := afterSlash_suffix n
  have hboth : RootOk (root ++ d) := by
    rcases hdroot with rfl | ⟨r, rfl⟩
    · simpa using hroot
    · exact Or.inr ⟨root ++ r, by simp⟩
  rw [hd, ← List.append_assoc, tempUploadFilename_eq hboth hno, tempUploadFilename_eq hdroot hno]
  simp

/-- The temporary file is in the same directory. -/
lemma below_temp (h : Below slash (tempUploadFilename n) q) : Below slash n q := by
  obtain ⟨d, hd, hdroot, hno⟩ := afterSlash_suffix n
  rw [hd, tempUploadFilename_eq hdroot hno] at h
  rw [hd]
  generalize afterSlash n = base at *
  have hin : slash ∉ ascii ".in." ++ base := by
    rw [List.mem_append, not_or]
    exact ⟨by decide, hno⟩
  obtain ⟨s, hs⟩ := h
  rw [List.append_assoc] at hs
  rcases List.append_eq_append_iff.mp hs with ⟨l, rfl, hl⟩ | ⟨l, rfl, hl⟩
  · exfalso
    apply hin
    rw [hl]
    simp
  · cases l with
    | nil =>
      exfalso
      apply hin
      rw [List.nil_append] at hl
      rw [← hl]
      simp
    | cons c l =>
      obtain ⟨rfl, -⟩ := List.cons.inj hl
      exact ⟨l ++ base, by simp⟩

end Names


section Turns
variable {o : SiteOptions} {source T : Tree UInt8 β} {modtime : Text → ℤ} {f g : SiteFile}
  {r : Run (Tree UInt8 β)} {more : List (Change UInt8 β)}

lemma fullRemote_local (hp : Plain o) : fileFullRemote f.localState o =
    o.remoteRoot ++ localName f := by
  simp [fileFullRemote, hp.lowercase, localName]

lemma fullRemote_stored (hp : Plain o) : fileFullRemote f.storedState o =
    o.remoteRoot ++ storedName f := by
  simp [fileFullRemote, hp.lowercase, storedName]

/-- A call for the next change succeeds. -/
lemma call_does (change : Change UInt8 β) {owner : Option ℕ} {c : DriverCall}
    (hc : requested o source c = some change) (h : Runs slash (change :: more) r.sess T) :
    Ends (call (treeDriver o source modtime) owner c) r fun a r' =>
      a.code = SITE_OK ∧ Runs slash more r'.sess T := by
  obtain ⟨henabled, hrest⟩ := runs_cons.mp h
  rw [ends_call, exec_enabled hc henabled]
  exact ⟨rfl, hrest⟩

lemma fileChmod_does (hp : Plain o) (h : Runs slash (permChanges o f ++ more) r.sess T) :
    Ends (fileChmod (treeDriver o source modtime) o f) r fun out r' =>
      Runs slash more r'.sess T ∧ out.2 = false ∧ out.1.addr = f.addr ∧ out.1.type = f.type ∧
        out.1.localState = f.localState ∧ out.1.serverState = f.serverState ∧
        out.1.storedState.time = f.storedState.time ∧
        (filePermsChanged o f = true → out.1.storedState =
            { f.storedState with mode := f.localState.mode } ∧ Compared o out.1) := by
  unfold fileChmod
  unfold permChanges at h
  split_ifs at h ⊢ with hperms
  · simp only [ends_bind]
    apply (call_does (.chmod (localName f)) _ h).mono
    · rintro a r' ⟨hcode, hruns⟩
      rw [if_neg (by simp [hcode])]
      exact ⟨hruns, rfl, rfl, rfl, rfl, rfl, rfl, fun _ => ⟨rfl, rfl⟩⟩
    · simp [requested, fullRemote_local hp]
  · exact ⟨h, rfl, rfl, rfl, rfl, rfl, rfl, fun h => absurd h hperms⟩

lemma uploaded_size (o : SiteOptions) (g : SiteFile) :
    (uploadedState o g).size = g.localState.size := by
  unfold uploadedState
  cases o.stateMethod <;> rfl

lemma uploaded_time (o : SiteOptions) (g : SiteFile) :
    (uploadedState o g).time = g.localState.time ∨
      (uploadedState o g).time = g.storedState.time := by
  unfold uploadedState
  cases o.stateMethod with
  | timesize => exact Or.inl rfl
  | checksum => exact Or.inr rfl

/-- An entry whose local state was recorded. -/
lemma fresh_uploaded (ht : f.type ≠ .link) (hl : f.localState.existing = true) {st : Stats}
    (ha : g.addr = f.addr) (hty : g.type = f.type) (hloc : g.localState = f.localState)
    (hserved : Served modtime f g) (htime : g.storedState.time = f.storedState.time) :
    Fresh o modtime f (fileSetDiff o { g with storedState := uploadedState o g } st).1 where
  addr := ha
  type := hty
  localState := hloc
  localExisting := (congrArg FileState.existing hloc).trans hl
  compared := rfl
  diff := compare_uploaded (hty ▸ ht) ((congrArg FileState.existing hloc).trans hl)
  name := rfl
  served := hserved
  size := by
    left
    rw [← hloc]
    exact uploaded_size o g
  time := by
    rw [← hloc, ← htime]
    exact uploaded_time o g

/-- A turn that did its changes and left a fresh entry. -/
def Finished (o : SiteOptions) (modtime : Text → ℤ) (more : List (Change UInt8 β))
    (T : Tree UInt8 β) (f : SiteFile) (out : Outcome) (r : Run (Tree UInt8 β)) : Prop :=
  Runs slash more r.sess T ∧ out.2 = false ∧ ∃ g, out.1 = some g ∧ Fresh o modtime f g

lemma finishUpload_does (hp : Plain o) (ht : f.type ≠ .link) (hl : f.localState.existing = true)
    (h : Runs slash (permChanges o f ++ more) r.sess T) :
    Ends (finishUpload (treeDriver o source modtime) o f) r (Finished o modtime more T f) := by
  unfold finishUpload
  simp only [ends_bind, ends_pure, ends_fileUploaded]
  apply (fileChmod_does hp h).mono
  rintro out r' ⟨hruns, hout, haddr, htype, hlocal, hserver, htime, -⟩
  exact ⟨hruns, hout, _, rfl, fresh_uploaded ht hl haddr htype hlocal (Or.inl hserver) htime⟩

lemma fileRetrieveServer_does : Ends (fileRetrieveServer (treeDriver o source modtime) o f) r
    fun g r' => r'.sess = r.sess ∧
      ∃ path, g = { f with serverState :=
        { f.serverState with time := modtime path, existing := true } } := by
  unfold fileRetrieveServer
  simp only [ends_bind, ends_call, ends_driverErr, ends_pure, ends_ite]
  split_ifs with hcode
  · exact ⟨rfl, _, rfl⟩
  · exact absurd rfl hcode

lemma retrieve_finishUpload_does (hp : Plain o) (ht : f.type ≠ .link)
    (hl : f.localState.existing = true) (h : Runs slash (permChanges o f ++ more) r.sess T) :
    Ends (fileRetrieveServer (treeDriver o source modtime) o f) r fun g r' =>
      Ends (finishUpload (treeDriver o source modtime) o g) r' (Finished o modtime more T f) := by
  apply fileRetrieveServer_does.mono
  rintro g r' ⟨hsess, path, rfl⟩
  rw [← hsess] at h
  apply (finishUpload_does (f := { f with serverState :=
    { f.serverState with time := modtime path, existing := true } }) hp ht hl h).mono
  rintro out r'' ⟨hruns, hout, g, hg, hfresh⟩
  refine ⟨hruns, hout, g, hg, hfresh.addr, hfresh.type, hfresh.localState, hfresh.localExisting,
    hfresh.compared, hfresh.diff, hfresh.name, Or.inr ?_, hfresh.size, hfresh.time⟩
  rcases hfresh.served with hsame | hserved
  · exact ⟨path, by rw [hsame]⟩
  · exact hserved

lemma finishPlainUpload_does (hp : Plain o) (ht : f.type ≠ .link)
    (hl : f.localState.existing = true) (h : Runs slash (permChanges o f ++ more) r.sess T) :
    Ends (finishPlainUpload (treeDriver o source modtime) o f) r (Finished o modtime more T f) := by
  unfold finishPlainUpload
  simp only [ends_ite, ends_bind, ends_pure]
  split_ifs
  · exact retrieve_finishUpload_does hp ht hl h
  · exact finishUpload_does hp ht hl h

lemma uploadFile_does (hp : Plain o) (ht : f.type ≠ .link) (hl : f.localState.existing = true)
    (hsource : IsFile source (localName f))
    (h : Runs slash (uploadChanges o source f ++ (permChanges o f ++ more)) r.sess T) :
    Ends (uploadFile (treeDriver o source modtime) o f) r (Finished o modtime more T f) := by
  obtain ⟨c, hc⟩ := hsource
  unfold uploadChanges at h
  rw [hc] at h
  dsimp only at h
  have hremote := fullRemote_local (f := f) hp
  have hloc : fileFullLocal f.localState o = o.localRoot ++ localName f := rfl
  unfold uploadFile
  dsimp only
  rw [hremote, hloc]
  by_cases hcond : o.safemode = true ∧ f.serverState.existing = true
  · rw [if_neg (by simp [hcond])] at h
    rw [if_pos hcond]
    simp only [ends_bind]
    apply (call_does (.write (localName f) c) _ h).mono
    · rintro a r' ⟨hcode, hruns⟩
      rw [if_neg (by rw [hcode]; decide), if_neg (by rw [hcode]; decide)]
      simp only [ends_bind]
      exact retrieve_finishUpload_does hp ht hl hruns
    · simp [requested, hc]
  rw [if_neg hcond]
  by_cases htemp : o.tempupload = true
  · rw [if_pos ⟨hcond, htemp⟩] at h
    rw [if_pos htemp]
    simp only [ends_bind]
    apply (call_does (.write (tempUploadFilename (localName f)) c) _ h).mono
    · rintro a r' ⟨hcode, hruns⟩
      rw [if_neg (by simp [hcode])]
      simp only [ends_bind]
      apply (call_does (.rename (tempUploadFilename (localName f)) (localName f)) _
        hruns).mono
      · rintro a' r'' ⟨hcode, hruns⟩
        rw [if_neg (by simp [hcode])]
        exact finishPlainUpload_does hp ht hl hruns
      · simp [requested, tempUploadFilename_append (hp.root htemp)]
    · simp [requested, hc, tempUploadFilename_append (hp.root htemp)]
  · rw [if_neg (by simp [htemp])] at h
    rw [if_neg htemp]
    simp only [ends_bind]
    apply (call_does (.write (localName f) c) _ h).mono
    · rintro a r' ⟨hcode, hruns⟩
      rw [if_neg (by simp [hcode])]
      exact finishPlainUpload_does hp ht hl hruns
    · simp [requested, hc]

/-- The user agrees. -/
lemma tree_yes (f : SiteFile) (t : Tree UInt8 β) :
    ((treeDriver o source modtime).canUpdate f t).1 = true := rfl

lemma updateNewFile_does (hp : Plain o) (ht : f.type ≠ .link) (hl : f.localState.existing = true)
    (hsource : IsFile source (localName f))
    (h : Runs slash (newFileChanges o source f ++ more) r.sess T) :
    Ends (updateNewFile (treeDriver o source modtime) o f) r (Finished o modtime more T f) := by
  unfold updateNewFile
  simp only [ends_bind, ends_feCanUpdate]
  rw [if_pos (tree_yes f r.sess)]
  unfold newFileChanges at h
  rw [List.append_assoc, List.append_assoc] at h
  by_cases hdelete : f.diff = .changed ∧ o.nooverwrite = true
  · rw [if_pos hdelete] at h ⊢
    simp only [ends_bind]
    apply (call_does (.unlink (localName f)) _ h).mono
    · rintro a r' ⟨hcode, hruns⟩
      rw [if_neg (by simp [hcode])]
      exact uploadFile_does hp ht hl hsource hruns
    · simp [requested, fullRemote_local hp]
  · rw [if_neg hdelete] at h ⊢
    exact uploadFile_does hp ht hl hsource h

lemma turnChanges_active {p : Handler} (h : activeHandler f ≠ some p) :
    turnChanges o source p f = [] := if_neg h

/-- A turn of handler `p` that did its changes. -/
def TurnDone (o : SiteOptions) (modtime : Text → ℤ) (more : List (Change UInt8 β))
    (T : Tree UInt8 β) (p : Handler) (f : SiteFile) (out : Outcome) (r : Run (Tree UInt8 β)) :
    Prop :=
  out.2 = false ∧ TurnedTo o modtime p f out.1 ∧ Runs slash more r.sess T

lemma Finished.done {p : Handler} {out : Outcome} (h : Finished o modtime more T f out r)
    (hact : activeHandler f = some p) (hheld : ¬ Held f) : TurnDone o modtime more T p f out r := by
  obtain ⟨hruns, hout, hfresh⟩ := h
  refine ⟨hout, ⟨fun hno => ?_, fun _ _ => Or.inr hfresh⟩, hruns⟩
  rcases hno with hno | hno
  · exact absurd hact hno
  · exact absurd hno hheld

lemma updateFile_does (hp : Plain o) (he : Entry o f) (hact : activeHandler f = some .files)
    (hheld : ¬ Held f) (hsource : IsFile source (localName f))
    (h : Runs slash (turnChanges o source .files f ++ more) r.sess T) :
    Ends (updateFile (treeDriver o source modtime) o f) r (TurnDone o modtime more T .files f) := by
  have hdiff : f.diff = .new ∨ f.diff = .changed := by
    cases hd : f.diff <;> cases ht : f.type <;> simp [activeHandler, hd, ht] at hact ⊢
  have htype : f.type = .file := by
    cases hd : f.diff <;> cases ht : f.type <;> simp [activeHandler, hd, ht] at hact ⊢
  have hl := he.ok.compared.localExisting hdiff
  unfold turnChanges at h
  rw [if_pos hact] at h
  dsimp only at h
  unfold updateFile
  rw [if_neg (by simp [htype])]
  rcases hdiff with hd | hd
  · simp only [hd]
    rw [if_neg (by simp [hd]), if_neg (by simp [hd])] at h
    apply (updateNewFile_does hp he.nolink hl hsource h).mono
    exact fun out r' hout => hout.done hact hheld
  · have hi : f.ignore = false := Bool.eq_false_of_not_eq_true fun hi => hheld ⟨htype, hd, hi⟩
    simp only [hd, hi, Bool.false_eq_true, ↓reduceIte]
    rw [if_neg (by simp [hi])] at h
    cases hc : fileContentsChanged o f with
    | true =>
      rw [if_neg (by simp [hc])] at h
      simp only [Bool.not_true, Bool.false_eq_true, ↓reduceIte]
      apply (updateNewFile_does hp he.nolink hl hsource h).mono
      exact fun out r' hout => hout.done hact hheld
    | false =>
      rw [if_pos ⟨hd, hc⟩] at h
      simp only [Bool.not_false, ↓reduceIte, ends_bind, ends_pure]
      obtain ⟨hperms, hafter⟩ := perms_only he.ok htype hd hc
      apply (fileChmod_does hp h).mono
      rintro out r' ⟨hruns, hout, haddr, hty, hlocal, hserver, htime, hchmod⟩
      obtain ⟨hstored, hcompared⟩ := hchmod hperms
      refine Finished.done ⟨hruns, hout, _, rfl, haddr, hty, hlocal, ?_, hcompared, ?_, ?_,
        Or.inl hserver, Or.inr (by rw [hstored]), Or.inr htime⟩ hact hheld
      · rw [hlocal, hl]
      · rw [show out.1.diff = _ from hcompared, hty, hlocal, hstored]
        exact hafter
      · have hs := (fileCompare_both (he.ok.compared.symm.trans hd) (by decide) (by decide)).2
        rw [hstored, hlocal]
        rcases he.paired.named hl hs with hsame | ⟨hmoved, -⟩
        · exact hsame.symm
        · rw [hp.checkmoved] at hmoved
          cases hmoved

lemma deleted_done {p : Handler} (hact : activeHandler f = some p) (hd : f.diff = .deleted)
    (h : Runs slash more r.sess T) : TurnDone o modtime more T p f (none, false) r := by
  refine ⟨rfl, ⟨fun hno => ?_, fun _ _ => Or.inl ⟨rfl, hd⟩⟩, h⟩
  rcases hno with hno | ⟨-, hno, -⟩
  · exact absurd hact hno
  · rw [hd] at hno
    cases hno

lemma updateDeleteFile_does (hp : Plain o) (hact : activeHandler f = some .deleteFiles)
    (h : Runs slash (turnChanges o source .deleteFiles f ++ more) r.sess T) :
    Ends (updateDeleteFile (treeDriver o source modtime) o f) r
      (TurnDone o modtime more T .deleteFiles f) := by
  have hd : f.diff = .deleted ∧ f.type = .file := by
    cases hd : f.diff <;> cases ht : f.type <;> simp [activeHandler, hd, ht] at hact ⊢
  unfold turnChanges at h
  rw [if_pos hact] at h
  unfold updateDeleteFile
  rw [if_pos hd]
  simp only [ends_bind, ends_feCanUpdate]
  rw [if_pos (tree_yes f r.sess)]
  simp only [ends_bind]
  apply (call_does (.unlink (storedName f)) _ h).mono
  · rintro a r' ⟨hcode, hruns⟩
    rw [if_neg (by simp [hcode])]
    exact deleted_done hact hd.1 hruns
  · simp [requested, fullRemote_stored hp]

lemma updateDeleteDirectory_does (hp : Plain o)
    (hact : activeHandler f = some .deleteDirectories)
    (h : Runs slash (turnChanges o source .deleteDirectories f ++ more) r.sess T) :
    Ends (updateDeleteDirectory (treeDriver o source modtime) o f) r
      (TurnDone o modtime more T .deleteDirectories f) := by
  have hd : f.type = .dir ∧ f.diff = .deleted := by
    cases hd : f.diff <;> cases ht : f.type <;> simp [activeHandler, hd, ht] at hact ⊢
  unfold turnChanges at h
  rw [if_pos hact] at h
  unfold updateDeleteDirectory
  rw [if_pos hd]
  simp only [ends_bind, ends_feCanUpdate]
  rw [if_pos (tree_yes f r.sess)]
  simp only [ends_bind]
  apply (call_does (.rmdir (storedName f)) _ h).mono
  · rintro a r' ⟨hcode, hruns⟩
    rw [if_neg (by simp [hcode])]
    exact deleted_done hact hd.2 hruns
  · simp [requested, fullRemote_stored hp]

/-- The end of a turn for a directory, after the directory was made if it had to be. -/
lemma dirPerms_does {perms : Prop} [Decidable perms] (hp : Plain o) (he : Entry o f)
    (hl : f.localState.existing = true) (hact : activeHandler f = some .createDirectories)
    (hheld : ¬ Held f) (hperms : perms ↔ o.dirperms = true)
    (h : Runs slash ((if o.dirperms then [.chmod (localName f)] else []) ++ more) r.sess T) :
    Ends (if perms then do
        let ret ← call (treeDriver o source modtime) f.addr
          (.fileChmod (fileFullRemote f.localState o) f.localState.mode)
        if ret.code ≠ SITE_OK then do
          driverErr (treeDriver o source modtime) f.addr
          let oret ← pure ret.code
          finishDirectory o f oret
        else do
          let oret ← pure ret.code
          finishDirectory o f oret
      else do
        let oret ← pure SITE_OK
        finishDirectory o f oret) r (TurnDone o modtime more T .createDirectories f) := by
  have hend : ∀ r' : Run (Tree UInt8 β), Runs slash more r'.sess T →
      Ends (finishDirectory o f SITE_OK) r' (TurnDone o modtime more T .createDirectories f) := by
    intro r' hruns
    unfold finishDirectory
    rw [if_neg (by simp)]
    exact Finished.done
      ⟨hruns, rfl, _, rfl, fresh_uploaded he.nolink hl rfl rfl rfl (Or.inl rfl) rfl⟩ hact hheld
  by_cases hperm : o.dirperms = true
  · rw [if_pos hperm] at h
    rw [if_pos (hperms.mpr hperm)]
    simp only [ends_bind]
    apply (call_does (.chmod (localName f)) _ h).mono
    · rintro a r' ⟨hcode, hruns⟩
      rw [if_neg (by simp [hcode])]
      simp only [ends_bind, ends_pure, hcode]
      exact hend r' hruns
    · simp [requested, fullRemote_local hp]
  · rw [if_neg hperm] at h
    rw [if_neg (by rwa [hperms])]
    simp only [ends_bind, ends_pure]
    exact hend r h

lemma updateCreateDirectory_does (hp : Plain o) (he : Entry o f)
    (hact : activeHandler f = some .createDirectories)
    (h : Runs slash (turnChanges o source .createDirectories f ++ more) r.sess T) :
    Ends (updateCreateDirectory (treeDriver o source modtime) o f) r
      (TurnDone o modtime more T .createDirectories f) := by
  have hd : f.type = .dir ∧ (f.diff = .new ∨ f.diff = .changed) := by
    cases hd : f.diff <;> cases ht : f.type <;> simp [activeHandler, hd, ht] at hact ⊢
  have hl := he.ok.compared.localExisting hd.2
  have hheld : ¬ Held f := fun hheld => by simp [hheld.1] at hd
  unfold turnChanges at h
  rw [if_pos hact] at h
  dsimp only at h
  unfold dirChanges at h
  rw [List.append_assoc] at h
  unfold updateCreateDirectory
  rw [if_pos hd]
  simp only [ends_bind, ends_feCanUpdate]
  rw [if_pos (tree_yes f r.sess)]
  by_cases hnew : f.diff = .new
  · rw [if_pos hnew] at h
    simp only [if_pos hnew, ends_bind]
    apply (call_does (.mkdir (localName f)) _ h).mono
    · rintro a r' ⟨hcode, hruns⟩
      rw [if_neg (by simp [hcode])]
      simp only [ends_bind, ends_pure, hcode]
      exact dirPerms_does hp he hl hact hheld (by simp) hruns
    · simp [requested, fullRemote_local hp]
  · rw [if_neg hnew] at h
    simp only [if_neg hnew, ends_bind, ends_pure]
    exact dirPerms_does hp he hl hact hheld (by simp) h

/-- A turn does its changes. A file that is sent has to be there. -/
theorem turn_does (hp : Plain o) (he : Entry o f) (p : Handler)
    (hsource : activeHandler f = some .files → IsFile source (localName f))
    (h : Runs slash (turnChanges o source p f ++ more) r.sess T) :
    Ends (p.turn (treeDriver o source modtime) o f) r (TurnDone o modtime more T p f) := by
  by_cases hact : activeHandler f = some p
  · by_cases hheld : Held f
    · have hidle : p.turn (treeDriver o source modtime) o f = pure (some f, false) :=
        handler_idle fun hno => hno.2 hheld
      have hnone : turnChanges o source p f = [] := by
        obtain ⟨ht, hd, hi⟩ := hheld
        have hfiles : p = .files := by
          simp only [activeHandler, hd, ht, Option.some.injEq] at hact
          exact hact.symm
        subst hfiles
        unfold turnChanges
        rw [if_pos hact]
        exact if_pos ⟨hd, hi⟩
      rw [hidle, ends_pure]
      rw [hnone] at h
      exact ⟨rfl, ⟨fun _ => rfl, fun _ hno => absurd hheld hno⟩, h⟩
    · cases p with
      | deleteFiles => exact updateDeleteFile_does hp hact h
      | createDirectories => exact updateCreateDirectory_does hp he hact h
      | files => exact updateFile_does hp he hact hheld (hsource hact) h
      | deleteDirectories => exact updateDeleteDirectory_does hp hact h
      | moveFiles =>
        exfalso
        have hmoved : f.diff = .moved := by
          cases hd : f.diff <;> cases ht : f.type <;> simp [activeHandler, hd, ht] at hact ⊢
        have hon := (fileCompare_moved (he.ok.compared.symm.trans hmoved)).2.1
        rw [hp.checkmoved] at hon
        cases hon
      | links =>
        exfalso
        apply he.nolink
        cases hd : f.diff <;> cases ht : f.type <;> simp [activeHandler, hd, ht] at hact ⊢
  · rw [turn_idle hact, ends_pure]
    rw [turnChanges_active hact] at h
    exact ⟨rfl, ⟨fun _ => rfl, fun hyes => absurd hyes hact⟩, h⟩

end Turns

/-! ### Whole passes -/

/-- An entry can be dealt with if its handler acts on it: a file that is sent has to be there. -/
def Ready (o : SiteOptions) (source : Tree UInt8 β) (f : SiteFile) : Prop :=
  activeHandler f ≠ none → Entry o f ∧
    (activeHandler f = some .files → IsFile source (localName f))

/-- The changes of a pass. -/
def passChanges (o : SiteOptions) (source : Tree UInt8 β) (p : Handler) (files : List SiteFile) :
    List (Change UInt8 β) :=
  (if p = .deleteDirectories then files.reverse else files).flatMap (turnChanges o source p)

/-- The changes of the handlers in a table. -/
def tableChanges (o : SiteOptions) (source : Tree UInt8 β) (table : List (Handler × Bool))
    (files : List SiteFile) : List (Change UInt8 β) :=
  (table.filter (·.2)).flatMap fun e => passChanges o source e.1 files

/-- What the handlers in a table make of the entries of a list. -/
structure Updated (o : SiteOptions) (modtime : Text → ℤ) (table : List (Handler × Bool))
    (files files' : List SiteFile) : Prop where
  sound : ∀ g ∈ files', ∃ f ∈ files,
    g = f ∧ (∀ e ∈ table, e.2 = true → activeHandler f = some e.1 → Held f) ∨
      Fresh o modtime f g
  complete : ∀ f ∈ files, f.diff ≠ .deleted → ∃ g ∈ files', g = f ∨ Fresh o modtime f g

section Passes
variable {o : SiteOptions} {source T : Tree UInt8 β} {modtime : Text → ℤ} {f g g' : SiteFile}
  {p q : Handler} {files files' : List SiteFile} {r : Run (Tree UInt8 β)}
  {more : List (Change UInt8 β)}

lemma Fresh.idle (h : Fresh o modtime f g) : activeHandler g = none := by
  unfold activeHandler
  rw [h.diff]

lemma Fresh.trans (h : Fresh o modtime f g) (h' : Fresh o modtime g g') : Fresh o modtime f g' where
  addr := h'.addr.trans h.addr
  type := h'.type.trans h.type
  localState := h'.localState.trans h.localState
  localExisting := h'.localExisting
  compared := h'.compared
  diff := h'.diff
  name := h'.name
  served := by
    rcases h'.served with hsame | hserved
    · rcases h.served with hsame' | ⟨path, hserved⟩
      · exact Or.inl (hsame.trans hsame')
      · exact Or.inr ⟨path, by rw [hsame, hserved]⟩
    · exact Or.inr hserved
  size := by
    rcases h'.size with hlocal | hstored
    · rw [h.localState] at hlocal
      exact Or.inl hlocal
    · rw [hstored]
      exact h.size
  time := by
    rcases h'.time with hlocal | hstored
    · rw [h.localState] at hlocal
      exact Or.inl hlocal
    · rw [hstored]
      exact h.time

lemma TurnedTo.cases {out : Option SiteFile} (h : TurnedTo o modtime p f out) :
    out = some f ∧ (activeHandler f = some p → Held f) ∨
      activeHandler f = some p ∧ (out = none ∧ f.diff = .deleted ∨
        ∃ g, out = some g ∧ Fresh o modtime f g) := by
  by_cases hact : activeHandler f = some p
  · by_cases hheld : Held f
    · exact Or.inl ⟨h.1 (Or.inr hheld), fun _ => hheld⟩
    · exact Or.inr ⟨hact, h.2 hact hheld⟩
  · exact Or.inl ⟨h.1 (Or.inl hact), fun hyes => absurd hyes hact⟩

lemma turn_ready (hp : Plain o) (h : Ready o source f)
    (hruns : Runs slash (turnChanges o source p f ++ more) r.sess T) :
    Ends (p.turn (treeDriver o source modtime) o f) r (TurnDone o modtime more T p f) := by
  by_cases hact : activeHandler f = none
  · have hne : activeHandler f ≠ some p := by simp [hact]
    rw [turn_idle hne, ends_pure]
    rw [turnChanges_active hne] at hruns
    exact ⟨rfl, ⟨fun _ => rfl, fun hyes => absurd hyes hne⟩, hruns⟩
  · obtain ⟨hentry, hsource⟩ := h hact
    exact turn_does hp hentry p hsource hruns

/-- A pass does its changes. -/
theorem pass_does (hp : Plain o) (hready : ∀ f ∈ files, Ready o source f)
    (h : Runs slash (passChanges o source p files ++ more) r.sess T) :
    Ends (p.pass (treeDriver o source modtime) o files) r fun out r' =>
      out.2 = false ∧ Kept (TurnedTo o modtime p) files out.1 ∧ Runs slash more r'.sess T := by
  have hbody : ∀ f rest (r : Run (Tree UInt8 β)),
      ((∀ g ∈ f :: rest, Ready o source g) ∧
        Runs slash ((f :: rest).flatMap (turnChanges o source p) ++ more) r.sess T) →
      Ends (p.turn (treeDriver o source modtime) o f) r fun out r' =>
        out.2 = false ∧ TurnedTo o modtime p f out.1 ∧ (∀ g ∈ rest, Ready o source g) ∧
          Runs slash (rest.flatMap (turnChanges o source p) ++ more) r'.sess T := by
    rintro f rest r ⟨hrest, hruns⟩
    rw [List.flatMap_cons, List.append_assoc] at hruns
    apply (turn_ready hp (hrest f (by simp)) hruns).mono
    rintro out r' ⟨hout, hturned, hruns⟩
    exact ⟨hout, hturned, fun g hg => hrest g (List.mem_cons_of_mem f hg), hruns⟩
  have hforward : p ≠ .deleteDirectories →
      Ends (forEach (p.turn (treeDriver o source modtime) o) files) r fun out r' =>
        out.2 = false ∧ Kept (TurnedTo o modtime p) files out.1 ∧ Runs slash more r'.sess T := by
    intro hne
    unfold passChanges at h
    rw [if_neg hne] at h
    apply (forEach_kept (Q := TurnedTo o modtime p)
      (I := fun rest r => (∀ g ∈ rest, Ready o source g) ∧
        Runs slash (rest.flatMap (turnChanges o source p) ++ more) r.sess T) hbody
      ⟨hready, h⟩).mono
    rintro out r' ⟨hout, hkept, -, hruns⟩
    exact ⟨hout, hkept, hruns⟩
  cases p with
  | deleteFiles | createDirectories | moveFiles | files | links => exact hforward (by decide)
  | deleteDirectories =>
    unfold passChanges at h
    rw [if_pos rfl] at h
    apply (forEachBackward_kept (Q := TurnedTo o modtime .deleteDirectories)
      (I := fun rest r => (∀ g ∈ rest, Ready o source g) ∧
        Runs slash (rest.flatMap (turnChanges o source .deleteDirectories) ++ more) r.sess T) hbody
      ⟨fun g hg => hready g (List.mem_reverse.mp hg), h⟩).mono
    rintro out r' ⟨hout, hkept, -, hruns⟩
    exact ⟨hout, hkept, hruns⟩

/-- A pass leaves the other passes what they have to do. -/
lemma passChanges_kept (h : Kept (TurnedTo o modtime p) files files') (hne : q ≠ p) :
    passChanges o source q files' = passChanges o source q files := by
  have hturn : ∀ f out, TurnedTo o modtime p f out →
      out.toList.flatMap (turnChanges o source q) = turnChanges o source q f := by
    intro f out hout
    rcases hout.cases with ⟨rfl, -⟩ | ⟨hact, hdone⟩
    · rw [Option.toList_some, List.flatMap_singleton]
    · rw [turnChanges_active (f := f) (by rw [hact]; simpa using Ne.symm hne)]
      rcases hdone with ⟨rfl, -⟩ | ⟨g, rfl, hg⟩
      · rfl
      · rw [Option.toList_some, List.flatMap_singleton,
          turnChanges_active (by rw [hg.idle]; simp)]
  unfold passChanges
  split_ifs
  · exact h.reverse.flatMap hturn
  · exact h.flatMap hturn

lemma ready_kept (h : Kept (TurnedTo o modtime p) files files')
    (hready : ∀ f ∈ files, Ready o source f) :
    ∀ g ∈ files', Ready o source g := by
  intro g hg
  obtain ⟨f, hf, hturned⟩ := h.mem hg
  rcases hturned.cases with ⟨hout, -⟩ | ⟨-, hdone⟩
  · obtain rfl := Option.some.inj hout
    exact hready g hf
  · rcases hdone with ⟨hout, -⟩ | ⟨g', hout, hfresh⟩
    · cases hout
    · obtain rfl := Option.some.inj hout
      exact fun hact => absurd hfresh.idle hact

lemma Updated.nil : Updated o modtime [] files files where
  sound g hg := ⟨g, hg, Or.inl ⟨rfl, by simp⟩⟩
  complete f hf _ := ⟨f, hf, Or.inl rfl⟩

lemma Updated.skip {table : List (Handler × Bool)} {guard : Bool} (hguard : guard = false)
    (h : Updated o modtime table files files') :
    Updated o modtime ((p, guard) :: table) files files' where
  sound g hg := by
    obtain ⟨f, hf, ⟨heq, htable⟩ | hfresh⟩ := h.sound g hg
    · refine ⟨f, hf, Or.inl ⟨heq, fun e he hon => ?_⟩⟩
      rcases List.mem_cons.mp he with rfl | he
      · rw [hguard] at hon
        cases hon
      · exact htable e he hon
    · exact ⟨f, hf, Or.inr hfresh⟩
  complete := h.complete

lemma Updated.pass {table : List (Handler × Bool)} {mid : List SiteFile}
    (hpass : Kept (TurnedTo o modtime p) files mid) (h : Updated o modtime table mid files') :
    Updated o modtime ((p, true) :: table) files files' where
  sound g hg := by
    obtain ⟨m, hm, hmid⟩ := h.sound g hg
    obtain ⟨f, hf, hturned⟩ := hpass.mem hm
    refine ⟨f, hf, ?_⟩
    rcases hturned.cases with ⟨hout, hheld⟩ | ⟨-, hdone⟩
    · obtain rfl := Option.some.inj hout
      refine hmid.imp_left fun ⟨heq, htable⟩ => ⟨heq, fun e he hon => ?_⟩
      rcases List.mem_cons.mp he with rfl | he
      · exact hheld
      · exact htable e he hon
    · rcases hdone with ⟨hout, -⟩ | ⟨m', hout, hfresh⟩
      · cases hout
      · obtain rfl := Option.some.inj hout
        rcases hmid with ⟨rfl, -⟩ | hagain
        · exact Or.inr hfresh
        · exact Or.inr (hfresh.trans hagain)
  complete f hf hd := by
    obtain ⟨out, hturned, hmem⟩ := hpass.of_mem hf
    rcases hturned.cases with ⟨rfl, -⟩ | ⟨-, hdone⟩
    · exact h.complete f (hmem f rfl) hd
    · rcases hdone with ⟨-, hdel⟩ | ⟨m, rfl, hfresh⟩
      · exact absurd hdel hd
      · obtain ⟨g, hg, rfl | hagain⟩ := h.complete m (hmem m rfl) (by simp [hfresh.diff])
        · exact ⟨g, hg, Or.inr hfresh⟩
        · exact ⟨g, hg, Or.inr (hfresh.trans hagain)⟩

/-- The handlers do their changes one after the other. -/
theorem runHandlers_does (hp : Plain o) (table : List (Handler × Bool))
    (hnodup : (table.map Prod.fst).Nodup) (hready : ∀ f ∈ files, Ready o source f)
    (h : Runs slash (tableChanges o source table files) r.sess T) :
    Ends (runHandlers o (table.map fun e => (e.1.pass (treeDriver o source modtime) o, e.2)) false
      files) r fun out r' => out.2 = false ∧ r'.sess = T ∧ Updated o modtime table files out.1 := by
  induction table generalizing files r with
  | nil => exact ⟨rfl, h.symm, .nil⟩
  | cons entry table ih =>
    obtain ⟨p, guard⟩ := entry
    rw [List.map_cons, List.nodup_cons] at hnodup
    simp only [List.map_cons, runHandlers, Bool.not_false, Bool.true_or, ↓reduceIte, ends_ite,
      ends_bind]
    unfold tableChanges at h
    split_ifs with hguard
    · rw [List.filter_cons_of_pos (by simpa using hguard), List.flatMap_cons] at h
      apply (pass_does hp hready h).mono
      rintro out r' ⟨hout, hkept, hruns⟩
      rw [hout, Bool.or_false]
      have hsame : tableChanges o source table out.1 = tableChanges o source table files := by
        apply List.flatMap_congr
        intro e he
        apply passChanges_kept hkept
        intro hep
        apply hnodup.1
        rw [← hep]
        exact List.mem_map_of_mem (List.mem_of_mem_filter he)
      have hrest : Runs slash (tableChanges o source table out.1) r'.sess T := by
        rw [hsame]
        exact hruns
      apply (ih hnodup.2 (ready_kept hkept hready) hrest).mono
      rintro out' r'' ⟨hout', hsess, hupdated⟩
      rw [hguard]
      exact ⟨hout', hsess, hupdated.pass hkept⟩
    · rw [List.filter_cons_of_neg (by simpa using hguard)] at h
      apply (ih hnodup.2 hready h).mono
      rintro out' r'' ⟨hout', hsess, hupdated⟩
      exact ⟨hout', hsess, hupdated.skip (Bool.eq_false_of_not_eq_true hguard)⟩

end Passes

/-! ### The whole update -/

/-- The changes of an update. -/
def updateChanges (o : SiteOptions) (source : Tree UInt8 β) (files : List SiteFile) :
    List (Change UInt8 β) :=
  passChanges o source .deleteFiles files ++ passChanges o source .createDirectories files ++
    passChanges o source .files files ++ passChanges o source .deleteDirectories files

lemma tableChanges_eq {o : SiteOptions} (hp : Plain o) (source : Tree UInt8 β)
    (files : List SiteFile) :
    tableChanges o source (handlerTable o) files = updateChanges o source files := by
  have hlinks : passChanges o source .links files = [] := by
    simp [passChanges, turnChanges]
  by_cases hmaintain : o.symlinks = .maintain
  · simp [tableChanges, handlerTable, hp.nodelete, hp.checkmoved, hmaintain, hlinks, updateChanges]
  · simp [tableChanges, handlerTable, hp.nodelete, hp.checkmoved, hmaintain, updateChanges]

/-- An update whose changes all succeed does them and returns `SITE_OK`. -/
theorem siteUpdate_does {site : Site} {source R T : Tree UInt8 β} (modtime : Text → ℤ)
    (hp : Plain site.opts) (hready : ∀ f ∈ site.files, Ready site.opts source f)
    (h : Runs slash (updateChanges site.opts source site.files) R T) :
    (siteUpdate (treeDriver site.opts source modtime) site R).ret = SITE_OK ∧
      (siteUpdate (treeDriver site.opts source modtime) site R).sess = T ∧
      Updated site.opts modtime (handlerTable site.opts) site.files
        (siteUpdate (treeDriver site.opts source modtime) site R).site.files := by
  have hrun : Ends (updateSiteFiles (treeDriver site.opts source modtime) site.opts site.files)
      { stats := site.stats, sess := R } fun out r' => out.2 = SITE_OK ∧ r'.sess = T ∧
        Updated site.opts modtime (handlerTable site.opts) site.files out.1 := by
    unfold updateSiteFiles protoInit protoFinish
    simp only [ends_bind, ends_ite, ends_pure, ends_call, ends_driverErr]
    split_ifs with hret
    · exact absurd rfl hret
    · rw [handlers_eq]
      rw [← tableChanges_eq hp] at h
      apply (runHandlers_does hp (handlerTable site.opts) (by simp [handlerTable]) hready h).mono
      rintro out r' ⟨hout, hsess, hupdated⟩
      exact ⟨by rw [hout]; rfl, hsess, hupdated⟩
  exact hrun

end Sitecopy.RemoteTree
