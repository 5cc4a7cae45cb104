import Sitecopy.DriverCalls
import Sitecopy.Paths
import Sitecopy.ReachedFiles

/-!
# Objects that sitecopy does not know

What an update may do to the remote site is confined to the remote paths of the states in its
list and to the names of temporary uploads. With WebDAV, deleting or replacing an object also
takes what is inside of it.
-/
namespace Sitecopy.ForeignObjects
open SiteModel FileSet StateProgram SiteStats SiteUpdate UpdateAccounting DriverCalls Paths
open ReachedFiles

/-! ### The remote site -/

/-- How a driver handles directories. -/
inductive Removal
  /-- directories are removed when they are empty -/
  | emptyOnly
  /-- deleting and moving take everything inside, as WebDAV does -/
  | recursive
  deriving DecidableEq, Repr

/-- The paths whose objects a call writes. No driver has methods for links that do anything. -/
def targets : DriverCall → List Text
  | .fileMove src dst => [src, dst]
  | .fileUpload _ remote _ | .fileUploadCond _ remote _ _ => [remote]
  | .fileDelete path | .fileChmod path _ | .dirCreate path | .dirRemove path => [path]
  | .init | .finish | .error | .fileGetModtime _ => []
  | .linkCreate _ _ | .linkChange _ _ | .linkDelete _ => []

/-- The paths of objects that a call takes away or replaces. -/
def removals : DriverCall → List Text
  | .fileMove src dst => [src, dst]
  | .fileDelete path | .dirRemove path => [path]
  | _ => []

/-- The object at `p` is out of reach of a call. -/
def OutOfReach (kind : Removal) (c : DriverCall) (p : Text) : Prop :=
  p ∉ targets c ∧ (kind = .recursive → ∀ d ∈ removals c, ¬ Below slash p d)

/-- A driver whose sessions hold the objects of a remote site by their paths. -/
structure RemoteSite (σ β : Type) where
  kind : Removal
  env : Env σ
  objects : σ → Text → Option β
  exec : ∀ c s p, OutOfReach kind c p → (∀ d, c = .dirRemove d → ¬ Below slash p d) →
    objects (env.exec c s).2 p = objects s p
  /-- a directory that is not empty is not removed -/
  refuse : kind = .emptyOnly → ∀ d s, (∃ p, Below slash p d ∧ (objects s p).isSome) →
    objects (env.exec (.dirRemove d) s).2 = objects s
  ask : ∀ f s, objects (env.canUpdate f s).2 = objects s

/-- An object out of reach of a call stays, also when its directory is to be removed. -/
lemma RemoteSite.keeps {σ β : Type} (D : RemoteSite σ β) {c : DriverCall} {s : σ} {p : Text}
    {b : β} (hp : OutOfReach D.kind c p) (hb : D.objects s p = some b) :
    D.objects (D.env.exec c s).2 p = some b := by
  by_cases hin : ∃ d, c = .dirRemove d ∧ Below slash p d
  · obtain ⟨d, rfl, hd⟩ := hin
    have hkind : D.kind = .emptyOnly := by
      cases hk : D.kind with
      | emptyOnly => rfl
      | recursive => exact absurd hd (hp.2 hk d (by simp [removals]))
    rw [D.refuse hkind d s ⟨p, hd, by simp [hb]⟩, hb]
  · rw [D.exec c s p hp fun d hc hd => hin ⟨d, hc, hd⟩, hb]

/-! ### Where an update reaches -/

/-- The names of the temporary upload of an entry. -/
def temporaryNames (o : SiteOptions) (f : SiteFile) : List Text :=
  if o.tempupload = true ∧ f.type = .file ∧ (f.diff = .new ∨ f.diff = .changed) then
    [tempUploadFilename (fileFullRemote f.localState o)]
  else []

/-- The paths at which an update takes away or replaces an object for the entry. -/
def removedPaths (o : SiteOptions) (f : SiteFile) : List Text :=
  match f.diff with
  | .deleted =>
    if o.nodelete = false ∧ f.type ≠ .link then [fileFullRemote f.storedState o] else []
  | .moved => [fileFullRemote f.storedState o, fileFullRemote f.localState o]
  | .new =>
    if f.type = .file ∧ o.tempupload = true then
      fileFullRemote f.localState o :: temporaryNames o f
    else []
  | .changed =>
    if f.type = .file ∧ (o.tempupload = true ∨ o.nooverwrite = true) then
      fileFullRemote f.localState o :: temporaryNames o f
    else []
  | .unchanged => []

/-- An object that no stored state records, at a path that the update has no use for. -/
structure Foreign (kind : Removal) (site : Site) (p : Text) : Prop where
  stored : ∀ f ∈ site.files, f.storedState.existing = true →
    p ≠ fileFullRemote f.storedState site.opts
  scanned : ∀ f ∈ site.files, f.localState.existing = true →
    p ≠ fileFullRemote f.localState site.opts
  temporary : ∀ f ∈ site.files, p ∉ temporaryNames site.opts f
  /-- for WebDAV, not inside of what the update takes away either -/
  outside : kind = .recursive → ∀ f ∈ site.files, ∀ d ∈ removedPaths site.opts f, ¬ Below slash p d

section Reach
variable {o : SiteOptions} {f : SiteFile} {h : Handler} {c : DriverCall}

lemma localExisting_of (hf : EntryOk o f) (hd : f.diff ≠ .deleted) :
    f.localState.existing = true := by
  by_contra hl
  apply hd
  rw [show f.diff = _ from hf.compared]
  exact fileCompare_deleted_iff.mpr (by simpa using hl)

lemma storedExisting_of (hf : EntryOk o f) (hd : f.diff = .deleted ∨ f.diff = .moved) :
    f.storedState.existing = true := by
  rcases hd with hd | hd
  · have hl := fileCompare_deleted_iff.mp (hf.compared.symm.trans hd)
    exact hf.present.resolve_left (by simp [hl])
  · exact (fileCompare_both (hf.compared.symm.trans hd) (by decide) (by decide)).2

/-- What an entry is like when a handler acts on it. -/
lemma active_diff (hact : activeHandler f = some h) :
    (h = .deleteFiles ∨ h = .deleteDirectories → f.diff = .deleted ∧ f.type ≠ .link) ∧
      (h = .moveFiles → f.diff = .moved) ∧
      (h = .createDirectories ∨ h = .files → f.diff = .new ∨ f.diff = .changed) ∧
      (h = .files → f.type = .file) := by
  cases hd : f.diff <;> cases ht : f.type <;> simp [activeHandler, hd, ht] at hact <;>
    subst hact <;> simp

/-- The paths of a call are those of the entry's existing states, or a temporary name. -/
lemma turnCall_targets (hf : EntryOk o f) (hact : activeHandler f = some h)
    (hc : TurnCall o f h c) : ∀ p ∈ targets c,
      (f.storedState.existing = true ∧ p = fileFullRemote f.storedState o) ∨
      (f.localState.existing = true ∧ p = fileFullRemote f.localState o) ∨
      p ∈ temporaryNames o f := by
  obtain ⟨hdeleted, hmoved, hwritten, hfile⟩ := active_diff hact
  have hlocal : h = .createDirectories ∨ h = .files → f.localState.existing = true := by
    intro hh
    apply localExisting_of hf
    rcases hwritten hh with hd | hd <;> simp [hd]
  have htemp : h = .files → o.tempupload = true →
      tempUploadFilename (fileFullRemote f.localState o) ∈ temporaryNames o f := by
    intro hh ht
    simp [temporaryNames, ht, hfile hh, hwritten (Or.inr hh)]
  intro p hp
  cases hc with
  | error | getModtime | createLink | changeLink | deleteLink => cases hp
  | deleteFile =>
    rw [List.mem_singleton.mp hp]
    exact Or.inl ⟨storedExisting_of hf (Or.inl (hdeleted (Or.inl rfl)).1), rfl⟩
  | removeDirectory =>
    rw [List.mem_singleton.mp hp]
    exact Or.inl ⟨storedExisting_of hf (Or.inl (hdeleted (Or.inr rfl)).1), rfl⟩
  | moveFile =>
    have hd := hmoved rfl
    rcases List.mem_cons.mp hp with rfl | hp
    · exact Or.inl ⟨storedExisting_of hf (Or.inr hd), rfl⟩
    · rw [List.mem_singleton.mp hp]
      exact Or.inr (Or.inl ⟨localExisting_of hf (by simp [hd]), rfl⟩)
  | createDirectory | chmodDirectory =>
    rw [List.mem_singleton.mp hp]
    exact Or.inr (Or.inl ⟨hlocal (Or.inl rfl), rfl⟩)
  | replaceFile | upload | uploadCond | chmodFile =>
    rw [List.mem_singleton.mp hp]
    exact Or.inr (Or.inl ⟨hlocal (Or.inr rfl), rfl⟩)
  | uploadTemp ht =>
    rw [List.mem_singleton.mp hp]
    exact Or.inr (Or.inr (htemp rfl ht))
  | moveTemp ht =>
    rcases List.mem_cons.mp hp with rfl | hp
    · exact Or.inr (Or.inr (htemp rfl ht))
    · rw [List.mem_singleton.mp hp]
      exact Or.inr (Or.inl ⟨hlocal (Or.inr rfl), rfl⟩)

lemma turnCall_removals (hact : activeHandler f = some h) (hguard : (h, true) ∈ handlerTable o)
    (hc : TurnCall o f h c) : ∀ p ∈ removals c, p ∈ removedPaths o f := by
  obtain ⟨hdeleted, hmoved, hwritten, hfile⟩ := active_diff hact
  have hdelete : h = .deleteFiles ∨ h = .deleteDirectories →
      fileFullRemote f.storedState o ∈ removedPaths o f := by
    intro hh
    obtain ⟨hd, ht⟩ := hdeleted hh
    have hno : o.nodelete = false := by
      rcases hh with rfl | rfl <;> simpa [handlerTable] using hguard
    simp [removedPaths, hd, ht, hno]
  intro p hp
  cases hc with
  | deleteFile =>
    rw [List.mem_singleton.mp hp]
    exact hdelete (Or.inl rfl)
  | removeDirectory =>
    rw [List.mem_singleton.mp hp]
    exact hdelete (Or.inr rfl)
  | moveFile => simpa [removedPaths, hmoved rfl, removals] using hp
  | replaceFile hd hno =>
    rw [List.mem_singleton.mp hp]
    simp [removedPaths, hd, hno, hfile rfl]
  | moveTemp ht =>
    have htype := hfile rfl
    have hmem : p = tempUploadFilename (fileFullRemote f.localState o) ∨
        p = fileFullRemote f.localState o := by simpa [removals] using hp
    rcases hwritten (Or.inr rfl) with hd | hd <;>
      simpa [removedPaths, temporaryNames, hd, ht, htype] using hmem.symm
  | _ => cases hp

end Reach

/-- What the update has no use for is out of reach of its calls. -/
lemma outOfReach_of_foreign {kind : Removal} {site : Site} {p : Text}
    (hentries : ∀ f ∈ site.files, EntryOk site.opts f) (hp : Foreign kind site p)
    {a : Option ℕ} {c : DriverCall} (hc : UpdateCall site.opts site.files a c) :
    OutOfReach kind c p := by
  cases hc with
  | session h =>
    rcases h with rfl | rfl | rfl
    all_goals exact ⟨by simp [targets], by simp [removals]⟩
  | @turn f h _ hf hact hguard hturn =>
    constructor
    · intro hmem
      rcases turnCall_targets (hentries f hf) hact hturn p hmem with ⟨hs, rfl⟩ | ⟨hl, rfl⟩ | htemp
      · exact hp.stored f hf hs rfl
      · exact hp.scanned f hf hl rfl
      · exact hp.temporary f hf htemp
    · intro hkind d hd
      exact hp.outside hkind f hf d (turnCall_removals hact hguard hturn d hd)

/-! ### A temporary name that is taken -/

/-- A server with files only, which does what it is told. -/
def answer : DriverCall → (Text → Option Text) → Reply × (Text → Option Text)
  | .fileUpload _ remote _, s => ({ code := SITE_OK }, Function.update s remote (some (ascii "new")))
  | .fileMove src dst, s =>
    ({ code := SITE_OK }, Function.update (Function.update s dst (s src)) src none)
  | .fileDelete path, s => ({ code := SITE_OK }, Function.update s path none)
  | _, s => ({ code := SITE_OK }, s)

def filesOnly : RemoteSite (Text → Option Text) Text where
  kind := .emptyOnly
  env := { exec := answer, canUpdate := fun _ s => (true, s) }
  objects s := s
  exec c s p h _ := by
    have htargets := h.1
    cases c with
    | fileUpload a remote b => exact Function.update_of_ne (by simpa [targets] using htargets) _ _
    | fileDelete path => exact Function.update_of_ne (by simpa [targets] using htargets) _ _
    | fileMove src dst =>
      obtain ⟨hsrc, hdst⟩ : p ≠ src ∧ p ≠ dst := by simpa [targets] using htargets
      exact (Function.update_of_ne hsrc _ _).trans (Function.update_of_ne hdst _ _)
    | _ => rfl
  refuse _ _ _ _ := rfl
  ask _ _ := rfl

/-- A site with one new file. -/
def newFileSite : Site :=
  (fileSetLocal .file { filename := some (ascii "a"), existing := true }
    { opts := { tempupload := true } }).1

/-- Two files on the server that sitecopy does not know. -/
def strangers : Text → Option Text := fun p =>
  if p = ascii ".in.a" ∨ p = ascii "b" then some (ascii "kept") else none

end Sitecopy.ForeignObjects
