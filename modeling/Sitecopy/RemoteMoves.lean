import Sitecopy.Renames
import Sitecopy.UpdateRecords

/-!
# The renames of `update_move_files`

The moved entries of a list stand for one simultaneous renaming, and `update_move_files`
sends them one at a time in list order.
-/
namespace Sitecopy.RemoteMoves
open SiteModel FileSet FileSetSpec StateProgram SiteUpdate UpdateAccounting SiteInvariants Renames

/-- A driver whose sessions hold the contents of the remote files. A successful `file_move`
moves a file that is there, and replaces what was at the new path. -/
structure MovingDriver (σ : Type) where
  env : Env σ
  contents : σ → Text → Option Text
  moved : ∀ src dst s, (env.exec (.fileMove src dst) s).1.code = SITE_OK →
    (contents s src).isSome ∧
      contents (env.exec (.fileMove src dst) s).2 = (Rename.mk src dst).apply (contents s)
  ask : ∀ f s, contents (env.canUpdate f s).2 = contents s

variable {σ : Type} {D : MovingDriver σ} {o : SiteOptions} {f g : SiteFile} {r : Run σ}

/-- From the stored to the local name. -/
def moveOf (o : SiteOptions) (f : SiteFile) : Rename Text :=
  ⟨fileFullRemote f.storedState o, fileFullRemote f.localState o⟩

/-- Every `file_move` returned `SITE_OK`. -/
def AllMoved (trace : List Event) : Prop :=
  ∀ a src dst code, Event.call a (.fileMove src dst) code ∈ trace → code = SITE_OK

/-- The file of the entry was moved. -/
def MoveMade (trace : List Event) (f : SiteFile) : Prop :=
  ∃ src dst code, Event.call (some f.addr) (.fileMove src dst) code ∈ trace

lemma AllMoved.of_append {s t : List Event} (h : AllMoved (s ++ t)) : AllMoved s :=
  fun a src dst code he => h a src dst code (List.mem_append_left t he)

lemma AllMoved.append {s t : List Event} (hs : AllMoved s) (ht : AllMoved t) :
    AllMoved (s ++ t) := by
  intro a src dst code he
  rcases List.mem_append.mp he with he | he
  · exact hs a src dst code he
  · exact ht a src dst code he

/-- `update_move_files` run on a site. -/
def movePass (env : Env σ) (site : Site) (sess : σ) : (List SiteFile × Bool) × Run σ :=
  (updateMoveFiles env site.opts site.files).run { stats := site.stats, sess := sess }

/-- The stored regular files are there. What they contain is not known from their names. -/
def HoldsStored (site : Site) (contents : Text → Option Text) : Prop :=
  ∀ f ∈ site.files, f.type = .file → f.storedState.existing = true →
    (contents (fileFullRemote f.storedState site.opts)).isSome

/-- If every move succeeds, each moved file has its contents at the local name. -/
def MovesKept (D : MovingDriver σ) (site : Site) (sess : σ) : Prop :=
  AllMoved (movePass D.env site sess).2.trace →
    ∀ f ∈ site.files, f.diff = .moved → MoveMade (movePass D.env site sess).2.trace f →
      D.contents (movePass D.env site sess).2.sess (fileFullRemote f.localState site.opts) =
        D.contents sess (fileFullRemote f.storedState site.opts)

/-! ### The moves of a pass -/

/-- The moves made so far, in list order, are those of the entries in `ms`. -/
structure MovesSoFar (D : MovingDriver σ) (o : SiteOptions) (sess : σ) (ms : List SiteFile)
    (r : Run σ) : Prop where
  owners : ∀ f, MoveMade r.trace f → ∃ g ∈ ms, g.addr = f.addr
  runs : Runs (ms.map (moveOf o)) (D.contents sess) (D.contents r.sess)

/-- One turn of `update_move_files` makes no move, or that of its entry, or fails. -/
lemma updateMoveFile_moves {sess : σ} {ms : List SiteFile}
    (hr : AllMoved r.trace → MovesSoFar D o sess ms r) :
    Ends (updateMoveFile D.env o f) r fun _ r' => AllMoved r'.trace →
      MovesSoFar D o sess ms r' ∨ f.diff = .moved ∧ MovesSoFar D o sess (ms ++ [f]) r' := by
  unfold updateMoveFile
  simp only [ends_ite, ends_bind, ends_pure, ends_feCanUpdate, ends_call, ends_driverErr,
    ends_fileUploaded]
  split_ifs with hd hcan hcode
  · intro hall
    exact absurd (hall.of_append _ _ _ _ (List.mem_append_right _ (List.mem_singleton_self _))) hcode
  · rw [ne_eq, not_not] at hcode
    intro hall
    have hsofar := hr hall.of_append.of_append
    obtain ⟨hsome, hmove⟩ := D.moved _ _ _ hcode
    rw [D.ask f r.sess] at hsome hmove
    refine Or.inr ⟨hd, fun g hg => ?_, ?_⟩
    · obtain ⟨src, dst, code, hg⟩ := hg
      simp only [List.append_assoc, List.mem_append, List.mem_singleton] at hg
      rcases hg with hg | hg | hg
      · obtain ⟨k, hk, ha⟩ := hsofar.owners g ⟨src, dst, code, hg⟩
        exact ⟨k, List.mem_append_left _ hk, ha⟩
      · exact ⟨f, by simp, by injection hg with ha; exact (Option.some.inj ha).symm⟩
      · cases hg
    · rw [List.map_append, hmove]
      exact hsofar.runs.snoc hsome
  · intro hall
    have hsofar := hr hall
    exact Or.inl ⟨hsofar.owners, by rw [D.ask f r.sess]; exact hsofar.runs⟩
  · exact fun hall => Or.inl (hr hall)

/-- A pass in which every move succeeded made some of the moves of the list, in its order. -/
lemma updateMoveFiles_moves (D : MovingDriver σ) (files : List SiteFile) (st : Stats) (sess : σ) :
    Ends (updateMoveFiles D.env o files) { stats := st, sess := sess } fun _ r =>
      AllMoved r.trace → ∃ ms : List SiteFile, ms.Sublist (files.filter (·.diff = .moved)) ∧
        MovesSoFar D o sess ms r := by
  apply (forEach_ends (I := fun _ rest _ r => AllMoved r.trace → ∃ pre ms : List SiteFile,
    files = pre ++ rest ∧ ms.Sublist (pre.filter (·.diff = .moved)) ∧ MovesSoFar D o sess ms r)
    _ _).mono
  · rintro out r h hall
    obtain ⟨pre, ms, hfiles, hms, hsofar⟩ := h hall
    rw [List.append_nil] at hfiles
    exact ⟨ms, hfiles ▸ hms, hsofar⟩
  · intro done f rest failed r hI
    by_cases hall : AllMoved r.trace
    · obtain ⟨pre, ms, hfiles, hms, hsofar⟩ := hI hall
      apply (updateMoveFile_moves fun _ => hsofar).mono
      intro out r' hturn hall'
      rcases hturn hall' with hsame | ⟨hd, hnext⟩
      · refine ⟨pre ++ [f], ms, by rw [hfiles, List.append_assoc, List.singleton_append], ?_, hsame⟩
        rw [List.filter_append]
        exact hms.trans (List.sublist_append_left _ _)
      · refine ⟨pre ++ [f], ms ++ [f], by rw [hfiles, List.append_assoc, List.singleton_append],
          ?_, hnext⟩
        rw [List.filter_append, List.filter_singleton, decide_eq_true hd]
        exact hms.append (List.Sublist.refl _)
    · apply (@updateMoveFile_turn _ D.env o f r).mono
      rintro out r' ⟨seg, hseg, _⟩ hall'
      rw [hseg] at hall'
      exact absurd hall'.of_append hall
  · exact fun _ => ⟨[], [], rfl, List.Sublist.refl _, ⟨fun f ⟨_, _, _, h⟩ => (by cases h), rfl⟩⟩

/-- Moves of which none disturbs an earlier one are all kept. -/
lemma movesKept_of_undisturbed (site : Site) (wl : WellLinked site) (sess : σ)
    (h : (site.files.filter (·.diff = .moved)).Pairwise fun f g =>
      Undisturbed (moveOf site.opts f) (moveOf site.opts g)) : MovesKept D site sess := by
  intro hall f hf _ hmade
  obtain ⟨ms, hms, hsofar⟩ := updateMoveFiles_moves D site.files site.stats sess hall
  obtain ⟨g, hg, ha⟩ := hsofar.owners f hmade
  have hgf : g = f := by
    apply List.inj_on_of_nodup_map wl.nodup _ hf ha
    exact List.mem_of_mem_filter (hms.subset hg)
  have hpair : (ms.map (moveOf site.opts)).Pairwise Undisturbed :=
    List.pairwise_map.mpr (h.sublist hms)
  exact hsofar.runs.simultaneous hpair _ (List.mem_map_of_mem (hgf ▸ hg))

/-! ### A server that moves files -/

/-- A `file_move` on the remote files themselves. -/
def answerMove (src dst : Text) (s : Text → Option Text) : Reply × (Text → Option Text) :=
  if (s src).isSome then ({ code := SITE_OK }, (Rename.mk src dst).apply s)
  else ({ code := SITE_FAILED }, s)

lemma answerMove_ok {src dst : Text} {s : Text → Option Text}
    (h : (answerMove src dst s).1.code = SITE_OK) :
    (s src).isSome ∧ (answerMove src dst s).2 = (Rename.mk src dst).apply s := by
  unfold answerMove at h ⊢
  split_ifs at h ⊢ with hs
  · exact ⟨hs, rfl⟩
  · exact absurd (show SITE_FAILED = SITE_OK from h) (by decide)

/-- The remote files, for a user who lets only some entries be moved. -/
def filesDriver (allowed : SiteFile → Bool) : MovingDriver (Text → Option Text) where
  env := {
    exec := fun c s => match c with
      | .fileMove src dst => answerMove src dst s
      | _ => ({ code := SITE_OK }, s)
    canUpdate := fun f s => (allowed f, s) }
  contents := id
  moved _ _ _ h := answerMove_ok h
  ask _ _ := rfl

/-- The entries that are moved under it. -/
def movedUnder (allowed : SiteFile → Bool) (files : List SiteFile) : List SiteFile :=
  files.filter fun f => f.diff = .moved && allowed f

lemma filesDriver_turn {allowed : SiteFile → Bool} {R : Text → Option Text} {rest : List SiteFile}
    {r : Run (Text → Option Text)} (hall : AllMoved r.trace)
    (hruns : Runs ((movedUnder allowed (f :: rest)).map (moveOf o)) r.sess R) :
    Ends (updateMoveFile (filesDriver allowed).env o f) r fun _ r' =>
      AllMoved r'.trace ∧ Runs ((movedUnder allowed rest).map (moveOf o)) r'.sess R ∧
        (f.diff = .moved → allowed f = true → MoveMade r'.trace f) ∧
          ∀ g, MoveMade r.trace g → MoveMade r'.trace g := by
  rw [movedUnder, List.filter_cons] at hruns
  unfold updateMoveFile
  by_cases hd : f.diff = .moved
  · rw [if_pos hd]
    simp only [ends_bind, ends_feCanUpdate]
    cases hcan : allowed f with
    | false =>
      simp only [hcan, Bool.and_false, Bool.false_eq_true, ↓reduceIte] at hruns
      simp only [filesDriver, hcan, Bool.false_eq_true, ↓reduceIte, ends_pure]
      exact ⟨hall, hruns, fun _ h => h.elim, fun _ h => h⟩
    | true =>
      simp only [hd, hcan, decide_true, Bool.and_self, ↓reduceIte, List.map_cons] at hruns
      obtain ⟨hsome, hruns⟩ := hruns
      have hsome' : (r.sess (fileFullRemote f.storedState o)).isSome := hsome
      simp only [filesDriver, answerMove, hcan, ↓reduceIte, ends_bind, ends_call, hsome', ends_ite,
        ne_eq, not_true_eq_false, ends_fileUploaded, ends_pure]
      refine ⟨AllMoved.append (hall.append ?_) ?_, hruns, fun _ _ => ?_, fun g hg => ?_⟩
      · intro a src dst code he
        injection List.mem_singleton.mp he
      · intro a src dst code he
        cases List.mem_singleton.mp he
      · exact ⟨fileFullRemote f.storedState o, fileFullRemote f.localState o, SITE_OK, by simp⟩
      · obtain ⟨src, dst, code, hg⟩ := hg
        exact ⟨src, dst, code, by simp [hg]⟩
  · rw [if_neg hd, ends_pure]
    simp only [hd, decide_false, Bool.false_and, Bool.false_eq_true, ↓reduceIte] at hruns
    exact ⟨hall, hruns, fun h => absurd h hd, fun _ h => h⟩

/-- A run of the allowed moves is a run of the pass. -/
lemma filesDriver_pass {allowed : SiteFile → Bool} {R R' : Text → Option Text}
    (files : List SiteFile) (st : Stats)
    (hruns : Runs ((movedUnder allowed files).map (moveOf o)) R R') :
    Ends (updateMoveFiles (filesDriver allowed).env o files) { stats := st, sess := R } fun _ r =>
      AllMoved r.trace ∧ r.sess = R' ∧ ∀ f ∈ movedUnder allowed files, MoveMade r.trace f := by
  apply (forEach_ends (I := fun _ rest _ r => ∃ pre, files = pre ++ rest ∧ AllMoved r.trace ∧
    Runs ((movedUnder allowed rest).map (moveOf o)) r.sess R' ∧
      ∀ f ∈ movedUnder allowed pre, MoveMade r.trace f) _ _).mono
  · rintro out r ⟨pre, hfiles, hall, hrest, hmade⟩
    rw [List.append_nil] at hfiles
    exact ⟨hall, (show R' = r.sess from hrest).symm, hfiles ▸ hmade⟩
  · rintro done f rest failed r ⟨pre, hfiles, hall, hrest, hmade⟩
    apply (filesDriver_turn hall hrest).mono
    rintro out r' ⟨hall', hrest', hown, hkept⟩
    refine ⟨pre ++ [f], by rw [hfiles, List.append_assoc, List.singleton_append], hall', hrest',
      fun g hg => ?_⟩
    rw [movedUnder, List.filter_append] at hg
    rcases List.mem_append.mp hg with hg | hg
    · exact hkept g (hmade g hg)
    · obtain ⟨hgf, hp⟩ := List.mem_filter.mp hg
      obtain rfl := List.mem_singleton.mp hgf
      obtain ⟨hd, ha⟩ := Bool.and_eq_true_iff.mp hp
      exact hown (of_decide_eq_true hd) ha
  · exact ⟨[], rfl, fun _ _ _ _ h => (by cases h), hruns, fun f hf => (by cases hf)⟩

/-- Then the pass keeps the files only if the run does. -/
lemma MovesKept.simultaneous {allowed : SiteFile → Bool} {R R' : Text → Option Text} {site : Site}
    (h : MovesKept (filesDriver allowed) site R)
    (hruns : Runs ((movedUnder allowed site.files).map (moveOf site.opts)) R R') :
    Simultaneous ((movedUnder allowed site.files).map (moveOf site.opts)) R R' := by
  obtain ⟨hall, hsess, hmade⟩ := filesDriver_pass site.files site.stats hruns
  intro m hm
  obtain ⟨f, hf, rfl⟩ := List.mem_map.mp hm
  obtain ⟨hfile, hp⟩ := List.mem_filter.mp hf
  have hd := of_decide_eq_true (Bool.and_eq_true_iff.mp hp).1
  have hkept := h hall f hfile hd (hmade f hf)
  rwa [show (movePass (filesDriver allowed).env site R).2.sess = R' from hsess] at hkept

/-- In a list without duplicates, two elements are filtered out in their order. -/
lemma filter_pair {l : List SiteFile} (hnd : l.Nodup) (h : [f, g].Sublist l) :
    l.filter (fun k => k = f || k = g) = [f, g] := by
  have hsub : [f, g].Sublist (l.filter fun k => k = f || k = g) := by
    have hpair : [f, g].filter (fun k => k = f || k = g) = [f, g] := by simp
    rw [← hpair]
    exact h.filter _
  refine (hsub.eq_of_length_le ?_).symm
  apply (List.Nodup.subperm (hnd.filter _) _).length_le
  intro k hk
  simpa using (List.mem_filter.mp hk).2

/-- Whatever the remote files contain and whatever the user allows, the moved files are kept in
exactly those lists in which no move disturbs an earlier one. -/
theorem movesKept_iff (site : Site) (wl : WellLinked site) :
    (∀ (σ : Type) (D : MovingDriver σ) (sess : σ), HoldsStored site (D.contents sess) →
      MovesKept D site sess) ↔
    (site.files.filter (·.diff = .moved)).Pairwise fun f g =>
      Undisturbed (moveOf site.opts f) (moveOf site.opts g) := by
  refine ⟨fun hkept => ?_, fun h σ D sess _ => movesKept_of_undisturbed site wl sess h⟩
  rw [List.pairwise_iff_forall_sublist]
  intro f g hsub
  by_contra hdist
  obtain ⟨R', hruns, hlost⟩ := disturbed_pair hdist
  let allowed : SiteFile → Bool := fun k => k = f || k = g
  have hmoved : movedUnder allowed site.files = [f, g] := by
    rw [movedUnder, ← List.filter_filter, List.filter_filter, ← filter_pair
      (wl.files_nodup.filter _) hsub, List.filter_filter]
    exact List.filter_congr fun k _ => Bool.and_comm _ _
  have hkeep := hkept _ (filesDriver allowed) ownContents fun _ _ _ _ => rfl
  have hsim := hkeep.simultaneous (by rw [hmoved]; exact hruns)
  rw [hmoved] at hsim
  exact hlost hsim

/-! ### Two files that exchange their directories -/

def writtenAt (name : String) (time : ℤ) : FileState where
  filename := some (ascii name)
  existing := true
  time := time

def exchangedOptions : SiteOptions := { checkmoved := true }

/-- The stored files are read, and then the local ones. -/
def exchangedSite : Site :=
  (fileSetLocal .file (writtenAt "b/x" 1) (fileSetLocal .file (writtenAt "a/x" 2)
    (fileSetStored .file (writtenAt "b/x" 2) (fileSetStored .file (writtenAt "a/x" 1)
      { opts := exchangedOptions }).1).1).1).1

lemma exchangedSite_reachable : Reachable exchangedOptions exchangedSite :=
  .setLocal _ _ (.setLocal _ _ (.setStored _ _ (.setStored _ _ .empty rfl) rfl) rfl) rfl

theorem movesKept_iff_exchanged :
    (∀ (σ : Type) (D : MovingDriver σ) (sess : σ), HoldsStored exchangedSite (D.contents sess) →
      MovesKept D exchangedSite sess) ↔
    (exchangedSite.files.filter (·.diff = .moved)).Pairwise fun f g =>
      Undisturbed (moveOf exchangedSite.opts f) (moveOf exchangedSite.opts g) :=
  movesKept_iff exchangedSite exchangedSite_reachable.exactSite.linked

/-- From `b/x` to `a/x`. -/
def firstMoved : SiteFile where
  addr := 1
  diff := .moved
  localState := writtenAt "a/x" 2
  storedState := writtenAt "b/x" 2

/-- And back. -/
def secondMoved : SiteFile where
  addr := 0
  diff := .moved
  localState := writtenAt "b/x" 1
  storedState := writtenAt "a/x" 1

lemma exchangedSite_files : exchangedSite.files = [firstMoved, secondMoved] := by
  decide +kernel

/-- The file `a/x` is replaced before it is moved. -/
theorem exchanged_lost :
    rcfileVerify exchangedOptions = .ok () ∧ Reachable exchangedOptions exchangedSite ∧
      HoldsStored exchangedSite ownContents ∧
      ¬ MovesKept (filesDriver fun _ => true) exchangedSite ownContents := by
  refine ⟨rfl, exchangedSite_reachable, fun _ _ _ _ => rfl, fun h => ?_⟩
  have hopts := exchangedSite_reachable.opts_eq
  have hmoved : movedUnder (fun _ => true) exchangedSite.files = [firstMoved, secondMoved] := by
    rw [exchangedSite_files]
    rfl
  have hsrc : (moveOf exchangedOptions firstMoved).dst =
      (moveOf exchangedOptions secondMoved).src := rfl
  have hnames : (moveOf exchangedOptions secondMoved).src ≠
      (moveOf exchangedOptions secondMoved).dst := by decide +kernel
  have hruns : Runs [moveOf exchangedOptions firstMoved, moveOf exchangedOptions secondMoved]
      ownContents ((moveOf exchangedOptions secondMoved).apply
        ((moveOf exchangedOptions firstMoved).apply ownContents)) :=
    ⟨rfl, by rw [← hsrc, Rename.apply_dst]; rfl, rfl⟩
  have hsim := h.simultaneous (by rw [hmoved, hopts]; exact hruns)
  rw [hmoved, hopts] at hsim
  have hfirst := hsim (moveOf exchangedOptions firstMoved) (by simp)
  rw [hsrc, Rename.apply_src hnames] at hfirst
  cases hfirst

end Sitecopy.RemoteMoves
