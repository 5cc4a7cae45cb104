import Sitecopy.Paths
import Sitecopy.Renames

/-!
# Changes to a tree of files

A tree maps paths to directories and to files with their contents. A change needs the
directories above its path, and a list of changes runs from left to right. A plan turns one
tree into another: it removes files, makes directories, stores files and removes directories.
-/
namespace Sitecopy.FileTrees
open Paths Renames

/-! ### Trees -/

inductive Node (β : Type)
  | dir
  | file (content : β)
  deriving DecidableEq, Repr

abbrev Tree (α β : Type) := List α → Option (Node β)

variable {α β : Type} {sep : α} {p q : List α}

/-- There is a file at the path. -/
def IsFile (t : Tree α β) (p : List α) : Prop := ∃ c, t p = some (.file c)

/-- What is above a path is a directory. -/
def Reaches (sep : α) (t : Tree α β) (p : List α) : Prop := ∀ q, Below sep p q → t q = some .dir

/-- The directories above everything in the tree are there. -/
def Closed (sep : α) (t : Tree α β) : Prop := ∀ p, t p ≠ none → Reaches sep t p

lemma IsFile.not_dir {t : Tree α β} (h : IsFile t p) : t p ≠ some .dir := by
  obtain ⟨c, hc⟩ := h
  rw [hc]
  rintro ⟨⟩

/-- A path leads to nothing, to a directory, or to a file. -/
lemma node_cases (t : Tree α β) (p : List α) : t p = none ∨ t p = some .dir ∨ IsFile t p := by
  rcases h : t p with _ | _ | c
  · exact Or.inl rfl
  · exact Or.inr (Or.inl rfl)
  · exact Or.inr (Or.inr ⟨c, h⟩)

/-- What is not a directory has nothing in it. -/
lemma Closed.none_below {t : Tree α β} (h : Closed sep t) (hp : t p ≠ some .dir)
    (hq : Below sep q p) : t q = none := by
  by_contra hne
  exact hp (h q hne p hq)

/-- The tree with the nodes of `v` at some paths. -/
def overwrite [DecidableEq α] (v t : Tree α β) (ps : List (List α)) : Tree α β :=
  fun p => if p ∈ ps then v p else t p

section Overwrite
variable [DecidableEq α] {v t : Tree α β} {ps : List (List α)}

@[simp] lemma overwrite_nil : overwrite v t [] = t := rfl

lemma overwrite_mem (h : p ∈ ps) : overwrite v t ps p = v p := if_pos h

lemma overwrite_notMem (h : p ∉ ps) : overwrite v t ps p = t p := if_neg h

lemma overwrite_concat (v t : Tree α β) (ps : List (List α)) (p : List α) :
    overwrite v t (ps ++ [p]) = Function.update (overwrite v t ps) p (v p) := by
  funext q
  by_cases hq : q = p
  · subst hq
    rw [overwrite_mem (by simp), Function.update_self]
  · rw [Function.update_of_ne hq]
    by_cases hmem : q ∈ ps
    · rw [overwrite_mem hmem, overwrite_mem (List.mem_append_left _ hmem)]
    · rw [overwrite_notMem hmem, overwrite_notMem (by simp [hq, hmem])]

end Overwrite

/-! ### Changes -/

inductive Change (α β : Type)
  | mkdir (path : List α)
  | write (path : List α) (content : β)
  | unlink (path : List α)
  | rmdir (path : List α)
  | rename (src dst : List α)
  | chmod (path : List α)

/-- The change succeeds. -/
def Change.Enabled (sep : α) (t : Tree α β) : Change α β → Prop
  | .mkdir p => t p = none ∧ Reaches sep t p
  | .write p _ => t p ≠ some .dir ∧ Reaches sep t p
  | .unlink p => IsFile t p
  | .rmdir p => t p = some .dir ∧ ∀ q, Below sep q p → t q = none
  | .rename src dst => IsFile t src ∧ t dst ≠ some .dir ∧ Reaches sep t dst
  | .chmod p => t p ≠ none

/-- The tree after a change that succeeds. -/
def Change.effect [DecidableEq α] (t : Tree α β) : Change α β → Tree α β
  | .mkdir p => Function.update t p (some .dir)
  | .write p c => Function.update t p (some (.file c))
  | .unlink p | .rmdir p => Function.update t p none
  | .rename src dst => (Rename.mk src dst).apply t
  | .chmod _ => t

section Runs
variable [DecidableEq α] {t u v : Tree α β} {cs ds : List (Change α β)}

/-- The changes succeed one after the other and lead from `t` to `u`. -/
def Runs (sep : α) : List (Change α β) → Tree α β → Tree α β → Prop
  | [], t, u => u = t
  | c :: cs, t, u => c.Enabled sep t ∧ Runs sep cs (c.effect t) u

@[simp] lemma runs_nil : Runs sep [] t u ↔ u = t := Iff.rfl

@[simp] lemma runs_cons {c : Change α β} :
    Runs sep (c :: cs) t u ↔ c.Enabled sep t ∧ Runs sep cs (c.effect t) u := Iff.rfl

lemma Runs.append (h : Runs sep cs t u) (h' : Runs sep ds u v) : Runs sep (cs ++ ds) t v := by
  induction cs generalizing t with
  | nil =>
    obtain rfl := h
    exact h'
  | cons c cs ih => exact ⟨h.1, ih h.2⟩

/-- A directory stays as long as it is not removed. -/
lemma Change.Enabled.keeps_dir {c : Change α β} (h : c.Enabled sep t) (hc : ∀ p, c ≠ .rmdir p)
    (hq : t q = some .dir) : c.effect t q = some .dir := by
  cases c with
  | rmdir p => exact absurd rfl (hc p)
  | mkdir p =>
    have hne : q ≠ p := by
      rintro rfl
      rw [h.1] at hq
      cases hq
    exact (Function.update_of_ne hne _ _).trans hq
  | write p c =>
    have hne : q ≠ p := by
      rintro rfl
      exact h.1 hq
    exact (Function.update_of_ne hne _ _).trans hq
  | unlink p =>
    have hne : q ≠ p := by
      rintro rfl
      exact h.not_dir hq
    exact (Function.update_of_ne hne _ _).trans hq
  | rename src dst =>
    have hsrc : q ≠ src := by
      rintro rfl
      exact h.1.not_dir hq
    have hdst : q ≠ dst := by
      rintro rfl
      exact h.2.1 hq
    exact (Rename.apply_other hsrc hdst).trans hq
  | chmod p => exact hq

/-- A run that treats one path after the other. -/
lemma runs_blocks (bs : List (List α × List (Change α β)))
    (h : ∀ pre b post, bs = pre ++ b :: post → Runs sep b.2 (overwrite v t (pre.map Prod.fst))
      (Function.update (overwrite v t (pre.map Prod.fst)) b.1 (v b.1))) :
    Runs sep (bs.flatMap Prod.snd) t (overwrite v t (bs.map Prod.fst)) := by
  induction bs using List.reverseRecOn with
  | nil => rfl
  | append_singleton bs b ih =>
    rw [List.flatMap_append, List.flatMap_singleton, List.map_append, List.map_singleton,
      overwrite_concat]
    apply Runs.append _ (h bs b [] rfl)
    apply ih
    intro pre c post hbs
    exact h pre c (post ++ [b]) (by simp [hbs])

/-- A run that makes one change to one path after the other. -/
lemma runs_each (change : List α → Change α β) (ps : List (List α))
    (h : ∀ pre p post, ps = pre ++ p :: post → (change p).Enabled sep (overwrite v t pre) ∧
      (change p).effect (overwrite v t pre) = Function.update (overwrite v t pre) p (v p)) :
    Runs sep (ps.map change) t (overwrite v t ps) := by
  induction ps using List.reverseRecOn with
  | nil => rfl
  | append_singleton ps p ih =>
    rw [List.map_append, List.map_singleton, overwrite_concat]
    obtain ⟨henabled, heffect⟩ := h ps p [] rfl
    refine Runs.append ?_ (show Runs sep [change p] _ _ from ⟨henabled, heffect.symm⟩)
    apply ih
    intro pre q post hps
    exact h pre q (post ++ [p]) (by simp [hps])

end Runs

/-! ### From one tree to another -/

section Plan
variable [DecidableEq α] {S T : Tree α β}

/-- What is to be done to turn `S` into `T`: the files that are removed first, the directories
and the files with the changes that make them, and the directories that are removed last. A
file that becomes a directory has to be removed first; no directory becomes a file. -/
structure Plan (sep : α) (S T : Tree α β) where
  gone : List (List α)
  dirs : List (List α × List (Change α β))
  files : List (List α × List (Change α β))
  olds : List (List α)
  closedSource : Closed sep S
  closedTarget : Closed sep T
  kept : ∀ p, S p = some .dir → ¬ IsFile T p
  goneNodup : gone.Nodup
  gone_file : ∀ p ∈ gone, IsFile S p ∧ ¬ IsFile T p
  gone_of_dir : ∀ p, IsFile S p → T p = some .dir → p ∈ gone
  gone_of_file : ∀ p, IsFile S p → ¬ IsFile T p → p ∈ gone ∨ p ∈ files.map Prod.fst
  dirsNodup : (dirs.map Prod.fst).Nodup
  dirsOrdered : ParentsFirst sep (dirs.map Prod.fst)
  dirs_dir : ∀ b ∈ dirs, T b.1 = some .dir
  mem_dirs : ∀ p, T p = some .dir → S p ≠ some .dir → p ∈ dirs.map Prod.fst
  makes : ∀ b ∈ dirs, ∀ t : Tree α β, (S b.1 = some .dir → t b.1 = some .dir) →
    (S b.1 ≠ some .dir → t b.1 = none) → Reaches sep t b.1 →
      Runs sep b.2 t (Function.update t b.1 (some .dir))
  filesNodup : (files.map Prod.fst).Nodup
  files_cases : ∀ b ∈ files, b.1 ∉ gone ∧ (IsFile T b.1 ∨ IsFile S b.1 ∧ T b.1 = none)
  mem_files : ∀ p, IsFile T p → p ∈ files.map Prod.fst ∨ S p = T p
  stores : ∀ b ∈ files, ∀ t : Tree α β, t b.1 = S b.1 → Reaches sep t b.1 →
    (∀ q, S q = none → T q = none → t q = none) →
      Runs sep b.2 t (Function.update t b.1 (T b.1))
  oldsNodup : olds.Nodup
  oldsOrdered : ParentsFirst sep olds.reverse
  mem_olds : ∀ p, p ∈ olds ↔ S p = some .dir ∧ T p ≠ some .dir

namespace Plan
variable (P : Plan sep S T)

/-- The changes in their order. -/
def changes : List (Change α β) :=
  P.gone.map .unlink ++ P.dirs.flatMap Prod.snd ++ P.files.flatMap Prod.snd ++
    P.olds.map .rmdir

def withoutFiles : Tree α β := overwrite (fun _ => none) S P.gone

def withDirs : Tree α β := overwrite T P.withoutFiles (P.dirs.map Prod.fst)

def withFiles : Tree α β := overwrite T P.withDirs (P.files.map Prod.fst)

lemma gone_ne (h : p ∈ P.gone) : S p ≠ some .dir := (P.gone_file p h).1.not_dir

lemma target_of_dirs (h : p ∈ P.dirs.map Prod.fst) : T p = some .dir := by
  obtain ⟨b, hb, rfl⟩ := List.mem_map.mp h
  exact P.dirs_dir b hb

lemma cases_of_files (h : p ∈ P.files.map Prod.fst) :
    p ∉ P.gone ∧ (IsFile T p ∨ IsFile S p ∧ T p = none) := by
  obtain ⟨b, hb, rfl⟩ := List.mem_map.mp h
  exact P.files_cases b hb

lemma notMem_files (h : T p = some .dir) : p ∉ P.files.map Prod.fst := by
  intro hmem
  rcases (P.cases_of_files hmem).2 with hT | ⟨-, hT⟩
  · exact hT.not_dir h
  · rw [hT] at h
    cases h

/-- A directory that is needed is there once the directories are made. -/
lemma withDirs_dir (h : T p = some .dir ∨ S p = some .dir) : P.withDirs p = some .dir := by
  by_cases hmem : p ∈ P.dirs.map Prod.fst
  · rw [withDirs, overwrite_mem hmem]
    exact P.target_of_dirs hmem
  · have hS : S p = some .dir := by
      rcases h with hT | hS
      · by_contra hS
        exact hmem (P.mem_dirs p hT hS)
      · exact hS
    rw [withDirs, overwrite_notMem hmem, withoutFiles,
      overwrite_notMem fun hgone => P.gone_ne hgone hS]
    exact hS

/-- What neither tree has is never there. -/
lemma withDirs_none (hS : S p = none) (hT : T p = none) : P.withDirs p = none := by
  unfold withDirs withoutFiles overwrite
  split_ifs
  · exact hT
  · rfl
  · exact hS

lemma notMem_before {γ : Type} {l pre post : List γ} {a : γ} (h : l.Nodup)
    (hl : l = pre ++ a :: post) : a ∉ pre := by
  rw [hl] at h
  exact fun hmem => (List.nodup_append.mp h).2.2 a hmem a (by simp) rfl

lemma runs_gone : Runs sep (P.gone.map .unlink) S P.withoutFiles := by
  apply runs_each
  intro pre p post hps
  refine ⟨?_, rfl⟩
  change IsFile _ p
  unfold IsFile
  rw [overwrite_notMem (notMem_before P.goneNodup hps)]
  exact (P.gone_file p (by simp [hps])).1

lemma runs_dirs : Runs sep (P.dirs.flatMap Prod.snd) P.withoutFiles P.withDirs := by
  apply runs_blocks P.dirs
  intro pre b post hbs
  have hmem : b ∈ P.dirs := by simp [hbs]
  have hT := P.dirs_dir b hmem
  have hpaths : P.dirs.map Prod.fst = pre.map Prod.fst ++ b.1 :: post.map Prod.fst := by simp [hbs]
  have hp := notMem_before P.dirsNodup hpaths
  have hordered := P.dirsOrdered
  rw [hpaths] at hordered
  rw [hT]
  apply P.makes b hmem
  · intro hS
    rw [overwrite_notMem hp, withoutFiles, overwrite_notMem fun h => P.gone_ne h hS]
    exact hS
  · intro hS
    rw [overwrite_notMem hp, withoutFiles]
    by_cases hgone : b.1 ∈ P.gone
    · exact overwrite_mem hgone
    · rw [overwrite_notMem hgone]
      rcases node_cases S b.1 with hnone | hdir | hfile
      · exact hnone
      · exact absurd hdir hS
      · exact absurd (P.gone_of_dir b.1 hfile hT) hgone
  · intro q hq
    have hTq : T q = some .dir := P.closedTarget b.1 (by simp [hT]) q hq
    by_cases hmem : q ∈ P.dirs.map Prod.fst
    · -- the directories above come first
      have hpre : q ∈ pre.map Prod.fst := by
        rw [hpaths] at hmem
        rcases List.mem_append.mp hmem with h | h
        · exact h
        · rcases List.mem_cons.mp h with rfl | h
          · exact absurd hq fun hself => hself.irrefl
          · exact absurd hq ((List.pairwise_cons.mp (List.pairwise_append.mp hordered).2.1).1 q h)
      rw [overwrite_mem hpre]
      exact hTq
    · have hall := P.withDirs_dir (Or.inl hTq)
      rw [withDirs, overwrite_notMem hmem] at hall
      have hpre : q ∉ pre.map Prod.fst := fun h => hmem (by
        rw [hpaths]
        exact List.mem_append_left _ h)
      rw [overwrite_notMem hpre]
      exact hall

lemma runs_files : Runs sep (P.files.flatMap Prod.snd) P.withDirs P.withFiles := by
  apply runs_blocks P.files
  intro pre b post hbs
  have hmem : b ∈ P.files := by simp [hbs]
  have hpaths : P.files.map Prod.fst = pre.map Prod.fst ++ b.1 :: post.map Prod.fst := by simp [hbs]
  have hp := notMem_before P.filesNodup hpaths
  obtain ⟨hgone, hcases⟩ := P.files_cases b hmem
  apply P.stores b hmem
  · have hdir : b.1 ∉ P.dirs.map Prod.fst := fun hdir =>
      P.notMem_files (P.target_of_dirs hdir) (List.mem_map_of_mem hmem)
    rw [overwrite_notMem hp, withDirs, overwrite_notMem hdir, withoutFiles, overwrite_notMem hgone]
  · intro q hq
    -- what is above a file stays a directory until the end
    have habove : T q = some .dir ∨ S q = some .dir := by
      rcases hcases with ⟨c, hT⟩ | ⟨⟨c, hS⟩, -⟩
      · exact Or.inl (P.closedTarget b.1 (by simp [hT]) q hq)
      · exact Or.inr (P.closedSource b.1 (by simp [hS]) q hq)
    have hfiles : q ∉ P.files.map Prod.fst := by
      intro hfile
      rcases habove with hT | hS
      · exact P.notMem_files hT hfile
      · rcases (P.cases_of_files hfile).2 with hT | ⟨hfile', -⟩
        · exact P.kept q hS hT
        · exact hfile'.not_dir hS
    have hpre : q ∉ pre.map Prod.fst := fun h => hfiles (by
      rw [hpaths]
      exact List.mem_append_left _ h)
    rw [overwrite_notMem hpre]
    exact P.withDirs_dir habove
  · intro q hS hT
    by_cases hq : q ∈ pre.map Prod.fst
    · rw [overwrite_mem hq, hT]
    · rw [overwrite_notMem hq]
      exact P.withDirs_none hS hT

/-- A directory that is removed is as it was. -/
lemma withFiles_old (h : p ∈ P.olds) : P.withFiles p = some .dir := by
  obtain ⟨hS, -⟩ := (P.mem_olds p).mp h
  have hfile : p ∉ P.files.map Prod.fst := by
    intro hmem
    rcases (P.cases_of_files hmem).2 with hfile | ⟨hfile, -⟩
    · exact P.kept p hS hfile
    · exact hfile.not_dir hS
  rw [withFiles, overwrite_notMem hfile]
  exact P.withDirs_dir (Or.inr hS)

/-- Everything else is in place by then. -/
lemma withFiles_of_notMem (h : p ∉ P.olds) : P.withFiles p = T p := by
  unfold withFiles withDirs withoutFiles
  by_cases hfile : p ∈ P.files.map Prod.fst
  · exact overwrite_mem hfile
  rw [overwrite_notMem hfile]
  by_cases hdir : p ∈ P.dirs.map Prod.fst
  · exact overwrite_mem hdir
  rw [overwrite_notMem hdir]
  rw [P.mem_olds] at h
  replace hdir := fun hT => not_imp_comm.mp (P.mem_dirs p hT) hdir
  push Not at h
  by_cases hgone : p ∈ P.gone
  · rw [overwrite_mem hgone]
    obtain ⟨hS, hT⟩ := P.gone_file p hgone
    rcases node_cases T p with hnone | hTdir | hTfile
    · exact hnone.symm
    · exact absurd (hdir hTdir) hS.not_dir
    · exact absurd hTfile hT
  rw [overwrite_notMem hgone]
  rcases node_cases T p with hnone | hTdir | hTfile
  · rcases node_cases S p with hS | hS | hS
    · rw [hS, hnone]
    · rw [h hS] at hnone
      cases hnone
    · have hnot : ¬ IsFile T p := by
        rintro ⟨c, hc⟩
        rw [hc] at hnone
        cases hnone
      rcases P.gone_of_file p hS hnot with hmem | hmem
      · exact absurd hmem hgone
      · exact absurd hmem hfile
  · rw [hdir hTdir, hTdir]
  · exact (P.mem_files p hTfile).resolve_left hfile

lemma runs_olds : Runs sep (P.olds.map .rmdir) P.withFiles T := by
  have hend : overwrite T P.withFiles P.olds = T := by
    funext p
    by_cases hp : p ∈ P.olds
    · exact overwrite_mem hp
    · rw [overwrite_notMem hp, P.withFiles_of_notMem hp]
  suffices h : Runs sep (P.olds.map .rmdir) P.withFiles (overwrite T P.withFiles P.olds) by
    rwa [hend] at h
  apply runs_each
  intro pre p post hps
  have hmem : p ∈ P.olds := by simp [hps]
  obtain ⟨hS, hT⟩ := (P.mem_olds p).mp hmem
  have hTnone : T p = none := by
    rcases node_cases T p with hnone | hdir | hfile
    · exact hnone
    · exact absurd hdir hT
    · exact absurd hfile (P.kept p hS)
  have hp := notMem_before P.oldsNodup hps
  have hordered := P.oldsOrdered
  rw [hps, ParentsFirst, List.pairwise_reverse] at hordered
  refine ⟨⟨?_, ?_⟩, by rw [hTnone]; rfl⟩
  · rw [overwrite_notMem hp]
    exact P.withFiles_old hmem
  · intro q hq
    have hTq : T q = none := P.closedTarget.none_below hT hq
    by_cases hpre : q ∈ pre
    · rw [overwrite_mem hpre, hTq]
    · have hold : q ∉ P.olds := by
        intro hold
        rw [hps] at hold
        rcases List.mem_append.mp hold with h | h
        · exact hpre h
        · rcases List.mem_cons.mp h with rfl | h
          · exact hq.irrefl
          · -- the directories in `p` were removed before it
            exact (List.pairwise_cons.mp (List.pairwise_append.mp hordered).2.1).1 q h hq
      rw [overwrite_notMem hpre, P.withFiles_of_notMem hold, hTq]

/-- The changes of a plan all succeed and lead to the other tree. -/
theorem runs : Runs sep P.changes S T :=
  ((P.runs_gone.append P.runs_dirs).append P.runs_files).append P.runs_olds

end Plan

end Plan

end Sitecopy.FileTrees
