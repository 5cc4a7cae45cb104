import Sitecopy.ScanCompleteness

/-!
# When the scan of the local tree ends

The scan knows directories by their paths only. It follows a link to a directory that
contains the link again and again, each time under a longer path.
-/
namespace Sitecopy.ScanTermination
open SiteModel LocalScan StackSearch PreorderSearch ScanCompleteness

section Ends
variable {disk : Disk} {fails : Failures} {o : SiteOptions} {d e : Text}

lemma length_lt_of_mem (h : e ∈ subdirectories disk fails o d) : d.length < e.length := by
  obtain ⟨-, name, -, rfl⟩ := mem_subdirectories.mp h
  simp only [List.length_append, List.length_singleton]
  omega

/-- The directories that a scan reaches are finitely many if those that it can read are. -/
lemma reach_finite_iff : {d | Reach (subdirectories disk fails o) o.localRoot d}.Finite ↔
    {d | Readable disk fails o d}.Finite := by
  constructor
  · intro h
    apply h.subset
    intro d hd
    exact (readable_iff.mp hd).1
  · intro h
    have hall := (h.biUnion fun d _ => List.finite_toSet (subdirectories disk fails o d)).insert
      o.localRoot
    apply hall.subset
    intro d hd
    cases hd with
    | root => exact Set.mem_insert _ _
    | @child p _ hp he =>
      have hread : Readable disk fails o p :=
        readable_iff.mpr ⟨hp, (mem_subdirectories.mp he).1⟩
      exact Set.mem_insert_of_mem _ (Set.mem_biUnion hread he)

end Ends

/-! ### Links to directories above them -/

/-- What is below `d ++ w` looks like what is below `d`. -/
structure Repeats (disk : Disk) (d w : Text) : Prop where
  entries : ∀ t, disk.entries (d ++ (w ++ t)) = disk.entries (d ++ t)
  lstat : ∀ t, disk.lstat (d ++ (w ++ t)) = disk.lstat (d ++ t)
  stat : ∀ t, disk.stat (d ++ (w ++ t)) = disk.stat (d ++ t)

section Loop
variable {disk : Disk} {o : SiteOptions} {d w : Text}

lemma not_excluded (h : o.excludes = []) (name : Text) : fileIsexcluded name o = false := by
  rw [fileIsexcluded, h]
  rfl

/-- A directory below `d` is there once more below `d ++ w`. -/
lemma Repeats.subdirectories (h : Repeats disk d w) (hex : o.excludes = []) {t e : Text}
    (he : e ∈ LocalScan.subdirectories disk noFailures o (d ++ t)) : ∃ t', e = d ++ t' ∧
      d ++ (w ++ t') ∈ LocalScan.subdirectories disk noFailures o (d ++ (w ++ t)) := by
  obtain ⟨-, name, hl, rfl⟩ := mem_subdirectories.mp he
  refine ⟨t ++ name ++ [slash], by simp, mem_subdirectories.mpr ⟨rfl, name, ?_, by simp⟩⟩
  have hfull : d ++ (w ++ t) ++ name = d ++ (w ++ (t ++ name)) := by simp
  have hseen : view disk o (d ++ (w ++ t) ++ name) = view disk o (d ++ t ++ name) := by
    rw [hfull, view, h.lstat, h.stat, view, List.append_assoc]
  refine ⟨?_, hl.ordinary, ?_, not_excluded hex _, ⟨rfl, fun _ _ => rfl, by simp, by simp⟩⟩
  · rw [h.entries]
    exact hl.mem
  · rw [hseen]
    exact hl.seen

lemma Repeats.reach (h : Repeats disk d w) (hex : o.excludes = []) {x : Text}
    (hx : Reach (LocalScan.subdirectories disk noFailures o) d x) : ∃ t, x = d ++ t ∧
      Reach (LocalScan.subdirectories disk noFailures o) (d ++ w) (d ++ (w ++ t)) := by
  induction hx with
  | root => exact ⟨[], (List.append_nil d).symm, by simpa using Reach.root⟩
  | child _ he ih =>
    obtain ⟨t, rfl, ht⟩ := ih
    obtain ⟨t', rfl, ht'⟩ := h.subdirectories hex he
    exact ⟨t', rfl, ht.child ht'⟩

lemma length_flatten_replicate (k : ℕ) : (List.replicate k w).flatten.length = k * w.length := by
  induction k with
  | zero => simp
  | succ k ih =>
    rw [List.replicate_succ, List.flatten_cons, List.length_append, ih]
    ring

end Loop

/-- The local root holds a link to itself, and nothing else. -/
def linkedDisk : Disk where
  entries _ := [[dot], [dot, dot], ascii "l"]
  lstat _ := { kind := .symlink }
  stat _ := some { kind := .directory }
  readlink _ := [dot]
  checksum _ := .zero

end Sitecopy.ScanTermination
