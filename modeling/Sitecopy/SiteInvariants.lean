import Sitecopy.UpdateStats

/-!
# Reachable files lists

The states a files list can be in between the operations of the program, and what the
statistics of the site say in each of them.
-/
namespace Sitecopy.SiteInvariants
open SiteModel FileSet FileSetSpec SiteOperations SiteStats SiteUpdate UpdateStats

/-- The sites reached from the empty list by any sequence of operations. -/
inductive Reachable (o : SiteOptions) : Site → Prop
  | empty : Reachable o { opts := o }
  | setLocal {site : Site} (type : FileType) (state : FileState) :
      Reachable o site → state.existing = true → Reachable o (fileSetLocal type state site).1
  | setStored {site : Site} (type : FileType) (state : FileState) :
      Reachable o site → state.existing = true → Reachable o (fileSetStored type state site).1
  | fetchAdd {site : Site} (pf : ProtoFile) (now : ℤ) :
      Reachable o site → Reachable o (fetchAddFile pf now site).1
  | catchup {site : Site} : Reachable o site → Reachable o (siteCatchup site)
  | destroyStored {site : Site} : Reachable o site → Reachable o (siteDestroyStored site)
  | destroy {site : Site} : Reachable o site → Reachable o (siteDestroy site)
  | phase {site : Site} {σ : Type} (env : Env σ) (sess : σ) (p : Phase) :
      Reachable o site → Reachable o (runPhase env sess p site)

theorem Reachable.exactSite {o : SiteOptions} {site : Site} (h : Reachable o site) :
    ExactSite site := by
  induction h with
  | empty => exact ExactSite.empty o
  | setLocal type state _ hs ih => exact @setSlot_exact _ _ _ .localSlot ih hs
  | setStored type state _ hs ih => exact @setSlot_exact _ _ _ .storedSlot ih hs
  | fetchAdd pf now _ ih => exact fetchAddFile_exact ih pf now
  | catchup _ ih => exact siteCatchup_exact ih
  | destroyStored _ ih => exact siteDestroyStored_exact ih
  | destroy _ ih => exact siteDestroy_exact ih
  | phase env sess p _ ih => exact runPhase_exact ih sess p

theorem Reachable.opts_eq {o : SiteOptions} {site : Site} (h : Reachable o site) :
    site.opts = o := by
  induction h with
  | empty => rfl
  | setLocal type state _ _ ih => exact fileSet_opts.trans ih
  | setStored type state _ _ ih => exact fileSet_opts.trans ih
  | fetchAdd pf now _ ih => exact fileSet_opts.trans ih
  | catchup _ ih | destroyStored _ ih | destroy _ ih => exact ih
  | phase env sess p _ ih => exact ih

/-! ### Counters as numbers of entries -/

lemma sum_indicator (p : SiteFile → Bool) (files : List SiteFile) :
    (files.map fun f => if p f = true then (1 : ℤ) else 0).sum = files.countP p := by
  induction files with
  | nil => rfl
  | cons f files ih =>
    rw [List.map_cons, List.sum_cons, ih, List.countP_cons]
    split_ifs <;> push_cast <;> ring

lemma sum_filtered (p : SiteFile → Bool) (files : List SiteFile) :
    (files.map fun f => if p f = true then f.localState.size else 0).sum =
      ((files.filter p).map fun f => f.localState.size).sum := by
  induction files with
  | nil => rfl
  | cons f files ih =>
    rw [List.map_cons, List.sum_cons, ih, List.filter_cons]
    split_ifs <;> simp

/-- The statistics of a files list, as the documentation of `struct site` describes them. -/
structure Statistics (o : SiteOptions) (files : List SiteFile) (st : Stats) : Prop where
  numnew : st.numnew = files.countP fun f => f.diff = .new
  numchanged : st.numchanged = files.countP fun f => f.diff = .changed ∧ f.ignore = false
  numignored : st.numignored = files.countP fun f => f.diff = .changed ∧ f.ignore = true
  numdeleted : st.numdeleted = files.countP fun f => f.diff = .deleted
  nummoved : st.nummoved = files.countP fun f => f.diff = .moved
  numunchanged : st.numunchanged = files.countP fun f => f.diff = .unchanged
  totalnew : st.totalnew =
    ((files.filter fun f => f.diff = .new).map fun f => f.localState.size).sum
  totalchanged : st.totalchanged =
    ((files.filter fun f => f.diff = .changed ∧ f.ignore = false).map
      fun f => f.localState.size).sum
  remoteIsDifferent : st.remoteIsDifferent = true ↔
    st.nummoved + st.numnew + (if o.nodelete then 0 else st.numdeleted) + st.numchanged > 0
  localIsDifferent : st.localIsDifferent = true ↔
    st.nummoved + st.numnew + st.numdeleted + st.numchanged + st.numignored > 0

theorem statistics_of_exact {o : SiteOptions} {files : List SiteFile} {st : Stats}
    (h : Exact o files st) : Statistics o files st := by
  have hflags := h.flags
  have count : ∀ (c : Counter) (p : SiteFile → Bool),
      (∀ f, weight c f = if p f = true then 1 else 0) → c.get st = files.countP p := by
    intro c p hp
    rw [h.counted c, ← sum_indicator]
    exact congrArg List.sum (List.map_congr_left fun f _ => hp f)
  have total : ∀ (c : Counter) (p : SiteFile → Bool),
      (∀ f, weight c f = if p f = true then f.localState.size else 0) →
        c.get st = ((files.filter p).map fun f => f.localState.size).sum := by
    intro c p hp
    rw [h.counted c, ← sum_filtered]
    exact congrArg List.sum (List.map_congr_left fun f _ => hp f)
  exact {
    numnew := count .numnew _ fun f => by simp [weight]
    numchanged := count .numchanged _ fun f => by simp [weight]
    numignored := count .numignored _ fun f => by simp [weight]
    numdeleted := count .numdeleted _ fun f => by simp [weight]
    nummoved := count .nummoved _ fun f => by simp [weight]
    numunchanged := count .numunchanged _ fun f => by simp [weight]
    totalnew := total .totalnew _ fun f => by simp [weight]
    totalchanged := total .totalchanged _ fun f => by simp [weight]
    remoteIsDifferent := by
      rw [← hflags]
      simp [siteStatsUpdate]
    localIsDifferent := by
      rw [← hflags]
      simp [siteStatsUpdate] }

/-- Diffs and statistics stay exact in every state between two operations. -/
theorem reachable_exact {o : SiteOptions} {site : Site} (h : Reachable o site) :
    (∀ f ∈ site.files, f.diff = fileCompare f.type f.localState f.storedState o) ∧
      Statistics o site.files site.stats := by
  have he := h.exactSite.exact
  rw [h.opts_eq] at he
  exact ⟨he.compared, statistics_of_exact he⟩

/-- A list with a new and a deleted file. -/
def sampleSite : Site :=
  (fileSetStored .file { filename := some (ascii "b"), existing := true }
    (fileSetLocal .file { filename := some (ascii "a"), existing := true, size := 7 }
      { opts := {} }).1).1

theorem reachable_exact_sample :
    (∀ f ∈ sampleSite.files, f.diff = fileCompare f.type f.localState f.storedState {}) ∧
      Statistics {} sampleSite.files sampleSite.stats :=
  reachable_exact (.setStored _ _ (.setLocal _ _ .empty rfl) rfl)

end Sitecopy.SiteInvariants
