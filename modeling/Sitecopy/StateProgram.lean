import Mathlib

/-!
# Rules for state-passing programs

`Ends m s Q` says that running `m` from `s` ends in a result and a state related by
`Q`. Its rules are equivalences, so `simp` executes a program symbolically. Loops over
a list whose current element may be rewritten or dropped, and bounded retry loops, get
one invariant rule each.
-/
namespace Sitecopy.StateProgram

variable {σ α β : Type}

/-- Running `m` from `s` ends with a result and a state related by `Q`. -/
def Ends (m : StateM σ α) (s : σ) (Q : α → σ → Prop) : Prop := Q (m.run s).1 (m.run s).2

theorem ends_run (m : StateM σ α) (s : σ) (Q : α → σ → Prop) :
    Ends m s Q ↔ Q (m.run s).1 (m.run s).2 := Iff.rfl

@[simp] theorem ends_pure (a : α) (s : σ) (Q : α → σ → Prop) :
    Ends (pure a) s Q ↔ Q a s := Iff.rfl

@[simp] theorem ends_bind (m : StateM σ α) (f : α → StateM σ β) (s : σ) (Q : β → σ → Prop) :
    Ends (m >>= f) s Q ↔ Ends m s fun a t => Ends (f a) t Q := Iff.rfl

@[simp] theorem ends_map (g : α → β) (m : StateM σ α) (s : σ) (Q : β → σ → Prop) :
    Ends (g <$> m) s Q ↔ Ends m s fun a t => Q (g a) t := Iff.rfl

@[simp] theorem ends_get (s : σ) (Q : σ → σ → Prop) : Ends get s Q ↔ Q s s := Iff.rfl

@[simp] theorem ends_set (t s : σ) (Q : PUnit → σ → Prop) : Ends (set t) s Q ↔ Q ⟨⟩ t := Iff.rfl

@[simp] theorem ends_modify (g : σ → σ) (s : σ) (Q : PUnit → σ → Prop) :
    Ends (modify g) s Q ↔ Q ⟨⟩ (g s) := Iff.rfl

theorem ends_ite {c : Prop} [Decidable c] (m n : StateM σ α) (s : σ) (Q : α → σ → Prop) :
    Ends (if c then m else n) s Q ↔ if c then Ends m s Q else Ends n s Q := by
  split_ifs <;> rfl

theorem Ends.mono {m : StateM σ α} {s : σ} {Q R : α → σ → Prop} (h : Ends m s Q)
    (hQR : ∀ a t, Q a t → R a t) : Ends m s R := hQR _ _ h

theorem Ends.and {m : StateM σ α} {s : σ} {Q R : α → σ → Prop} (hQ : Ends m s Q)
    (hR : Ends m s R) : Ends m s fun a t => Q a t ∧ R a t := ⟨hQ, hR⟩

/-- Nothing is known of how `m` ends. -/
theorem Ends.of_forall {m : StateM σ α} {s : σ} {Q : α → σ → Prop} (h : ∀ a t, Q a t) :
    Ends m s Q := h _ _

/-- A program has exactly one outcome, so `Ends` may be eliminated at any goal about it. -/
theorem ends_iff {m : StateM σ α} {s : σ} {Q : α → σ → Prop} :
    Ends m s Q ↔ ∀ a t, m.run s = (a, t) → Q a t := by
  constructor
  · rintro h a t he
    simpa [Ends, he] using h
  · intro h
    exact h _ _ rfl

/-! ### Loops over a list -/

/-- Visit the elements in order. The body returns what replaces the element, `none`
when it is dropped, and whether something failed. -/
def loop (body : α → StateM σ (Option α × Bool)) :
    List α → Bool → List α → StateM σ (List α × Bool)
  | done, failed, [] => pure (done, failed)
  | done, failed, a :: rest => do
    let r ← body a
    loop body (done ++ r.1.toList) (failed || r.2) rest

def forEach (body : α → StateM σ (Option α × Bool)) (l : List α) : StateM σ (List α × Bool) :=
  loop body [] false l

/-- Visit the elements from the last to the first, keeping the order of the list. -/
def forEachBackward (body : α → StateM σ (Option α × Bool)) (l : List α) :
    StateM σ (List α × Bool) := do
  let r ← loop body [] false l.reverse
  pure (r.1.reverse, r.2)

/-- An invariant of what is done, what remains and whether something failed. -/
theorem loop_ends {body : α → StateM σ (Option α × Bool)}
    {I : List α → List α → Bool → σ → Prop}
    (step : ∀ done a rest failed s, I done (a :: rest) failed s →
      Ends (body a) s fun r t => I (done ++ r.1.toList) rest (failed || r.2) t)
    {done rest : List α} {failed : Bool} {s : σ} (h : I done rest failed s) :
    Ends (loop body done failed rest) s fun r t => I r.1 [] r.2 t := by
  induction rest generalizing done failed s with
  | nil => exact h
  | cons a rest ih =>
    simp only [loop, ends_bind]
    exact (step done a rest failed s h).mono fun r t hr => ih hr

theorem forEach_ends {body : α → StateM σ (Option α × Bool)}
    {I : List α → List α → Bool → σ → Prop}
    (step : ∀ done a rest failed s, I done (a :: rest) failed s →
      Ends (body a) s fun r t => I (done ++ r.1.toList) rest (failed || r.2) t)
    {l : List α} {s : σ} (h : I [] l false s) :
    Ends (forEach body l) s fun r t => I r.1 [] r.2 t :=
  loop_ends step h

/-- The same rule for the backward loop; the invariant sees the lists in list order. -/
theorem forEachBackward_ends {body : α → StateM σ (Option α × Bool)}
    {I : List α → List α → Bool → σ → Prop}
    (step : ∀ rest a done failed s, I (rest ++ [a]) done failed s →
      Ends (body a) s fun r t => I rest (r.1.toList ++ done) (failed || r.2) t)
    {l : List α} {s : σ} (h : I l [] false s) :
    Ends (forEachBackward body l) s fun r t => I [] r.1 r.2 t := by
  simp only [forEachBackward, ends_bind, ends_pure]
  refine loop_ends (I := fun done rest failed s => I rest.reverse done.reverse failed s) ?_ (by simpa)
  intro done a rest failed s hI
  rw [List.reverse_cons] at hI
  refine (step _ _ _ _ _ hI).mono fun r t hr => ?_
  have ht : r.1.toList.reverse = r.1.toList := by cases r.1 <;> simp
  simpa [List.reverse_append, ht] using hr

/-! ### What the visits of a loop add to a log -/

/-- One visit of a loop: the element, what the visit logged, and what the body returned. -/
structure Visit (α ε : Type) where
  elem : α
  log : List ε
  result : Option α × Bool

namespace Visit
variable {ε : Type}

/-- The elements that are left. -/
def kept (vs : List (Visit α ε)) : List α := vs.flatMap fun v => v.result.1.toList

def logged (vs : List (Visit α ε)) : List ε := vs.flatMap Visit.log

def failed (vs : List (Visit α ε)) : Bool := vs.any fun v => v.result.2

@[simp] theorem kept_nil : kept ([] : List (Visit α ε)) = [] := rfl

@[simp] theorem kept_cons (v : Visit α ε) (vs : List (Visit α ε)) :
    kept (v :: vs) = v.result.1.toList ++ kept vs := by simp [kept]

@[simp] theorem kept_append (vs ws : List (Visit α ε)) : kept (vs ++ ws) = kept vs ++ kept ws := by
  simp [kept]

@[simp] theorem logged_nil : logged ([] : List (Visit α ε)) = [] := rfl

@[simp] theorem logged_cons (v : Visit α ε) (vs : List (Visit α ε)) :
    logged (v :: vs) = v.log ++ logged vs := by simp [logged]

@[simp] theorem logged_append (vs ws : List (Visit α ε)) :
    logged (vs ++ ws) = logged vs ++ logged ws := by simp [logged]

theorem mem_kept {a : α} {vs : List (Visit α ε)} : a ∈ kept vs ↔ ∃ v ∈ vs, v.result.1 = some a := by
  simp [kept]

theorem mem_logged {e : ε} {vs : List (Visit α ε)} : e ∈ logged vs ↔ ∃ v ∈ vs, e ∈ v.log := by
  simp [logged]

@[simp] theorem failed_nil : failed ([] : List (Visit α ε)) = false := rfl

theorem failed_eq_false {vs : List (Visit α ε)} :
    failed vs = false ↔ ∀ v ∈ vs, v.result.2 = false := by simp [failed]

lemma failed_iff {bad fits : ε → Prop} {vs : List (Visit α ε)}
    (h : ∀ v ∈ vs, (v.result.2 = true ↔ ∃ e ∈ v.log, bad e) ∧ ∀ e ∈ v.log, fits e) :
    (failed vs = true ↔ ∃ e ∈ logged vs, bad e) ∧ ∀ e ∈ logged vs, fits e := by
  simp only [failed, List.any_eq_true, mem_logged]
  constructor
  · constructor
    · rintro ⟨v, hv, hr⟩
      obtain ⟨e, he, hb⟩ := (h v hv).1.mp hr
      exact ⟨e, ⟨v, hv, he⟩, hb⟩
    · rintro ⟨e, ⟨v, hv, he⟩, hb⟩
      exact ⟨v, hv, (h v hv).1.mpr ⟨e, he, hb⟩⟩
  · rintro e ⟨v, hv, he⟩
    exact (h v hv).2 e he

lemma logged_filterMap {β : Type} (kind : ε → Option β) (vs : List (Visit α ε)) :
    (logged vs).filterMap kind = vs.flatMap fun v => v.log.filterMap kind := by
  rw [logged, List.filterMap_flatMap]

lemma flatMap_sublist {β γ : Type} {g g' : β → List γ} {l : List β}
    (h : ∀ a ∈ l, (g a).Sublist (g' a)) : (l.flatMap g).Sublist (l.flatMap g') := by
  induction l with
  | nil => exact List.Sublist.refl _
  | cons a l ih =>
    rw [List.flatMap_cons, List.flatMap_cons]
    exact (h a (by simp)).append (ih fun b hb => h b (List.mem_cons_of_mem a hb))

variable {κ : Type}

/-- Elements have distinct keys, log only about themselves, and keep their key. -/
structure Keyed (key : α → κ) (owner : ε → Option κ) (vs : List (Visit α ε)) : Prop where
  nodup : (vs.map fun v => key v.elem).Nodup
  owned : ∀ v ∈ vs, ∀ e ∈ v.log, owner e = some (key v.elem)
  same : ∀ v ∈ vs, ∀ a, v.result.1 = some a → key a = key v.elem

section Keyed
variable {key : α → κ} {owner : ε → Option κ} {vs : List (Visit α ε)} {v w : Visit α ε}

theorem Keyed.eq_of_key (h : Keyed key owner vs) (hv : v ∈ vs) (hw : w ∈ vs)
    (hk : key v.elem = key w.elem) : v = w :=
  List.inj_on_of_nodup_map h.nodup hv hw hk

theorem Keyed.mem_log (h : Keyed key owner vs) (hv : v ∈ vs) {e : ε}
    (ho : owner e = some (key v.elem)) : e ∈ logged vs ↔ e ∈ v.log := by
  rw [mem_logged]
  constructor
  · rintro ⟨w, hw, he⟩
    have hk := Option.some.inj (ho.symm.trans (h.owned w hw e he))
    rw [h.eq_of_key hv hw hk]
    exact he
  · exact fun he => ⟨v, hv, he⟩

theorem Keyed.mem_kept (h : Keyed key owner vs) (hv : v ∈ vs) {a : α}
    (hk : key a = key v.elem) : a ∈ kept vs ↔ v.result.1 = some a := by
  rw [Visit.mem_kept]
  constructor
  · rintro ⟨w, hw, ha⟩
    rw [h.eq_of_key hv hw (hk.symm.trans (h.same w hw a ha))]
    exact ha
  · exact fun ha => ⟨v, hv, ha⟩

end Keyed

end Visit

/-- A loop whose turns each append to a log is described by the list of its visits. -/
theorem forEach_visits {ε : Type} (log : σ → List ε) {body : α → StateM σ (Option α × Bool)}
    {T : α → List ε → Option α × Bool → Prop} (l : List α)
    (hbody : ∀ a ∈ l, ∀ s, Ends (body a) s fun r t => ∃ seg, log t = log s ++ seg ∧ T a seg r)
    (s : σ) :
    Ends (forEach body l) s fun r t => ∃ vs : List (Visit α ε),
      vs.map Visit.elem = l ∧ r = (Visit.kept vs, Visit.failed vs) ∧
        log t = log s ++ Visit.logged vs ∧ ∀ v ∈ vs, T v.elem v.log v.result := by
  refine (forEach_ends (I := fun done rest failed t => ∃ vs : List (Visit α ε),
    vs.map Visit.elem ++ rest = l ∧ (done, failed) = (Visit.kept vs, Visit.failed vs) ∧
      log t = log s ++ Visit.logged vs ∧ ∀ v ∈ vs, T v.elem v.log v.result)
    ?_ ⟨[], by simp⟩).mono ?_
  · rintro done a rest failed t ⟨vs, hl, hr, ht, hT⟩
    refine (hbody a (by simp [← hl]) t).mono ?_
    rintro r t' ⟨seg, hseg, hturn⟩
    obtain ⟨rfl, rfl⟩ := Prod.mk.inj hr
    refine ⟨vs ++ [⟨a, seg, r⟩], ?_, ?_, ?_, ?_⟩
    · simp [← hl]
    · simp [Visit.failed]
    · simp [hseg, ht]
    · intro v hv
      rcases List.mem_append.mp hv with hv | hv
      · exact hT v hv
      · obtain rfl := List.mem_singleton.mp hv
        exact hturn
  · rintro r t ⟨vs, hl, hr, ht, hT⟩
    exact ⟨vs, by simpa using hl, hr, ht, hT⟩

/-- The same for the backward loop; the visits are listed in list order. -/
theorem forEachBackward_visits {ε : Type} (log : σ → List ε)
    {body : α → StateM σ (Option α × Bool)} {T : α → List ε → Option α × Bool → Prop} (l : List α)
    (hbody : ∀ a ∈ l, ∀ s, Ends (body a) s fun r t => ∃ seg, log t = log s ++ seg ∧ T a seg r)
    (s : σ) :
    Ends (forEachBackward body l) s fun r t => ∃ vs : List (Visit α ε),
      vs.map Visit.elem = l ∧ r = (Visit.kept vs, Visit.failed vs) ∧
        log t = log s ++ Visit.logged vs.reverse ∧ ∀ v ∈ vs, T v.elem v.log v.result := by
  refine (forEachBackward_ends (I := fun rest done failed t => ∃ vs : List (Visit α ε),
    rest ++ vs.map Visit.elem = l ∧ (done, failed) = (Visit.kept vs, Visit.failed vs) ∧
      log t = log s ++ Visit.logged vs.reverse ∧ ∀ v ∈ vs, T v.elem v.log v.result)
    ?_ ⟨[], by simp⟩).mono ?_
  · rintro rest a done failed t ⟨vs, hl, hr, ht, hT⟩
    refine (hbody a (by simp [← hl]) t).mono ?_
    rintro r t' ⟨seg, hseg, hturn⟩
    obtain ⟨rfl, rfl⟩ := Prod.mk.inj hr
    refine ⟨⟨a, seg, r⟩ :: vs, ?_, ?_, ?_, ?_⟩
    · simp [← hl]
    · simp [Visit.failed, Bool.or_comm]
    · simp [hseg, ht]
    · intro v hv
      rcases List.mem_cons.mp hv with rfl | hv
      · exact hturn
      · exact hT v hv
  · rintro r t ⟨vs, hl, hr, ht, hT⟩
    exact ⟨vs, by simpa using hl, hr, ht, hT⟩

/-- If the turn of `a` logs at most `g a` of a kind, the loop logs these in list order. -/
theorem forEach_logs {ε β : Type} (log : σ → List ε) (kind : ε → Option β)
    {body : α → StateM σ (Option α × Bool)} {g : α → List β} (l : List α)
    (hbody : ∀ a ∈ l, ∀ s, Ends (body a) s fun _ t =>
      ∃ seg, log t = log s ++ seg ∧ (seg.filterMap kind).Sublist (g a)) (s : σ) :
    Ends (forEach body l) s fun _ t =>
      ∃ seg, log t = log s ++ seg ∧ (seg.filterMap kind).Sublist (l.flatMap g) := by
  apply (forEach_visits log (T := fun a seg _ => (seg.filterMap kind).Sublist (g a)) l hbody s).mono
  rintro r t ⟨vs, rfl, -, ht, hT⟩
  refine ⟨_, ht, ?_⟩
  rw [Visit.logged_filterMap, List.flatMap_map]
  exact Visit.flatMap_sublist hT

/-- The backward loop logs them in the reverse order. -/
theorem forEachBackward_logs {ε β : Type} (log : σ → List ε) (kind : ε → Option β)
    {body : α → StateM σ (Option α × Bool)} {g : α → List β} (l : List α)
    (hbody : ∀ a ∈ l, ∀ s, Ends (body a) s fun _ t =>
      ∃ seg, log t = log s ++ seg ∧ (seg.filterMap kind).Sublist (g a)) (s : σ) :
    Ends (forEachBackward body l) s fun _ t =>
      ∃ seg, log t = log s ++ seg ∧ (seg.filterMap kind).Sublist (l.reverse.flatMap g) := by
  apply (forEachBackward_visits log
    (T := fun a seg _ => (seg.filterMap kind).Sublist (g a)) l hbody s).mono
  rintro r t ⟨vs, rfl, -, ht, hT⟩
  refine ⟨_, ht, ?_⟩
  rw [Visit.logged_filterMap, ← List.map_reverse, List.flatMap_map]
  exact Visit.flatMap_sublist fun v hv => hT v (List.mem_reverse.mp hv)

/-- A loop whose turns log nothing of a kind. -/
theorem forEach_logs_none {ε β : Type} (log : σ → List ε) (kind : ε → Option β)
    {body : α → StateM σ (Option α × Bool)} (l : List α)
    (hbody : ∀ a ∈ l, ∀ s, Ends (body a) s fun _ t =>
      ∃ seg, log t = log s ++ seg ∧ seg.filterMap kind = []) (s : σ) :
    Ends (forEach body l) s fun _ t => ∃ seg, log t = log s ++ seg ∧ seg.filterMap kind = [] := by
  apply (forEach_visits log (T := fun _ seg _ => seg.filterMap kind = []) l hbody s).mono
  rintro r t ⟨vs, -, -, ht, hT⟩
  refine ⟨_, ht, ?_⟩
  rw [Visit.logged_filterMap, List.flatMap_eq_nil_iff]
  exact hT

theorem forEachBackward_logs_none {ε β : Type} (log : σ → List ε) (kind : ε → Option β)
    {body : α → StateM σ (Option α × Bool)} (l : List α)
    (hbody : ∀ a ∈ l, ∀ s, Ends (body a) s fun _ t =>
      ∃ seg, log t = log s ++ seg ∧ seg.filterMap kind = []) (s : σ) :
    Ends (forEachBackward body l) s fun _ t =>
      ∃ seg, log t = log s ++ seg ∧ seg.filterMap kind = [] := by
  apply (forEachBackward_visits log (T := fun _ seg _ => seg.filterMap kind = []) l hbody s).mono
  rintro r t ⟨vs, -, -, ht, hT⟩
  refine ⟨_, ht, ?_⟩
  rw [Visit.logged_filterMap, List.flatMap_eq_nil_iff]
  exact fun v hv => hT v (List.mem_reverse.mp hv)

/-- If a turn fails exactly when it logs something bad, so does the loop. -/
theorem forEach_failed {ε : Type} (log : σ → List ε) (bad fits : ε → Prop)
    {body : α → StateM σ (Option α × Bool)} (l : List α)
    (hbody : ∀ a ∈ l, ∀ s, Ends (body a) s fun r t => ∃ seg, log t = log s ++ seg ∧
      (r.2 = true ↔ ∃ e ∈ seg, bad e) ∧ ∀ e ∈ seg, fits e) (s : σ) :
    Ends (forEach body l) s fun r t => ∃ seg, log t = log s ++ seg ∧
      (r.2 = true ↔ ∃ e ∈ seg, bad e) ∧ ∀ e ∈ seg, fits e := by
  apply (forEach_visits log (T := fun _ seg r =>
    (r.2 = true ↔ ∃ e ∈ seg, bad e) ∧ ∀ e ∈ seg, fits e) l hbody s).mono
  rintro r t ⟨vs, -, rfl, ht, hT⟩
  exact ⟨_, ht, Visit.failed_iff hT⟩

theorem forEachBackward_failed {ε : Type} (log : σ → List ε) (bad fits : ε → Prop)
    {body : α → StateM σ (Option α × Bool)} (l : List α)
    (hbody : ∀ a ∈ l, ∀ s, Ends (body a) s fun r t => ∃ seg, log t = log s ++ seg ∧
      (r.2 = true ↔ ∃ e ∈ seg, bad e) ∧ ∀ e ∈ seg, fits e) (s : σ) :
    Ends (forEachBackward body l) s fun r t => ∃ seg, log t = log s ++ seg ∧
      (r.2 = true ↔ ∃ e ∈ seg, bad e) ∧ ∀ e ∈ seg, fits e := by
  apply (forEachBackward_visits log (T := fun _ seg r =>
    (r.2 = true ↔ ∃ e ∈ seg, bad e) ∧ ∀ e ∈ seg, fits e) l hbody s).mono
  rintro r t ⟨vs, -, rfl, ht, hT⟩
  refine ⟨_, ht, ?_⟩
  obtain ⟨hbad, hfits⟩ := Visit.failed_iff hT
  simp only [Visit.mem_logged, List.mem_reverse] at *
  exact ⟨hbad, hfits⟩

/-! ### Loops without failures -/

/-- The list after a loop in which `Q` says what replaced each element. -/
def Kept (Q : α → Option α → Prop) (l l' : List α) : Prop :=
  ∃ outs, List.Forall₂ Q l outs ∧ l' = outs.reduceOption

section Kept
variable {Q : α → Option α → Prop} {l l' : List α}

theorem Kept.mem (h : Kept Q l l') {b : α} (hb : b ∈ l') : ∃ a ∈ l, Q a (some b) := by
  obtain ⟨outs, houts, rfl⟩ := h
  rw [List.reduceOption_mem_iff] at hb
  induction houts with
  | nil => cases hb
  | cons hab _ ih =>
    rcases List.mem_cons.mp hb with rfl | hb
    · exact ⟨_, List.mem_cons_self, hab⟩
    · obtain ⟨a, ha, hq⟩ := ih hb
      exact ⟨a, List.mem_cons_of_mem _ ha, hq⟩

theorem Kept.of_mem (h : Kept Q l l') {a : α} (ha : a ∈ l) :
    ∃ out, Q a out ∧ ∀ b, out = some b → b ∈ l' := by
  obtain ⟨outs, houts, rfl⟩ := h
  simp only [List.reduceOption_mem_iff]
  induction houts with
  | nil => cases ha
  | @cons x out _ _ hab _ ih =>
    rcases List.mem_cons.mp ha with rfl | ha
    · exact ⟨out, hab, fun b hb => by simp [hb]⟩
    · obtain ⟨out', hq, hmem⟩ := ih ha
      exact ⟨out', hq, fun b hb => List.mem_cons_of_mem _ (hmem b hb)⟩

/-- What the elements stand for is kept if it is kept of each. -/
theorem Kept.flatMap (h : Kept Q l l') {β : Type} {g : α → List β}
    (hg : ∀ a out, Q a out → out.toList.flatMap g = g a) : l'.flatMap g = l.flatMap g := by
  obtain ⟨outs, houts, rfl⟩ := h
  induction houts with
  | nil => rfl
  | @cons a out _ _ hab _ ih =>
    rw [List.flatMap_cons, ← ih, ← hg a out hab]
    cases out with
    | none => rw [List.reduceOption_cons_of_none]; rfl
    | some b => rw [List.reduceOption_cons_of_some, List.flatMap_cons, Option.toList_some,
        List.flatMap_singleton]

theorem Kept.reverse (h : Kept Q l l') : Kept Q l.reverse l'.reverse := by
  obtain ⟨outs, houts, rfl⟩ := h
  exact ⟨outs.reverse, List.rel_reverse houts, List.filterMap_reverse.symm⟩

/-- A loop in which no turn fails. The invariant may depend on what remains to be visited. -/
theorem forEach_kept {body : α → StateM σ (Option α × Bool)} {I : List α → σ → Prop} {s : σ}
    (hbody : ∀ a rest s, I (a :: rest) s →
      Ends (body a) s fun r t => r.2 = false ∧ Q a r.1 ∧ I rest t) (h : I l s) :
    Ends (forEach body l) s fun r t => r.2 = false ∧ Kept Q l r.1 ∧ I [] t := by
  apply (forEach_ends (I := fun done rest failed s => failed = false ∧ I rest s ∧
    ∃ pre, l = pre ++ rest ∧ Kept Q pre done) _ ⟨rfl, h, [], rfl, [], .nil, rfl⟩).mono
  · rintro r t ⟨hr, hI, pre, hl, hkept⟩
    rw [List.append_nil] at hl
    exact ⟨hr, hl ▸ hkept, hI⟩
  · rintro done a rest failed s ⟨hfailed, hI, pre, hl, outs, houts, rfl⟩
    apply (hbody a rest s hI).mono
    rintro r t ⟨hr, hq, hI⟩
    refine ⟨by rw [hfailed, hr]; rfl, hI, pre ++ [a], by simp [hl], outs ++ [r.1], ?_, ?_⟩
    · exact List.rel_append houts (.cons hq .nil)
    · rw [List.reduceOption_append]
      cases r.1 <;> rfl

theorem forEachBackward_kept {body : α → StateM σ (Option α × Bool)} {I : List α → σ → Prop}
    {s : σ} (hbody : ∀ a rest s, I (a :: rest) s →
      Ends (body a) s fun r t => r.2 = false ∧ Q a r.1 ∧ I rest t) (h : I l.reverse s) :
    Ends (forEachBackward body l) s fun r t => r.2 = false ∧ Kept Q l r.1 ∧ I [] t := by
  simp only [forEachBackward, ends_bind, ends_pure]
  apply (forEach_kept hbody h).mono
  rintro r t ⟨hr, hkept, hI⟩
  have hrev := hkept.reverse
  rw [List.reverse_reverse] at hrev
  exact ⟨hr, hrev, hI⟩

end Kept

/-! ### Retry loops -/

/-- Run the body, and again while `again` holds of its result, at most `n` more times. -/
def retry (again : α → Bool) (body : StateM σ α) : ℕ → StateM σ α
  | 0 => body
  | n + 1 => do
    let r ← body
    if again r then retry again body n else pure r

/-- A body that can be started wherever it asks to be run again can be retried. -/
theorem retry_ends {again : α → Bool} {body : StateM σ α} {P : σ → Prop} {Q : α → σ → Prop}
    (hbody : ∀ s, P s → Ends body s Q) (hagain : ∀ a s, Q a s → again a = true → P s)
    (n : ℕ) {s : σ} (h : P s) : Ends (retry again body n) s Q := by
  induction n generalizing s with
  | zero => exact hbody s h
  | succ n ih =>
    simp only [retry, ends_bind]
    refine (hbody s h).mono fun a t hq => ?_
    rw [ends_ite]
    split_ifs with ha
    · exact ih (hagain a t hq ha)
    · exact hq

/-! ### Programs over states with more in them -/

section Refines
variable {τ : Type} {proj : σ → τ}

/-- `m` computes what `m'` does on the part of the state that `proj` shows. -/
structure Refines (proj : σ → τ) (m : StateM σ α) (m' : StateM τ α) : Prop where
  result : ∀ s, (m.run s).1 = (m'.run (proj s)).1
  state : ∀ s, proj (m.run s).2 = (m'.run (proj s)).2

theorem Refines.pure (a : α) : Refines proj (pure a) (pure a) := ⟨fun _ => rfl, fun _ => rfl⟩

theorem Refines.bind {m : StateM σ α} {m' : StateM τ α} {f : α → StateM σ β}
    {f' : α → StateM τ β} (h : Refines proj m m') (hf : ∀ a, Refines proj (f a) (f' a)) :
    Refines proj (m >>= f) (m' >>= f') where
  result s := by
    change ((f (m.run s).1).run (m.run s).2).1 = ((f' (m'.run (proj s)).1).run (m'.run (proj s)).2).1
    rw [(hf _).result, h.result, h.state]
  state s := by
    change proj ((f (m.run s).1).run (m.run s).2).2 = ((f' (m'.run (proj s)).1).run (m'.run (proj s)).2).2
    rw [(hf _).state, h.result, h.state]

theorem Refines.ite {c : Prop} [Decidable c] {m n : StateM σ α} {m' n' : StateM τ α}
    (hm : Refines proj m m') (hn : Refines proj n n') :
    Refines proj (if c then m else n) (if c then m' else n') := by
  split_ifs
  · exact hm
  · exact hn

theorem Refines.forEach {body : α → StateM σ (Option α × Bool)}
    {body' : α → StateM τ (Option α × Bool)} (h : ∀ a, Refines proj (body a) (body' a))
    (l : List α) : Refines proj (forEach body l) (forEach body' l) := by
  have hloop : ∀ done failed, Refines proj (loop body done failed l) (loop body' done failed l) := by
    induction l with
    | nil => exact fun done failed => Refines.pure _
    | cons a l ih => exact fun done failed => (h a).bind fun r => ih _ _
  exact hloop [] false

theorem Refines.forEachBackward {body : α → StateM σ (Option α × Bool)}
    {body' : α → StateM τ (Option α × Bool)} (h : ∀ a, Refines proj (body a) (body' a))
    (l : List α) : Refines proj (forEachBackward body l) (forEachBackward body' l) :=
  (Refines.forEach h l.reverse).bind fun _ => Refines.pure _

end Refines

end Sitecopy.StateProgram
