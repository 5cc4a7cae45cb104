import Sitecopy.RemoteFetch

/-!
# What a fetch asks its driver

A driver may keep a log of its exchanges with the fetch. From the log alone one can tell
what a fetch finds: the entries of the listings that succeeded, below the directories that
were asked for.
-/
namespace Sitecopy.FetchLog
open SiteModel FileSet FileSetSpec StateProgram SiteOperations RemoteFetch StackSearch

/-- A call of a driver method and what it returned. -/
structure Exchange where
  call : FetchCall
  reply : FetchReply

def IsList (x : Exchange) : Prop := ∃ dir need, x.call = .fetchList dir need

def IsRead (x : Exchange) : Prop := ∃ remote, x.call = .fileRead remote

/-- The calls that a fetch needs to succeed in order to succeed itself. -/
def Needed (x : Exchange) : Prop := x.call = .init ∨ IsList x

/-- The sessions of the driver hold a log, which shows every exchange. -/
structure Logged {σ ε : Type} (env : FetchEnv σ) (log : σ → List ε) (view : ε → Exchange) :
    Prop where
  exec : ∀ c s, ∃ e, log (env.exec c s).2 = log s ++ [e] ∧ view e = ⟨c, (env.exec c s).1⟩
  time : ∀ s, log (env.time s).2 = log s

/-- `k` is the type and path of an entry of a listing that succeeded. -/
def Listed (o : SiteOptions) (xs : List Exchange) (k : ProtoFiletype × Text) : Prop :=
  ∃ x ∈ xs, ∃ dir need, x.call = .fetchList dir need ∧ x.reply.code = SITE_OK ∧
    ∃ f ∈ x.reply.files, k = (f.type, dir.drop o.remoteRoot.length ++ f.filename)

/-- The files are read that are to be checksummed, and no others. -/
structure ReadsFor (o : SiteOptions) (xs : List Exchange) (new : List ProtoFile) : Prop where
  all : o.stateMethod = .checksum → ∀ f ∈ new, f.type = .file →
    fileIsexcluded f.filename o = false →
      ∃ x ∈ xs, x.call = .fileRead (o.remoteRoot ++ f.filename)
  only : ∀ x ∈ xs, ∀ remote, x.call = .fileRead remote → o.stateMethod = .checksum ∧
    ∃ f ∈ new, f.type = .file ∧ fileIsexcluded f.filename o = false ∧
      remote = o.remoteRoot ++ f.filename

/-- What the exchanges `xs` of a search that starts with `start` tell about the new files. -/
structure Explored (o : SiteOptions) (start : List Text) (xs : List Exchange)
    (new : List ProtoFile) : Prop where
  found : ∀ k, k ∈ new.map shown ↔ Listed o xs k
  places : ∀ x ∈ xs, ∀ dir need, x.call = .fetchList dir need →
    ∃ d, dir = o.remoteRoot ++ d ++ slashAfter d ∧
      (d ∈ start ∨ Listed o xs (.dir, d) ∧ fileIsexcluded d o = false)
  reads : ReadsFor o xs new

section Rules
variable {o : SiteOptions} {xs ys : List Exchange} {new more : List ProtoFile}
  {k : ProtoFiletype × Text}

lemma listed_append : Listed o (xs ++ ys) k ↔ Listed o xs k ∨ Listed o ys k := by
  simp only [Listed, List.mem_append, or_and_right, exists_or]

lemma not_listed_of_none (h : ∀ x ∈ xs, ¬ IsList x) : ¬ Listed o xs k := by
  rintro ⟨x, hx, dir, need, hc, _⟩
  exact h x hx ⟨dir, need, hc⟩

lemma readsFor_nil : ReadsFor o [] [] := ⟨by simp, by simp⟩

lemma ReadsFor.append (h : ReadsFor o xs new) (h' : ReadsFor o ys more) :
    ReadsFor o (xs ++ ys) (new ++ more) where
  all hm f hf ht hex := by
    rcases List.mem_append.mp hf with hf | hf
    · obtain ⟨x, hx, hc⟩ := h.all hm f hf ht hex
      exact ⟨x, List.mem_append_left _ hx, hc⟩
    · obtain ⟨x, hx, hc⟩ := h'.all hm f hf ht hex
      exact ⟨x, List.mem_append_right _ hx, hc⟩
  only x hx remote hc := by
    rcases List.mem_append.mp hx with hx | hx
    · obtain ⟨hm, f, hf, hrest⟩ := h.only x hx remote hc
      exact ⟨hm, f, List.mem_append_left _ hf, hrest⟩
    · obtain ⟨hm, f, hf, hrest⟩ := h'.only x hx remote hc
      exact ⟨hm, f, List.mem_append_right _ hf, hrest⟩

/-- Exchanges that read nothing may be added. -/
lemma ReadsFor.cons (h : ReadsFor o xs new) {x : Exchange} (hx : ¬ IsRead x) :
    ReadsFor o (x :: xs) new where
  all hm f hf ht hex := by
    obtain ⟨y, hy, hc⟩ := h.all hm f hf ht hex
    exact ⟨y, List.mem_cons_of_mem x hy, hc⟩
  only y hy remote hc := by
    rcases List.mem_cons.mp hy with rfl | hy
    · exact absurd ⟨remote, hc⟩ hx
    · exact h.only y hy remote hc

lemma ReadsFor.of_mem (h : ReadsFor o xs new) (hmem : ∀ f, f ∈ new ↔ f ∈ more) :
    ReadsFor o xs more where
  all hm f hf := h.all hm f ((hmem f).mpr hf)
  only x hx remote hc := by
    obtain ⟨hm, f, hf, hrest⟩ := h.only x hx remote hc
    exact ⟨hm, f, (hmem f).mp hf, hrest⟩

end Rules

/-- An entry of the directory `d`, as the listing of `d` shows it. -/
lemma listed_singleton {x : Exchange} {d : Text} {need : Bool}
    (hx : x.call = .fetchList (o.remoteRoot ++ d ++ slashAfter d) need)
    (hok : x.reply.code = SITE_OK) : Listed o [x] k ↔ k ∈ x.reply.files.map (keyOf d) := by
  have hdrop : (o.remoteRoot ++ d ++ slashAfter d).drop o.remoteRoot.length = d ++ slashAfter d := by
    rw [List.append_assoc, List.drop_left]
  constructor
  · rintro ⟨y, hy, dir, need', hc, -, f, hf, rfl⟩
    rw [List.mem_singleton.mp hy] at hc hf
    rw [hx] at hc
    cases hc
    rw [hdrop, relfn_eq]
    exact List.mem_map_of_mem hf
  · intro hk
    obtain ⟨f, hf, rfl⟩ := List.mem_map.mp hk
    exact ⟨x, by simp, _, _, hx, hok, f, hf, by rw [hdrop, relfn_eq]; rfl⟩

/-- Listing the directory `d` and going on with the directories found in it. -/
lemma Explored.step {d : Text} {need : Bool} {stack stack' : List Text} {x : Exchange}
    {zs : List Exchange} (hx : x.call = .fetchList (o.remoteRoot ++ d ++ slashAfter d) need)
    (hok : x.reply.code = SITE_OK) (hshown : new.map shown = x.reply.files.map (keyOf d))
    (hquiet : ∀ y ∈ ys, ¬ IsList y) (hreads : ReadsFor o ys new)
    (hstack : ∀ p ∈ stack', p ∈ stack ∨
      ((.dir, p) ∈ x.reply.files.map (keyOf d) ∧ fileIsexcluded p o = false))
    (h : Explored o stack' zs more) : Explored o (d :: stack) (x :: (ys ++ zs)) (more ++ new) := by
  have hlisted : ∀ k, Listed o (x :: (ys ++ zs)) k ↔
      k ∈ x.reply.files.map (keyOf d) ∨ Listed o zs k := by
    intro k
    rw [← List.singleton_append, listed_append, listed_append, listed_singleton hx hok]
    simp [not_listed_of_none hquiet]
  refine ⟨fun k => ?_, fun y hy dir need' hc => ?_, ?_⟩
  · rw [hlisted, List.map_append, List.mem_append, hshown, h.found, or_comm]
  · rw [List.mem_cons, List.mem_append] at hy
    rcases hy with rfl | hy | hy
    · rw [hx] at hc
      cases hc
      exact ⟨d, rfl, Or.inl (by simp)⟩
    · exact absurd ⟨dir, need', hc⟩ (hquiet y hy)
    · obtain ⟨p, hp, hplace⟩ := h.places y hy dir need' hc
      refine ⟨p, hp, ?_⟩
      rcases hplace with hplace | ⟨hl, hex⟩
      · rcases hstack p hplace with hold | ⟨hnew, hex⟩
        · exact Or.inl (List.mem_cons_of_mem d hold)
        · exact Or.inr ⟨(hlisted _).mpr (Or.inl hnew), hex⟩
      · exact Or.inr ⟨(hlisted _).mpr (Or.inr hl), hex⟩
  · apply ReadsFor.cons
    · apply (hreads.append h.reads).of_mem
      intro f
      simp only [List.mem_append, or_comm]
    · rintro ⟨remote, hr⟩
      rw [hx] at hr
      cases hr

/-! ### The loops -/

section Loop
variable {σ ε : Type} {env : FetchEnv σ} {log : σ → List ε} {view : ε → Exchange}
  {o : SiteOptions} {s : σ}

/-- One exchange is logged. -/
lemma fetchCall_logged (hl : Logged env log view) (c : FetchCall) (s : σ) :
    Ends (fetchCall env c) s fun r t => ∃ e, log t = log s ++ [e] ∧ view e = ⟨c, r⟩ :=
  hl.exec c s

lemma fetchChecksumFile_logged (hl : Logged env log view) (f : ProtoFile) (s : σ) :
    Ends (fetchChecksumFile env o f) s fun _ t => ∃ seg, log t = log s ++ seg ∧
      (∃ e ∈ seg, (view e).call = .fileRead (o.remoteRoot ++ f.filename)) ∧
      ∀ e ∈ seg, (view e).call = .fileRead (o.remoteRoot ++ f.filename) ∨
        (view e).call = .error := by
  unfold fetchChecksumFile
  rw [ends_bind]
  apply (fetchCall_logged hl _ s).mono
  rintro r t ⟨e, he, hv⟩
  have hc : (view e).call = .fileRead (o.remoteRoot ++ f.filename) := by rw [hv]
  rw [ends_ite]
  split_ifs
  · rw [ends_bind]
    apply (fetchCall_logged hl _ t).mono
    rintro r' t' ⟨e', he', hv'⟩
    have hc' : (view e').call = .error := by rw [hv']
    rw [ends_pure]
    exact ⟨[e, e'], by rw [he', he, List.append_assoc]; rfl, by simp [hc], by simp [hc, hc']⟩
  · exact ⟨[e], he, by simp [hc], by simp [hc]⟩

/-- One turn of the loop reads a file if and only if it is to be checksummed. -/
lemma fetchEntry_logged (hl : Logged env log view) (d : Text) (f : ProtoFile)
    (dirstack : List Text) (s : σ) :
    Ends (fetchEntry env o d f dirstack) s fun r t => ∃ seg, log t = log s ++ seg ∧
      (∀ e ∈ seg, ¬ Needed (view e)) ∧ ReadsFor o (seg.map view) [r.1] := by
  have hquiet : ∀ g : ProtoFile, (o.stateMethod = .checksum → g.type = .file →
      fileIsexcluded g.filename o = false → False) → ∃ seg, log s = log s ++ seg ∧
        (∀ e ∈ seg, ¬ Needed (view e)) ∧ ReadsFor o (seg.map view) [g] := by
    intro g hg
    refine ⟨[], (List.append_nil _).symm, by simp, ⟨fun hm f hf ht hex => ?_, by simp⟩⟩
    rw [List.mem_singleton.mp hf] at ht hex
    exact (hg hm ht hex).elim
  unfold fetchEntry
  dsimp only
  split_ifs with hex hdir hread
  · apply hquiet
    intro _ ht
    rw [hdir.1] at ht
    cases ht
  · rw [ends_bind]
    apply ((fetchChecksumFile_logged hl _ s).and (fetchChecksumFile_shown _)).mono
    rintro g t ⟨⟨seg, hseg, ⟨e, he, hc⟩, hcalls⟩, hshown⟩
    obtain ⟨htype, hname⟩ := Prod.mk.inj hshown
    rw [ends_pure]
    refine ⟨seg, hseg, fun e he => ?_, ⟨fun _ f' hf _ _ => ?_, fun x hx remote hr => ?_⟩⟩
    · rcases hcalls e he with hc | hc <;> simp [Needed, IsList, hc]
    · rw [List.mem_singleton.mp hf, hname]
      exact ⟨_, List.mem_map_of_mem he, hc⟩
    · obtain ⟨e', he', rfl⟩ := List.mem_map.mp hx
      refine ⟨hread.2, g, by simp, by rw [htype]; exact hread.1, by simpa [hname] using hex, ?_⟩
      rcases hcalls e' he' with hc | hc <;> rw [hc] at hr
      · rw [hname, FetchCall.fileRead.inj hr]
      · cases hr
  · apply hquiet
    intro hm ht _
    exact hread ⟨ht, hm⟩
  · apply hquiet
    intro _ _ hno
    exact hex (congrArg not hno)

lemma fetchEntries_logged (hl : Logged env log view) (d : Text) (l : List ProtoFile)
    (dirstack : List Text) (s : σ) :
    Ends (fetchEntries env o d l dirstack) s fun r t => ∃ seg, log t = log s ++ seg ∧
      (∀ e ∈ seg, ¬ Needed (view e)) ∧ ReadsFor o (seg.map view) r.1 := by
  induction l generalizing dirstack s with
  | nil => exact ⟨[], (List.append_nil _).symm, by simp, readsFor_nil⟩
  | cons f l ih =>
    simp only [fetchEntries, ends_bind, ends_pure]
    apply (fetchEntry_logged hl d f dirstack s).mono
    rintro r t ⟨seg, hseg, hlists, hreads⟩
    apply (ih r.2 t).mono
    rintro rs u ⟨more, hmore, hlists', hreads'⟩
    refine ⟨seg ++ more, by rw [hmore, hseg, List.append_assoc], ?_, ?_⟩
    · intro e he
      rcases List.mem_append.mp he with he | he
      · exact hlists e he
      · exact hlists' e he
    · rw [List.map_append]
      exact hreads.append hreads'

/-- The whole loop: what it finds is listed in its exchanges. -/
theorem fetchLoop_logged (hl : Logged env log view) (fuel : ℕ) (dirstack : List Text)
    (files : List ProtoFile) (s : σ) :
    Ends (fetchLoop env o fuel dirstack files) s fun r t => ∃ seg, log t = log s ++ seg ∧
      ∀ ret files', r = some (ret, files') → ∃ new, files' = new ++ files ∧
        Explored o dirstack (seg.map view) new ∧
        (ret = SITE_OK ↔ ∀ e ∈ seg, Needed (view e) → (view e).reply.code = SITE_OK) := by
  induction fuel generalizing dirstack files s with
  | zero =>
    refine ⟨[], (List.append_nil _).symm, ?_⟩
    rintro ret files' ⟨⟩
  | succ fuel ih =>
    cases dirstack with
    | nil =>
      refine ⟨[], (List.append_nil _).symm, ?_⟩
      rintro ret files' ⟨⟩
      exact ⟨[], rfl, ⟨by simp [Listed], by simp, readsFor_nil⟩, by simp⟩
    | cons d dirstack =>
      simp only [fetchLoop, ends_bind, ends_ite, ends_pure]
      apply (fetchCall_logged hl _ s).mono
      rintro r t ⟨e, he, hv⟩
      split_ifs with hcode
      · refine ⟨[e], he, ?_⟩
        rintro ret files' ⟨⟩
        have hcall : (view e).call =
            .fetchList (o.remoteRoot ++ d ++ slashAfter d) (needModtimes o) := by rw [hv]
        refine ⟨[], rfl, ⟨fun k => ?_, ?_, ?_⟩, iff_of_false hcode fun hall => hcode ?_⟩
        · simp [Listed, hv, hcode]
        · intro x hx dir need hc
          rw [List.map_singleton, List.mem_singleton] at hx
          rw [hx, hv] at hc
          cases hc
          exact ⟨d, rfl, Or.inl (by simp)⟩
        · apply readsFor_nil.cons
          rintro ⟨remote, hr⟩
          rw [hv] at hr
          cases hr
        · have hlast := hall e (by simp) (Or.inr ⟨_, _, hcall⟩)
          rwa [hv] at hlast
      · rw [ne_eq, not_not] at hcode
        have hcall : (view e).call =
            .fetchList (o.remoteRoot ++ d ++ slashAfter d) (needModtimes o) := by rw [hv]
        have hreply : (view e).reply = r := by rw [hv]
        apply ((fetchEntries_logged hl d r.files dirstack t).and
          (fetchEntries_spec d r.files dirstack)).mono
        rintro new t₁ ⟨⟨seg, hseg, hquiet, hreads⟩, hshown, hstack⟩
        apply (ih new.2 (new.1 ++ files) t₁).mono
        rintro out t₂ ⟨seg', hseg', hrest⟩
        refine ⟨e :: (seg ++ seg'), by rw [hseg', hseg, he]; simp, ?_⟩
        rintro ret files' hout
        obtain ⟨more, rfl, hexplored, hall⟩ := hrest ret files' hout
        refine ⟨more ++ new.1, by rw [List.append_assoc], ?_, ?_⟩
        · rw [List.map_cons, List.map_append]
          apply hexplored.step hcall (by rw [hreply]; exact hcode) (by rw [hreply]; exact hshown)
            _ hreads
          · intro p hp
            rw [hstack] at hp
            rcases mem_of_mem_push hp with hp | hp
            · refine Or.inr ?_
              rw [hreply]
              simp only [directories, List.mem_filter, List.mem_map, decide_eq_true_eq,
                Bool.not_eq_true'] at hp
              obtain ⟨⟨f, ⟨hf, ht⟩, rfl⟩, hex⟩ := hp
              exact ⟨List.mem_map.mpr ⟨f, hf, by rw [keyOf, ht]⟩, hex⟩
            · exact Or.inl hp
          · intro x hx
            obtain ⟨e', he', rfl⟩ := List.mem_map.mp hx
            exact fun hlist => hquiet e' he' (Or.inr hlist)
        · rw [hall]
          constructor
          · intro hok e' he' hlist
            rw [List.mem_cons, List.mem_append] at he'
            rcases he' with rfl | he' | he'
            · rw [hreply]
              exact hcode
            · exact absurd hlist (hquiet e' he')
            · exact hok e' he' hlist
          · intro hok e' he' hlist
            exact hok e' (by simp [he']) hlist

/-- Exchanges that neither list nor read tell nothing. -/
lemma Explored.frame {start : List Text} {xs ys zs : List Exchange} {new : List ProtoFile}
    (h : Explored o start xs new) (hys : ∀ y ∈ ys ++ zs, ¬ IsList y ∧ ¬ IsRead y) :
    Explored o start (ys ++ xs ++ zs) new := by
  have hy : ∀ y ∈ ys, ¬ IsList y := fun y hy => (hys y (List.mem_append_left _ hy)).1
  have hz : ∀ z ∈ zs, ¬ IsList z := fun z hz => (hys z (List.mem_append_right _ hz)).1
  have hlisted : ∀ k, Listed o (ys ++ xs ++ zs) k ↔ Listed o xs k := by
    intro k
    rw [listed_append, listed_append]
    simp [not_listed_of_none hy, not_listed_of_none hz]
  have hmem : ∀ x ∈ ys ++ xs ++ zs, x ∈ xs ∨ (¬ IsList x ∧ ¬ IsRead x) := by
    intro x hx
    simp only [List.mem_append] at hx hys
    rcases hx with (hx | hx) | hx
    · exact Or.inr (hys x (Or.inl hx))
    · exact Or.inl hx
    · exact Or.inr (hys x (Or.inr hx))
  refine ⟨fun k => (h.found k).trans (hlisted k).symm, fun x hx dir need hc => ?_,
    fun hm f hf ht hex => ?_, fun x hx remote hc => ?_⟩
  · rcases hmem x hx with hx | hx
    · obtain ⟨d, hd, hplace⟩ := h.places x hx dir need hc
      exact ⟨d, hd, by rwa [hlisted]⟩
    · exact absurd ⟨dir, need, hc⟩ hx.1
  · obtain ⟨x, hx, hc⟩ := h.reads.all hm f hf ht hex
    exact ⟨x, by simp [hx], hc⟩
  · rcases hmem x hx with hx | hx
    · exact h.reads.only x hx remote hc
    · exact absurd ⟨remote, hc⟩ hx.2

/-- What a fetch of `site` that ended as `out` tells, given its exchanges. -/
structure Fetched (site : Site) (xs : List Exchange) (out : FetchResult) : Prop where
  unchanged : out.ret ≠ SITE_OK → out.site = site
  needed : out.ret = SITE_OK → ∀ x ∈ xs, Needed x → x.reply.code = SITE_OK
  failed : out.ret ≠ SITE_OK → (∃ x ∈ xs, Needed x ∧ x.reply.code ≠ SITE_OK) ∨
    ∀ x ∈ xs, ¬ IsRead x
  explored : out.ret = SITE_OK → ∃ new, Explored site.opts [[]] xs new ∧
    storedKeys out.site.files = fetchedKeys site.opts new

lemma addFetched_logged (hl : Logged env log view) (files : List ProtoFile) (site : Site) (s : σ) :
    Ends (addFetched env files site) s fun _ t => log t = log s := by
  induction files generalizing site s with
  | nil => rfl
  | cons f files ih =>
    unfold addFetched
    rw [ends_ite]
    split_ifs
    · rw [ends_bind, ends_run]
      apply (ih _ _).mono
      intro _ t ht
      exact ht.trans (hl.time s)
    · exact ih site s

/-- `proto_finish` makes two calls that are neither needed nor read anything. -/
lemma fetchFinish_logged (hl : Logged env log view) (s : σ) :
    Ends (fetchFinish env) s fun _ t => ∃ seg, log t = log s ++ seg ∧
      ∀ e ∈ seg, ¬ Needed (view e) ∧ ¬ IsRead (view e) := by
  unfold fetchFinish
  simp only [ends_bind, ends_pure]
  apply (fetchCall_logged hl _ s).mono
  rintro r t ⟨e, he, hv⟩
  apply (fetchCall_logged hl _ t).mono
  rintro r' t' ⟨e', he', hv'⟩
  refine ⟨[e, e'], by rw [he', he, List.append_assoc]; rfl, ?_⟩
  simp [hv, hv', Needed, IsList, IsRead]

theorem siteFetch_logged (hl : Logged env log view) {site : Site} (wl : WellLinked site)
    (fuel : ℕ) (s : σ) :
    Ends (siteFetch env fuel site) s fun r t => ∃ seg, log t = log s ++ seg ∧
      ∀ out, r = some out → Fetched site (seg.map view) out := by
  unfold siteFetch
  rw [ends_bind]
  apply (fetchCall_logged hl _ s).mono
  rintro init t ⟨e, he, hv⟩
  have hcall : (view e).call = .init := by rw [hv]
  have hreply : (view e).reply = init := by rw [hv]
  rw [ends_ite]
  split_ifs with hinit hfetch
  · simp only [ends_bind, ends_pure]
    apply (fetchCall_logged hl _ t).mono
    rintro r t₁ ⟨e₁, he₁, hv₁⟩
    apply (fetchFinish_logged hl t₁).mono
    rintro _ t₂ ⟨seg, hseg, hquiet⟩
    refine ⟨e :: e₁ :: seg, by rw [hseg, he₁, he]; simp, ?_⟩
    rintro out ⟨⟩
    refine ⟨fun _ => rfl, fun hok => absurd hok hinit, fun _ => Or.inl ⟨view e, by simp, ?_⟩,
      fun hok => absurd hok hinit⟩
    exact ⟨Or.inl hcall, by rwa [hreply]⟩
  · simp only [ends_bind, ends_pure]
    apply (fetchFinish_logged hl t).mono
    rintro _ t₁ ⟨seg, hseg, hquiet⟩
    refine ⟨e :: seg, by rw [hseg, he]; simp, ?_⟩
    rintro out ⟨⟩
    have hret : SITE_UNSUPPORTED ≠ SITE_OK := by decide
    refine ⟨fun _ => rfl, fun hok => absurd hok hret, fun _ => Or.inr fun x hx hread => ?_,
      fun hok => absurd hok hret⟩
    rw [List.map_cons, List.mem_cons] at hx
    rcases hx with rfl | hx
    · obtain ⟨remote, hr⟩ := hread
      rw [hcall] at hr
      cases hr
    · obtain ⟨e', he', rfl⟩ := List.mem_map.mp hx
      exact (hquiet e' he').2 hread
  · rw [ne_eq, not_not] at hinit
    rw [ends_bind]
    apply (fetchLoop_logged hl fuel [[]] [] t).mono
    rintro r t₁ ⟨seg, hseg, hloop⟩
    cases r with
    | none =>
      rw [ends_pure]
      refine ⟨e :: seg, by rw [hseg, he]; simp, ?_⟩
      rintro out ⟨⟩
    | some found =>
      obtain ⟨ret, files⟩ := found
      obtain ⟨new, hnew, hexplored, hall⟩ := hloop ret files rfl
      rw [List.append_nil] at hnew
      subst hnew
      dsimp only
      split_ifs with hok
      · rw [ends_bind]
        obtain ⟨hwl, hnone⟩ := destroyStored_keys wl
        apply ((addFetched_logged hl files _ t₁).and (addFetched_keys env files hwl t₁)).mono
        rintro site' t₂ ⟨hlog, hkeys⟩
        simp only [ends_bind, ends_pure]
        apply (fetchFinish_logged hl t₂).mono
        rintro _ t₃ ⟨fin, hfin, hquiet⟩
        refine ⟨e :: (seg ++ fin), by rw [hfin, hlog, hseg, he]; simp, ?_⟩
        rintro out ⟨⟩
        refine ⟨fun hno => absurd rfl hno, fun _ x hx hneed => ?_, fun hno => absurd rfl hno,
          fun _ => ⟨files, ?_, ?_⟩⟩
        · obtain ⟨e', he', rfl⟩ := List.mem_map.mp hx
          rw [List.mem_cons, List.mem_append] at he'
          rcases he' with rfl | he' | he'
          · rwa [hreply]
          · exact hall.mp hok e' he' hneed
          · exact absurd hneed (hquiet e' he').1
        · have hframe : ∀ y ∈ [view e] ++ fin.map view, ¬ IsList y ∧ ¬ IsRead y := by
            intro y hy
            rw [List.singleton_append, List.mem_cons] at hy
            rcases hy with rfl | hy
            · simp [IsList, IsRead, hcall]
            · obtain ⟨e', he', rfl⟩ := List.mem_map.mp hy
              exact ⟨fun hlist => (hquiet e' he').1 (Or.inr hlist), (hquiet e' he').2⟩
          simpa using hexplored.frame hframe
        · rw [hkeys, hnone, Set.empty_union]
          rfl
      · simp only [ends_bind, ends_pure]
        apply (fetchFinish_logged hl t₁).mono
        rintro _ t₂ ⟨fin, hfin, hquiet⟩
        refine ⟨e :: (seg ++ fin), by rw [hfin, hseg, he]; simp, ?_⟩
        rintro out ⟨⟩
        have hret : SITE_FAILED ≠ SITE_OK := by decide
        refine ⟨fun _ => rfl, fun hno => absurd hno hret, fun _ => Or.inl ?_,
          fun hno => absurd hno hret⟩
        have hfail := mt hall.mpr hok
        push Not at hfail
        obtain ⟨e', he', hneed, hcode⟩ := hfail
        exact ⟨view e', by simp only [List.map_cons, List.map_append, List.mem_cons,
          List.mem_append, List.mem_map]; exact Or.inr (Or.inl ⟨e', he', rfl⟩), hneed, hcode⟩

end Loop

end Sitecopy.FetchLog
