import Sitecopy.FetchLog

/-!
# A fetch succeeds or changes nothing

A fetch that does not succeed leaves the site as it was. But of the calls that it makes it
does not look at what `file_read` returns, so that it may succeed without a checksum.
-/
namespace Sitecopy.FetchAtomicity
open SiteModel FileSet FileSetSpec StateProgram SiteOperations RemoteFetch FetchLog StackSearch

variable {σ : Type}

/-- A driver that keeps a log of its exchanges beside the sessions of `env`. -/
def recording (env : FetchEnv σ) : FetchEnv (σ × List Exchange) where
  fetches := env.fetches
  exec c s :=
    let r := env.exec c s.1
    (r.1, (r.2, s.2 ++ [⟨c, r.1⟩]))
  time s :=
    let r := env.time s.1
    (r.1, (r.2, s.2))

lemma recording_logged (env : FetchEnv σ) : Logged (recording env) Prod.snd id where
  exec c s := ⟨⟨c, (env.exec c s.1).1⟩, rfl, rfl⟩
  time _ := rfl

/-! ### Keeping a log changes nothing -/

section Erase
variable (env : FetchEnv σ) (o : SiteOptions)

lemma fetchCall_refines (c : FetchCall) :
    Refines Prod.fst (fetchCall (recording env) c) (fetchCall env c) :=
  ⟨fun _ => rfl, fun _ => rfl⟩

lemma fetchChecksumFile_refines (f : ProtoFile) :
    Refines Prod.fst (fetchChecksumFile (recording env) o f) (fetchChecksumFile env o f) := by
  apply (fetchCall_refines env _).bind
  intro r
  apply Refines.ite
  · exact (fetchCall_refines env _).bind fun _ => Refines.pure _
  · exact Refines.pure _

lemma fetchEntry_refines (d : Text) (f : ProtoFile) (dirstack : List Text) :
    Refines Prod.fst (fetchEntry (recording env) o d f dirstack) (fetchEntry env o d f dirstack) := by
  unfold fetchEntry
  dsimp only
  apply Refines.ite
  · apply Refines.ite
    · exact Refines.pure _
    · apply Refines.ite
      · exact (fetchChecksumFile_refines env o _).bind fun _ => Refines.pure _
      · exact Refines.pure _
  · exact Refines.pure _

lemma fetchEntries_refines (d : Text) (l : List ProtoFile) (dirstack : List Text) :
    Refines Prod.fst (fetchEntries (recording env) o d l dirstack)
      (fetchEntries env o d l dirstack) := by
  induction l generalizing dirstack with
  | nil => exact Refines.pure _
  | cons f l ih =>
    exact (fetchEntry_refines env o d f dirstack).bind fun r =>
      (ih r.2).bind fun _ => Refines.pure _

lemma fetchLoop_refines (fuel : ℕ) (dirstack : List Text) (files : List ProtoFile) :
    Refines Prod.fst (fetchLoop (recording env) o fuel dirstack files)
      (fetchLoop env o fuel dirstack files) := by
  induction fuel generalizing dirstack files with
  | zero => exact Refines.pure _
  | succ fuel ih =>
    cases dirstack with
    | nil => exact Refines.pure _
    | cons d dirstack =>
      apply (fetchCall_refines env _).bind
      intro r
      apply Refines.ite
      · exact Refines.pure _
      · exact (fetchEntries_refines env o d r.files dirstack).bind fun new => ih _ _

lemma addFetched_refines (files : List ProtoFile) (site : Site) :
    Refines Prod.fst (addFetched (recording env) files site) (addFetched env files site) := by
  induction files generalizing site with
  | nil => exact Refines.pure _
  | cons f files ih =>
    unfold addFetched
    apply Refines.ite
    · have htime : Refines Prod.fst (recording env).time env.time := ⟨fun _ => rfl, fun _ => rfl⟩
      exact htime.bind fun now => ih _
    · exact ih site

lemma fetchFinish_refines : Refines Prod.fst (fetchFinish (recording env)) (fetchFinish env) :=
  (fetchCall_refines env _).bind fun _ => (fetchCall_refines env _).bind fun _ => Refines.pure _

/-- A fetch does the same with a driver that keeps a log. -/
theorem siteFetch_refines (fuel : ℕ) (site : Site) :
    Refines Prod.fst (siteFetch (recording env) fuel site) (siteFetch env fuel site) := by
  apply (fetchCall_refines env _).bind
  intro init
  apply Refines.ite
  · exact (fetchCall_refines env _).bind fun _ => (fetchFinish_refines env).bind fun _ =>
      Refines.pure _
  · apply Refines.ite
    · exact (fetchFinish_refines env).bind fun _ => Refines.pure _
    · apply (fetchLoop_refines env site.opts fuel _ _).bind
      rintro (_ | ⟨ret, files⟩)
      · exact Refines.pure _
      · apply Refines.ite
        · exact (addFetched_refines env files _).bind fun _ =>
            (fetchFinish_refines env).bind fun _ => Refines.pure _
        · exact (fetchFinish_refines env).bind fun _ => Refines.pure _

end Erase

/-! ### Success and failure -/

/-- The fetch of `site` that made the exchanges `xs` and ended as `out` is atomic: if it
succeeds, so did every listing and, in checksum mode, the reading of every file stored;
otherwise nothing has changed. -/
structure Atomic (site : Site) (xs : List Exchange) (out : FetchResult) : Prop where
  listed : out.ret = SITE_OK → ∀ x ∈ xs, IsList x → x.reply.code = SITE_OK
  read : out.ret = SITE_OK → site.opts.stateMethod = .checksum →
    ∀ g ∈ out.site.files, g.type = .file → g.storedState.existing = true →
      ∀ name, g.storedState.filename = some name →
        (∃ x ∈ xs, x.call = .fileRead (site.opts.remoteRoot ++ name)) ∧
        ∀ x ∈ xs, x.call = .fileRead (site.opts.remoteRoot ++ name) → x.reply.code = SITE_OK
  unchanged : out.ret ≠ SITE_OK → out.site = site

/-- No file is read in vain unless the session cannot be opened or a listing fails. -/
def ReadsSucceed (xs : List Exchange) : Prop :=
  (∀ x ∈ xs, Needed x → x.reply.code = SITE_OK) → ∀ x ∈ xs, IsRead x → x.reply.code = SITE_OK

/-- A file is read only to be stored. -/
lemma read_stored {site : Site} {xs : List Exchange} {out : FetchResult}
    (h : Fetched site xs out) (hok : out.ret = SITE_OK) {x : Exchange} (hx : x ∈ xs)
    {remote : Text} (hr : x.call = .fileRead remote) :
    site.opts.stateMethod = .checksum ∧ ∃ g ∈ out.site.files, g.type = .file ∧
      g.storedState.existing = true ∧ ∃ name, g.storedState.filename = some name ∧
        remote = site.opts.remoteRoot ++ name := by
  obtain ⟨new, hexplored, hkeys⟩ := h.explored hok
  obtain ⟨hm, f, hf, ht, hex, rfl⟩ := hexplored.reads.only x hx remote hr
  have hkey : (FileType.file, some f.filename) ∈ storedKeys out.site.files := by
    rw [hkeys]
    exact ⟨f, hf, hex, by rw [ht]; rfl⟩
  obtain ⟨g, hg, hexists, hgk⟩ := hkey
  obtain ⟨htype, hname⟩ := Prod.mk.inj hgk
  exact ⟨hm, g, hg, htype, hexists, f.filename, hname, rfl⟩

/-- And every file that is stored was read. -/
lemma stored_read {site : Site} {xs : List Exchange} {out : FetchResult}
    (h : Fetched site xs out) (hok : out.ret = SITE_OK) (hm : site.opts.stateMethod = .checksum)
    {g : SiteFile} (hg : g ∈ out.site.files) (ht : g.type = .file)
    (hex : g.storedState.existing = true) {name : Text}
    (hn : g.storedState.filename = some name) :
    ∃ x ∈ xs, x.call = .fileRead (site.opts.remoteRoot ++ name) := by
  obtain ⟨new, hexplored, hkeys⟩ := h.explored hok
  have hkey : (g.type, g.storedState.filename) ∈ storedKeys out.site.files := ⟨g, hg, hex, rfl⟩
  rw [hkeys] at hkey
  obtain ⟨f, hf, hfex, hk⟩ := hkey
  obtain ⟨hftype, hfname⟩ := Prod.mk.inj hk
  rw [hn] at hfname
  obtain rfl := Option.some.inj hfname
  apply hexplored.reads.all hm f hf _ hfex
  rw [ht] at hftype
  cases hp : f.type with
  | file => rfl
  | dir =>
    rw [hp] at hftype
    cases hftype
  | link =>
    rw [hp] at hftype
    cases hftype

lemma atomic_iff {site : Site} {xs : List Exchange} {out : FetchResult}
    (h : Fetched site xs out) : Atomic site xs out ↔ ReadsSucceed xs := by
  constructor
  · intro hatomic hneed x hx ⟨remote, hr⟩
    by_cases hok : out.ret = SITE_OK
    · obtain ⟨hm, g, hg, ht, hex, name, hn, rfl⟩ := read_stored h hok hx hr
      exact (hatomic.read hok hm g hg ht hex name hn).2 x hx hr
    · rcases h.failed hok with ⟨y, hy, hyn, hcode⟩ | hnone
      · exact absurd (hneed y hy hyn) hcode
      · exact absurd ⟨remote, hr⟩ (hnone x hx)
  · intro hreads
    refine ⟨fun hok x hx hl => h.needed hok x hx (Or.inr hl),
      fun hok hm g hg ht hex name hn => ⟨stored_read h hok hm hg ht hex hn, fun x hx hr => ?_⟩,
      h.unchanged⟩
    exact hreads (h.needed hok) x hx ⟨_, hr⟩

/-- A fetch is atomic in exactly those runs in which no `file_read` fails, unless `init` or
a `fetch_list` does; and it ends on every finite remote tree. -/
theorem fetch_atomic_iff (env : FetchEnv σ) {site : Site} (wl : WellLinked site) (sess : σ) :
    (∀ fuel out sess' xs,
      (siteFetch (recording env) fuel site).run (sess, []) = (some out, (sess', xs)) →
        (Atomic site xs out ↔ ReadsSucceed xs)) ∧
    ∀ tree, Serves env site.opts tree → ∃ fuel₀, ∀ fuel ≥ fuel₀, ∃ out rest,
      (siteFetch (recording env) fuel site).run (sess, []) = (some out, rest) := by
  constructor
  · intro fuel out sess' xs hrun
    have hlogged := siteFetch_logged (recording_logged env) wl fuel (sess, [])
    rw [ends_iff] at hlogged
    obtain ⟨seg, hseg, hfetched⟩ := hlogged _ _ hrun
    obtain rfl : xs = seg := hseg
    rw [List.map_id] at hfetched
    exact atomic_iff (hfetched out rfl)
  · intro tree hs
    have hserves : Serves (recording env) site.opts tree := fun d need s => hs d need s.1
    refine ⟨size (subdirectories site.opts tree) tree.height [] + 1, fun fuel hfuel => ?_⟩
    have hfuel' : size (subdirectories site.opts tree) tree.height [] < fuel := by omega
    obtain ⟨out, hout, -⟩ := siteFetch_runs hserves hfuel' (sess, [])
    exact ⟨out, _, Prod.ext hout rfl⟩

/-! ### A file that cannot be read -/

/-- A driver that lists one file and cannot read it. -/
def unreadableDriver : FetchEnv PUnit where
  fetches := true
  exec c s := match c with
    | .fetchList _ _ => ({ code := SITE_OK, files := [{ filename := ascii "f", type := .file }] }, s)
    | .fileRead _ => ({ code := SITE_FAILED }, s)
    | _ => ({ code := SITE_OK }, s)
  time s := (0, s)

def checksumSite : Site := { opts := { stateMethod := .checksum } }

theorem fetch_atomic_iff_checksum :
    (∀ fuel out sess' xs,
      (siteFetch (recording unreadableDriver) fuel checksumSite).run (PUnit.unit, []) =
        (some out, (sess', xs)) → (Atomic checksumSite xs out ↔ ReadsSucceed xs)) ∧
    ∀ tree, Serves unreadableDriver checksumSite.opts tree → ∃ fuel₀, ∀ fuel ≥ fuel₀,
      ∃ out rest, (siteFetch (recording unreadableDriver) fuel checksumSite).run (PUnit.unit, []) =
        (some out, rest) :=
  fetch_atomic_iff unreadableDriver ⟨by simp [checksumSite], by simp [checksumSite]⟩ PUnit.unit

/-- The fetch succeeds, and the file is stored with a checksum of zeros. -/
theorem unread_file_stored :
    ∃ out sess' xs, (siteFetch (recording unreadableDriver) 2 checksumSite).run (PUnit.unit, []) =
        (some out, (sess', xs)) ∧
      out.ret = SITE_OK ∧
      (∃ g ∈ out.site.files, g.storedState.filename = some (ascii "f") ∧
        g.storedState.checksum = .zero) ∧
      ¬ Atomic checksumSite xs out := by
  refine ⟨_, _, _, rfl, rfl, ⟨_, List.mem_singleton_self _, rfl, rfl⟩, fun h => ?_⟩
  have hread := (h.read rfl rfl _ (List.mem_singleton_self _) rfl rfl (ascii "f") rfl).2
    ⟨.fileRead (ascii "f"), { code := SITE_FAILED }⟩ (.tail _ (.tail _ (.head _))) rfl
  exact absurd hread (by decide)

end Sitecopy.FetchAtomicity
