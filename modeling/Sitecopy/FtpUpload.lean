import Sitecopy.FtpPairing

/-!
# Where an upload is stored

With `use_cwd` the client changes to the directory of the remote path and stores under
the last component. The stored file is the requested one unless the client logs in
again between the two steps, somewhere else than in that directory.
-/
namespace Sitecopy.FtpUpload
open SiteModel StateProgram FtpSession FtpTransfer FtpReplies FtpRules FtpPairing RunTrace

variable {ω κ : Type} {net : Network ω}

/-! ### Paths -/

/-- The parts between the slashes, after the bytes `cur` of the first one. -/
def parts : Text → Text → List Text
  | cur, [] => if cur = [] then [] else [cur]
  | cur, b :: rest =>
    if b = slash then (if cur = [] then parts [] rest else cur :: parts [] rest)
    else parts (cur ++ [b]) rest

/-- The names along a path. -/
def components (path : Text) : List Text := parts [] path

/-- What a name means in a working directory. -/
def resolve (dir name : Text) : List Text :=
  if name.head? = some slash then components name else components dir ++ components name

lemma parts_append (cur a b : Text) : parts cur (a ++ slash :: b) = parts cur a ++ components b := by
  induction a generalizing cur with
  | nil =>
    simp only [List.nil_append, parts, if_true]
    split_ifs <;> rfl
  | cons c a ih =>
    simp only [List.cons_append, parts]
    split_ifs
    · exact ih []
    · rw [ih []]
      rfl
    · exact ih _

lemma components_append (a b : Text) :
    components (a ++ slash :: b) = components a ++ components b := parts_append [] a b

lemma splitSlash_eq {dir base : Text} (h : slash ∉ base) :
    splitSlash (dir ++ slash :: base) = (dir, base) := by
  have hbase : ((dir ++ slash :: base).reverse.takeWhile (· ≠ slash)).reverse = base := by
    rw [List.reverse_append, List.reverse_cons, List.append_assoc, List.takeWhile_append_of_pos]
    · simp
    · intro b hb
      have : b ≠ slash := fun he => h (he ▸ List.mem_reverse.mp hb)
      simp [this]
  rw [splitSlash, hbase]
  have hlen : (dir ++ slash :: base).length - base.length - 1 = dir.length := by
    rw [List.length_append, List.length_cons]
    omega
  rw [hlen, List.take_left]

/-- An absolute path is its directory, a slash and its last component. -/
lemma splitSlash_append {path : Text} (h : path.head? = some slash) :
    (splitSlash path).1 ++ slash :: (splitSlash path).2 = path ∧ slash ∉ (splitSlash path).2 := by
  have hmem : slash ∈ path.reverse := List.mem_reverse.mpr (List.mem_of_mem_head? h)
  obtain ⟨base, dir, hsplit, hbase⟩ := List.eq_append_cons_of_mem hmem
  have hpath : path = dir.reverse ++ slash :: base.reverse := by
    rw [← List.reverse_reverse path, hsplit, List.reverse_append, List.reverse_cons,
      List.append_assoc, List.singleton_append]
  rw [hpath, splitSlash_eq (by simpa using hbase)]
  exact ⟨rfl, by simpa using hbase⟩

/-- The last component names the path in its directory. -/
lemma resolve_base {path dir : Text} (h : path.head? = some slash)
    (hdir : components dir = components (splitSlash path).1) :
    resolve dir (splitSlash path).2 = components path := by
  obtain ⟨hpath, hbase⟩ := splitSlash_append h
  have hrel : (splitSlash path).2.head? ≠ some slash :=
    fun he => hbase (List.mem_of_mem_head? he)
  rw [resolve, if_neg hrel, hdir, ← components_append, hpath]

/-! ### The steps of a run -/

/-- The remote path of the upload in progress, and whether its directory is settled. -/
def target : List Event → Option (Text × Bool)
  | [] => none
  | .put path :: _ => some (path, false)
  | .located :: tr => (target tr).map fun p => (p.1, true)
  | .putDone :: _ => none
  | _ :: tr => target tr

/-- Both commands for the path fit into the buffer of `execute`. -/
def Fits (path : Text) : Prop :=
  4 + (splitSlash path).1.length < 1024 ∧ 5 + (splitSlash path).2.length < 1024

instance (path : Text) : Decidable (Fits path) := inferInstanceAs (Decidable (_ ∧ _))

/-- A step after which the session still stores where it means to: a new login between the
change of directory and the upload starts in the same directory, and no reply is skipped. -/
def Steady (tr : List Event) (e : Event) : Prop :=
  Orderly tr e ∧
    match e with
    | .put path => path.head? = some slash → Fits path
    | .login dir => ∀ p ∈ target tr, p.1.head? = some slash → p.2 = true →
        components dir = components (splitSlash p.1).1
    | _ => True

/-- When the server accepts a `STOR` for an absolute path, that path is stored. -/
def Resolved (tr : List Event) : Event → Prop
  | .answer line code dir => ∀ p ∈ target tr, p.1.head? = some slash →
      ascii "STOR " <+: line → readyCode code = true → resolve dir (line.drop 5) = components p.1
  | _ => True

instance (tr : List Event) (e : Event) : Decidable (Resolved tr e) :=
  match e with
  | .answer line code dir => inferInstanceAs (Decidable (∀ p ∈ target tr, p.1.head? = some slash →
      ascii "STOR " <+: line → readyCode code = true → resolve dir (line.drop 5) = components p.1))
  | .command .. | .reply .. | .login _ | .accepted _ | .dataClosed _ | .put _ | .located
  | .putDone => .isTrue trivial

/-- What is known of a session in a phase of an upload; `due` tells whether the final reply
of a transfer may be due. -/
structure Tracked (phase : Option (Text × Bool)) (due : Bool) (s : Client ω) : Prop where
  upheld : Upheld Steady Resolved s.trace
  useCwd : s.sess.useCwd = true
  unread : Steps Steady s.trace →
    s.unread = [] ∨ due = true ∧ ∃ f : Reply, s.unread = f.lines (.final s.sent)
  target : Steps Steady s.trace → target s.trace = phase
  /-- the cached directory is that of the server, unless it is the mark of a new login -/
  cached : Steps Steady s.trace → s.sess.connected = true →
    s.sess.cwd = ascii "x" ∨ components s.dir = components s.sess.cwd
  fits : Steps Steady s.trace → ∀ p ∈ phase, p.1.head? = some slash → Fits p.1
  there : Steps Steady s.trace → ∀ p ∈ phase, p.1.head? = some slash → p.2 = true →
    s.sess.connected = true → components s.dir = components (splitSlash p.1).1

/-- The commands that a phase sends. -/
def Sendable (phase : Option (Text × Bool)) (cmd : Text) : Prop :=
  Plain cmd ∨ ∃ path name, phase = some (path, true) ∧
    cmd = printInto 1024 (ascii "STOR " ++ name) ∧
    (path.head? = some slash → Fits path → name = (splitSlash path).2)

variable {phase : Option (Text × Bool)} {due : Bool}

lemma Tracked.failed {s t : Client ω} (h : Upheld Steady Resolved s.trace)
    (hf : ¬ Steps Steady s.trace) (hst : s.trace <:+ t.trace) (huse : t.sess.useCwd = true) :
    Tracked phase due t := by
  obtain ⟨hupheld, hfailed⟩ := h.of_failed hf hst
  exact ⟨hupheld, huse, fun h => absurd h hfailed, fun h => absurd h hfailed,
    fun h => absurd h hfailed, fun h => absurd h hfailed, fun h => absurd h hfailed⟩

/-- Steps that leave the server's directory and the cached one alone. -/
lemma Tracked.step {due' : Bool} {s t : Client ω} (h : Tracked phase due s)
    (hupheld : Upheld Steady Resolved t.trace) (hsteps : Steps Steady t.trace → Steps Steady s.trace)
    (htarget : FtpUpload.target t.trace = FtpUpload.target s.trace)
    (hunread : Steps Steady t.trace →
      t.unread = [] ∨ due' = true ∧ ∃ f : Reply, t.unread = f.lines (.final t.sent))
    (hconnected : t.sess.connected = true → s.sess.connected = true)
    (hdir : t.dir = s.dir) (hcwd : t.sess.cwd = s.sess.cwd) (huse : t.sess.useCwd = s.sess.useCwd) :
    Tracked phase due' t where
  upheld := hupheld
  useCwd := huse.trans h.useCwd
  unread := hunread
  target hm := htarget.trans (h.target (hsteps hm))
  cached hm hc := by
    rw [hdir, hcwd]
    exact h.cached (hsteps hm) (hconnected hc)
  fits hm := h.fits (hsteps hm)
  there hm p hp habs hl hc := by
    rw [hdir]
    exact h.there (hsteps hm) p hp habs hl (hconnected hc)

lemma Tracked.finalDue {s : Client ω} (h : Tracked phase false s) : Tracked phase true s :=
  h.step h.upheld id rfl (fun hm => .inl ((h.unread hm).resolve_right (by simp))) id rfl rfl rfl

/-- An event that sends no command and changes no directory. -/
lemma Tracked.event {s : Client ω} {e : Event} (h : Tracked phase due s)
    (htarget : FtpUpload.target (e :: s.trace) = FtpUpload.target s.trace)
    (he : Resolved s.trace e) : Tracked phase due (mark e s) :=
  h.step (h.upheld.cons fun _ _ => he) (fun hm => hm.2) htarget (fun hm => h.unread hm.2) id
    rfl rfl rfl

lemma Tracked.alike {s t : Client ω} (h : Tracked phase due s) (ht : Alike s t) :
    Tracked phase due t :=
  h.step (ht.trace ▸ h.upheld) (fun hm => ht.trace ▸ hm) (congrArg _ ht.trace)
    (fun hm => by
      rw [ht.unread, ht.sent]
      exact h.unread (ht.trace ▸ hm))
    (fun hc => ht.connected ▸ hc) ht.dir ht.cwd ht.useCwd

lemma Tracked.hungUp {s : Client ω} (h : Tracked phase due s) : Tracked phase false (hungUp s) :=
  h.step h.upheld id rfl (fun _ => .inl rfl) nofun rfl rfl rfl

lemma Tracked.hasRead {s : Client ω} {due' : Bool} (h : Tracked phase due s) (origin : Origin)
    (lines : List Line) {rest : List Line}
    (hrest : Steps Steady s.trace →
      rest = [] ∨ due' = true ∧ ∃ f : Reply, rest = f.lines (.final s.sent)) :
    Tracked phase due' (hasRead origin lines rest s) :=
  h.step (h.upheld.cons fun _ _ => trivial) (fun hm => hm.2) rfl (fun hm => hrest hm.2) id rfl rfl rfl

/-! ### Commands -/

section Command
variable {cmd : Text} {s t : Client ω}

lemma sendable_stor (h : Sendable phase cmd) (hstor : ascii "STOR " <+: cmd) :
    ∃ path name, phase = some (path, true) ∧ cmd = printInto 1024 (ascii "STOR " ++ name) ∧
      (path.head? = some slash → Fits path → name = (splitSlash path).2) := by
  obtain hplain | h := h
  · exact absurd hstor hplain.2
  · exact h

lemma sendable_not_cwd (h : Sendable phase cmd) : ¬ ascii "CWD " <+: cmd := by
  obtain hplain | ⟨path, name, -, rfl, -⟩ := h
  · exact hplain.1
  · exact not_prefix_printInto (by decide) 1024 name

lemma isTransfer_of_stor (hstor : ascii "STOR " <+: cmd) : isTransfer cmd = true := by
  rw [isTransfer, List.isPrefixOf_iff_prefix.mpr hstor]
  rfl

/-- The server answers a command of the phase. -/
lemma answer_resolved (h : Tracked phase due s) (hcmd : Sendable phase cmd)
    (hconnected : isTransfer cmd = true → s.sess.connected = true)
    (hm : Steps Steady (wrote cmd s).trace) (code : ℕ) :
    Resolved (wrote cmd s).trace (.answer cmd code s.dir) := by
  intro p hp habs hstor hready
  obtain ⟨path, name, hphase, hcmd, hname⟩ := sendable_stor hcmd hstor
  have hp : p ∈ phase := h.target hm.2 ▸ hp
  obtain rfl : p = (path, true) := by simpa [hphase] using hp.symm
  have hfits := h.fits hm.2 _ hp habs
  have hdir := h.there hm.2 _ hp habs rfl (hconnected (isTransfer_of_stor hstor))
  -- nothing of the name is cut off
  have hline : cmd = ascii "STOR " ++ (splitSlash path).2 := by
    rw [hcmd, hname habs hfits, printInto, List.take_of_length_le]
    have hlen : 5 + (splitSlash path).2.length < 1024 := hfits.2
    have hverb : (ascii "STOR ").length = 5 := by decide
    rw [List.length_append]
    omega
  rw [hline]
  exact resolve_base habs hdir

lemma dirAfter_of_not_cwd (h : ¬ ascii "CWD " <+: cmd) (code : ℕ) (dir : Text) :
    dirAfter cmd code dir = dir := by
  rw [dirAfter, if_neg]
  simp [h]

lemma tracked_command (h : Tracked phase false s) (hcmd : Sendable phase cmd)
    (hconnected : isTransfer cmd = true → s.sess.connected = true) :
    Ends (runCommand net cmd) s fun ret t =>
      if ret = .ready ∧ isTransfer cmd = true then Tracked phase true t else Tracked phase false t := by
  have hwrote : Tracked phase false (wrote cmd s) := h.event rfl trivial
  have hweaken {ret : FtpCode} {t : Client ω} (ht : Tracked phase false t) :
      if ret = .ready ∧ isTransfer cmd = true then Tracked phase true t
      else Tracked phase false t := by
    split_ifs
    · exact ht.finalDue
    · exact ht
  by_cases hm : Steps Steady (wrote cmd s).trace
  swap
  · exact (runCommand_onward cmd s).mono fun _ t ht =>
      hweaken (.failed hwrote.upheld hm ht.trace (ht.useCwd.trans h.useCwd))
  have hdirAfter (code : ℕ) : (answered cmd code (wrote cmd s)).dir = s.dir :=
    dirAfter_of_not_cwd (sendable_not_cwd hcmd) code s.dir
  have hanswered (code : ℕ) : Tracked phase false (answered cmd code (wrote cmd s)) :=
    hwrote.step (hwrote.upheld.cons fun _ _ => answer_resolved h hcmd hconnected hm code)
      (fun hm => hm.2) rfl
      (fun hm' => .inl ((h.unread hm.2).resolve_right (by simp))) id (hdirAfter code) rfl rfl
  refine (runCommand_outcome hm.1.1 ((h.unread hm.2).resolve_right (by simp))).mono
    fun ret t ht => ?_
  cases ht with
  | unsent hret ht => exact hweaken (hwrote.hungUp.alike ht)
  | lost code hret ht => exact hweaken ((hanswered code).hungUp.alike ht)
  | refused r hret hcode ht =>
    have hread : Tracked phase false (hasRead (.reply (s.sent + 1))
        (r.lines (.reply (s.sent + 1))) [] (answered cmd r.code (wrote cmd s))) :=
      (hanswered r.code).hasRead _ _ fun _ => .inl rfl
    exact hweaken (hread.hungUp.alike ht)
  | read r finals hret hcode hfinals ht =>
    have hrest (hm : Steps Steady (answered cmd r.code (wrote cmd s)).trace) :=
      finals_cases hret hfinals hm.1.1
    split_ifs with hready
    · exact ((hanswered r.code).hasRead _ _ fun hm => (hrest hm).imp_right fun h => ⟨rfl, h.2⟩).alike ht
    · exact ((hanswered r.code).hasRead _ _ fun hm =>
        .inl ((hrest hm).resolve_right fun h => hready h.1)).alike ht

end Command

lemma tracked_close {s : Client ω} (h : Tracked phase true s) :
    Ends (dtpClose net) s fun _ t => Tracked phase false t := by
  have hclosed (success : Bool) : Tracked phase true (mark (.dataClosed success) s) :=
    h.event rfl trivial
  by_cases hm : Steps Steady s.trace
  swap
  · refine (dtpClose_onward s).mono fun _ t ht => ?_
    obtain ⟨success, ht⟩ := ht
    exact .failed (hclosed success).upheld (fun hm' => hm hm'.2) ht.trace
      (ht.useCwd.trans h.useCwd)
  refine (dtpClose_outcome ((h.unread hm).imp_right fun h => h.2)).mono fun _ t ht => ?_
  have hread (f : Reply) : Tracked phase false (FtpReplies.hasRead (.final s.sent)
      (f.lines (.final s.sent)) [] (mark (.dataClosed true) s)) :=
    (hclosed true).hasRead _ _ fun _ => .inl rfl
  cases ht with
  | skipped ht =>
    refine Tracked.alike ?_ ht
    exact (hclosed false).step (hclosed false).upheld id rfl
      (fun hm' => absurd hm'.1.1 Bool.false_ne_true) id rfl rfl rfl
  | lost ht => exact (hclosed true).hungUp.alike ht
  | refused f ht => exact (hread f).hungUp.alike ht
  | read f ht => exact (hread f).alike ht

/-- Every step but the change of directory, in any phase. -/
theorem tracked_invariant (net : Network ω) (phase : Option (Text × Bool)) :
    Invariant net (Sendable phase) (Tracked phase false) (Tracked phase true) where
  plain := .inl
  alike hst hs := hs.alike hst
  alike_due hst hs := hs.alike hst
  due := Tracked.finalDue
  hangUp := Tracked.hungUp
  command hcmd hconnected hs := tracked_command hs hcmd hconnected
  redial {s} hclosed hs :=
    { upheld := hs.upheld
      useCwd := hs.useCwd
      unread := hs.unread
      target := hs.target
      cached := fun _ _ => .inl rfl
      fits := hs.fits
      there := hs.there }
  greet r _ hs := by
    have hread := hs.event (e := .reply .greeting (r.lines .greeting)) rfl trivial
    exact hread.step hread.upheld id rfl (fun _ => .inl rfl) id rfl rfl rfl
  login {s} dir hcwd hs :=
    { upheld := hs.upheld.cons fun _ _ => trivial
      useCwd := hs.useCwd
      unread := fun hm => hs.unread hm.2
      target := fun hm => hs.target hm.2
      cached := fun _ _ => .inl hcwd
      fits := fun hm => hs.fits hm.2
      there := fun hm p hp habs hl _ => hm.1.2 p (by rw [hs.target hm.2]; exact hp) habs hl }
  accepted hs := hs.event rfl trivial
  refused hs := by
    refine hs.step (hs.upheld.cons fun _ _ => trivial) (fun hm => hm.2) rfl ?_ id rfl rfl rfl
    exact fun hm => absurd hm.1.1 Bool.false_ne_true
  close := tracked_close

/-! ### The change of directory -/

/-- After a successful `CWD`, before the client notes it. -/
structure Moved (path : Text) (s : Client ω) : Prop where
  tracked : Tracked (some (path, false)) false (forgetCwd s)
  dir : Steps Steady s.trace → path.head? = some slash →
    components s.dir = components (splitSlash path).1

lemma Alike.forgetCwd {s t : Client ω} (h : Alike s t) : Alike (forgetCwd s) (forgetCwd t) :=
  ⟨h.unread, h.dir, h.sent, h.trace, h.connected, .refl _, h.useCwd⟩

/-- Without a connection there is no directory to be wrong about. -/
lemma Tracked.hungUp_forget {s : Client ω} (h : Tracked phase due (forgetCwd s)) :
    Tracked phase false (FtpReplies.hungUp s) where
  upheld := h.upheld
  useCwd := h.useCwd
  unread _ := .inl rfl
  target := h.target
  cached _ hc := absurd hc Bool.false_ne_true
  fits := h.fits
  there _ _ _ _ _ hc := absurd hc Bool.false_ne_true

/-- The `CWD` that `maybe_chdir` sends for a path. -/
def cwdCommand (path : Text) : Text := printInto 1024 (ascii "CWD " ++ (splitSlash path).1)

section Cwd
variable {path : Text} {s : Client ω}

lemma dirAfter_cwd (hfits : Fits path) {code : ℕ} (hcode : okCode code = true) (dir : Text) :
    dirAfter (cwdCommand path) code dir = (splitSlash path).1 := by
  have hcmd : cwdCommand path = ascii "CWD " ++ (splitSlash path).1 := by
    rw [cwdCommand, printInto, List.take_of_length_le]
    have hlen : 4 + (splitSlash path).1.length < 1024 := hfits.1
    have hverb : (ascii "CWD ").length = 4 := by decide
    rw [List.length_append]
    omega
  rw [dirAfter, hcmd, hcode, if_pos]
  · rfl
  · rw [Bool.and_true, List.isPrefixOf_iff_prefix]
    exact List.prefix_append _ _

lemma not_stor_cwd : ¬ ascii "STOR " <+: cwdCommand path :=
  not_prefix_printInto (by decide) _ _

lemma isTransfer_cwd : isTransfer (cwdCommand path) = false :=
  isTransfer_printInto _ _ (by decide) (by decide) (by decide)

/-- The server's directory after the answer is of no account while the client forgets its own. -/
lemma answered_cwd (h : Tracked (some (path, false)) false s) (code : ℕ) :
    Tracked (some (path, false)) false
      (forgetCwd (answered (cwdCommand path) code (wrote (cwdCommand path) s))) where
  upheld := by
    have hwrote : Upheld Steady Resolved (wrote (cwdCommand path) s).trace :=
      h.upheld.cons fun _ _ => trivial
    exact hwrote.cons fun _ _ _ _ _ hstor => absurd hstor not_stor_cwd
  useCwd := h.useCwd
  unread hm := .inl ((h.unread hm.2.2).resolve_right (by simp))
  target hm := h.target hm.2.2
  cached _ _ := .inl rfl
  fits hm := h.fits hm.2.2
  there hm p hp _ hl := by
    obtain rfl : p = (path, false) := by simpa using hp.symm
    exact absurd hl Bool.false_ne_true

/-- `CWD` either moves the server or leaves it where it was. -/
lemma cwd_command (h : Tracked (some (path, false)) false s) :
    Ends (runCommand net (cwdCommand path)) s fun ret t =>
      if ret = .ok then Moved path t else Tracked (some (path, false)) false t := by
  have hwrote : Tracked (some (path, false)) false (wrote (cwdCommand path) s) := h.event rfl trivial
  by_cases hm : Steps Steady (wrote (cwdCommand path) s).trace
  swap
  · refine (runCommand_onward _ s).mono fun ret t ht => ?_
    have hfailed : Tracked (some (path, false)) false t :=
      .failed hwrote.upheld hm ht.trace (ht.useCwd.trans h.useCwd)
    have hsteps : ¬ Steps Steady t.trace := fun hm' => hm (hm'.of_suffix ht.trace)
    split_ifs
    · exact ⟨.failed hwrote.upheld hm ht.trace (ht.useCwd.trans h.useCwd), fun hm' => absurd hm' hsteps⟩
    · exact hfailed
  refine (runCommand_outcome hm.1.1 ((h.unread hm.2).resolve_right (by simp))).mono
    fun ret t ht => ?_
  have hfault {u : Client ω} (hret : IsFault ret) (hu : Tracked (some (path, false)) false u) :
      if ret = .ok then Moved path u else Tracked (some (path, false)) false u := by
    rw [if_neg]
    · exact hu
    · rintro rfl
      exact absurd hret (by simp [IsFault])
  cases ht with
  | unsent hret ht => exact hfault hret (hwrote.hungUp.alike ht)
  | lost code hret ht => exact hfault hret ((answered_cwd h code).hungUp_forget.alike ht)
  | refused r hret hcode ht =>
    have hread : Tracked (some (path, false)) false
        (forgetCwd (hasRead (.reply (s.sent + 1)) (r.lines (.reply (s.sent + 1))) []
          (answered (cwdCommand path) r.code (wrote (cwdCommand path) s)))) :=
      (answered_cwd h r.code).hasRead _ _ fun _ => .inl rfl
    exact hfault (.inl hret) (hread.hungUp_forget.alike ht)
  | read r finals hret hcode hfinals ht =>
    obtain rfl : finals = [] := by simpa [Finals, isTransfer_cwd] using hfinals
    split_ifs with hok
    · refine ⟨Tracked.alike ?_ (Alike.forgetCwd ht), fun hm' habs => ?_⟩
      · exact (answered_cwd h r.code).hasRead _ _ fun _ => .inl rfl
      · have hfits := h.fits hm.2 (path, false) rfl habs
        rw [ht.dir]
        exact congrArg components (dirAfter_cwd hfits (hret.ok.mp hok) s.dir)
    · have hrefused : okCode r.code = false := by
        rw [Bool.eq_false_iff]
        exact fun hc => hok (hret.ok.mpr hc)
      have hdir : dirAfter (cwdCommand path) r.code s.dir = s.dir := by
        rw [dirAfter, hrefused, Bool.and_false, if_neg Bool.false_ne_true]
      have hstay : Tracked (some (path, false)) false
          (answered (cwdCommand path) r.code (wrote (cwdCommand path) s)) :=
        hwrote.step (answered_cwd h r.code).upheld (fun hm => hm.2) rfl
          (fun hm => .inl ((hwrote.unread hm.2).resolve_right (by simp))) id hdir rfl rfl
      exact (hstay.hasRead _ _ fun _ => .inl rfl).alike ht

end Cwd

/-! ### Uploads -/

/-- Under this name the file is stored once the directory is settled. -/
def NameFor (path name : Text) : Prop :=
  (name.head? ≠ some slash ∨ pathMax < name.length) ∧
    (path.head? = some slash → Fits path → name = (splitSlash path).2)

lemma Fits.length {path : Text} (habs : path.head? = some slash) (h : Fits path) :
    path.length ≤ pathMax := by
  have hlen := congrArg List.length (splitSlash_append habs).1
  rw [List.length_append, List.length_cons] at hlen
  have h1 := h.1
  have h2 := h.2
  rw [pathMax]
  omega

lemma splitSlash_base_rel {path : Text} (habs : path.head? = some slash) :
    (splitSlash path).2.head? ≠ some slash :=
  fun he => (splitSlash_append habs).2 (List.mem_of_mem_head? he)

/-- A directory in which the client looks for a cached one is not the mark of a new login. -/
lemma splitSlash_dir_ne {path : Text} (habs : path.head? = some slash) :
    (splitSlash path).1 ≠ ascii "x" := by
  intro he
  have hpath := (splitSlash_append habs).1
  rw [he] at hpath
  have hx : ascii "x" = [120] := by decide
  rw [← hpath, hx] at habs
  exact absurd (Option.some.inj habs) (by decide)

/-- A name that does not make `maybe_chdir` do anything. -/
lemma maybeChdir_skip {name : Text} {s : Client ω} (huse : s.sess.useCwd = true)
    (hname : name.head? ≠ some slash ∨ pathMax < name.length) :
    Ends (maybeChdir net name) s fun r t => r = (.ok, name) ∧ t = s := by
  simp only [maybeChdir, ends_bind, ends_get]
  rw [if_pos]
  · exact ⟨rfl, rfl⟩
  · simpa [huse] using hname

/-- The upload goes on once the directory is settled. -/
lemma Tracked.located {path : Text} {s : Client ω} (h : Tracked (some (path, false)) false s)
    (hdir : Steps Steady s.trace → path.head? = some slash → s.sess.connected = true →
      components s.dir = components (splitSlash path).1) :
    Tracked (some (path, true)) false (mark .located s) where
  upheld := h.upheld.cons fun _ _ => trivial
  useCwd := h.useCwd
  unread hm := h.unread hm.2
  target hm := by
    simp only [mark, FtpUpload.target]
    rw [h.target hm.2]
    rfl
  cached hm := h.cached hm.2
  fits hm p hp habs := by
    obtain rfl : p = (path, true) := by simpa using hp.symm
    exact h.fits hm.2 (path, false) rfl habs
  there hm p hp habs _ hc := by
    obtain rfl : p = (path, true) := by simpa using hp.symm
    exact hdir hm.2 habs hc

lemma tracked_maybeChdir (path : Text) :
    ChdirRule net (Tracked (some (path, false)) false) (Tracked (some (path, true)) false)
      (NameFor path) path := by
  intro s hs
  by_cases hskip : path.head? ≠ some slash ∨ pathMax < path.length
  · refine (maybeChdir_skip hs.useCwd hskip).mono fun r t ht => ?_
    obtain ⟨rfl, rfl⟩ := ht
    rw [if_pos rfl]
    have hno (habs : path.head? = some slash) (hfits : Fits path) : False := by
      have := hfits.length habs
      rcases hskip with h | h
      · exact h habs
      · omega
    exact ⟨⟨hskip, fun habs hfits => (hno habs hfits).elim⟩,
      hs.located fun hm habs _ => (hno habs (hs.fits hm (path, false) rfl habs)).elim⟩
  obtain ⟨habs, hlen⟩ := not_or.mp hskip
  rw [not_not] at habs
  have hname : NameFor path (splitSlash path).2 := ⟨.inl (splitSlash_base_rel habs), fun _ _ => rfl⟩
  simp only [maybeChdir, ends_bind, ends_get]
  rw [if_neg (by simp [hs.useCwd, habs, hlen]), ends_ite]
  split_ifs with hdir
  · simp only [ends_bind, ends_updateSession, ends_pure]
    have hbroken (t : Client ω) (ht : if FtpCode.broken = .ok then Moved path t
        else Tracked (some (path, false)) false t) : Tracked (some (path, false)) false t := ht
    refine (executeWith_ends (tracked_invariant net _).ftpOpen (fun s hs _ => cwd_command hs)
      hbroken hs).mono fun ret t ht => ?_
    by_cases hret : ret = .ok
    swap
    · simp only [hret, if_false]
      obtain ⟨-, ht⟩ | ⟨got, ht, rfl⟩ := ht
      · exact ht
      · by_cases hgot : got = .ok
        · subst hgot
          exact absurd rfl hret
        · rw [if_neg hgot] at ht
          exact ht
    simp only [hret, if_true]
    refine ⟨hname, ?_⟩
    obtain ⟨hne, -⟩ | ⟨got, ht, hgot⟩ := ht
    · exact absurd hret hne
    have hgot : got = .ok := by
      by_cases hbroken : got = .broken
      · rw [hret, if_pos hbroken] at hgot
        exact absurd hgot (by decide)
      · rw [hret, if_neg hbroken] at hgot
        exact hgot.symm
    rw [if_pos hgot] at ht
    have hnoted : Tracked (some (path, false)) false
        { t with sess := { t.sess with cwd := (splitSlash path).1 } } :=
      { upheld := ht.tracked.upheld
        useCwd := ht.tracked.useCwd
        unread := ht.tracked.unread
        target := ht.tracked.target
        cached := fun hm _ => .inr (ht.dir hm habs)
        fits := ht.tracked.fits
        there := ht.tracked.there }
    exact hnoted.located fun hm _ _ => ht.dir hm habs
  · refine ⟨hname, hs.located fun hm _ hc => ?_⟩
    have hcached := hs.cached hm hc
    rw [not_not] at hdir
    rw [← hdir] at hcached
    exact hcached.resolve_left (splitSlash_dir_ne habs)

/-- Later turns of the loop find the name relative and leave the directory alone. -/
lemma tracked_again {path name : Text} (hname : NameFor path name) :
    ChdirRule net (Tracked (some (path, true)) false) (Tracked (some (path, true)) false)
      (NameFor path) name := by
  intro s hs
  refine (maybeChdir_skip hs.useCwd hname.1).mono fun r t ht => ?_
  obtain ⟨rfl, rfl⟩ := ht
  rw [if_pos rfl]
  exact ⟨hname,
    { upheld := hs.upheld.cons fun _ _ => trivial
      useCwd := hs.useCwd
      unread := fun hm => hs.unread hm.2
      target := fun hm => by
        simp only [mark, target]
        rw [hs.target hm.2]
        rfl
      cached := fun hm => hs.cached hm.2
      fits := fun hm => hs.fits hm.2
      there := fun hm => hs.there hm.2 }⟩

lemma tracked_ftpPut (localfile remotefile : Text) (asc : Bool) {s : Client ω}
    (hs : Tracked none false s) :
    Ends (ftpPut net localfile remotefile asc) s fun _ t => Tracked none false t := by
  have hdone {p : Text × Bool} {t : Client ω} (h : Tracked (some p) false t) :
      Tracked none false (mark .putDone t) :=
    { upheld := h.upheld.cons fun _ _ => trivial
      useCwd := h.useCwd
      unread := fun hm => h.unread hm.2
      target := fun _ => rfl
      cached := fun hm => h.cached hm.2
      fits := fun _ _ hp => absurd hp (by simp)
      there := fun _ _ hp => absurd hp (by simp) }
  have hput (t : Client ω) (h : Tracked none false t) :
      Tracked (some (remotefile, false)) false (mark (.put remotefile) t) :=
    { upheld := h.upheld.cons fun _ _ => trivial
      useCwd := h.useCwd
      unread := fun hm => h.unread hm.2
      target := fun _ => rfl
      cached := fun hm => h.cached hm.2
      fits := fun hm p hp habs => by
        obtain rfl : p = (remotefile, false) := by simpa using hp.symm
        exact hm.1.2 habs
      there := fun _ p hp _ hl => by
        obtain rfl : p = (remotefile, false) := by simpa using hp.symm
        exact absurd hl Bool.false_ne_true }
  exact ftpPut_ends (tracked_invariant net _) (tracked_invariant net (some (remotefile, true)))
    (fun name hname => .inr ⟨remotefile, name, rfl, rfl, hname.2⟩) (tracked_maybeChdir remotefile)
    (fun _ hname => tracked_again hname) hput (fun _ h => hdone h) (fun _ h => hdone h) localfile
    asc hs

/-- In every run with `use_cwd`, up to the first step that is not steady, an accepted `STOR`
for an absolute path stores that path. -/
theorem stor_resolves (net : Network ω) (ls : LsParser κ) (ops : List Op) (w : ω)
    (usePassive : Bool) (username password : Text) (piAddr : List InetAddr) :
    Upheld Steady Resolved
      ((runOps net ls ops).run
        { net := w, sess := startSession usePassive true username password piAddr }).2.trace := by
  have hstart : Tracked none false
      { net := w, sess := startSession usePassive true username password piAddr } :=
    { upheld := upheld_nil
      useCwd := rfl
      unread := fun _ => .inl rfl
      target := fun _ => rfl
      cached := fun _ hc => absurd hc Bool.false_ne_true
      fits := fun _ _ hp => absurd hp (by simp)
      there := fun _ _ hp => absurd hp (by simp) }
  have hput (localfile remotefile : Text) (asc : Bool) (s : Client ω) (hs : Tracked none false s) :
      Ends (ftpPut net localfile remotefile asc) s fun _ t => Tracked none false t :=
    tracked_ftpPut localfile remotefile asc hs
  exact ((tracked_invariant net none).runOps ls hput ops hstart).upheld

/-! ### A connection that is lost before the final reply -/

/-- A server whose logins start in `/home`. The connection is lost at the seventh read. -/
def droppedNetwork : Network ℕ where
  feLogin _ _ := pure none
  connect _ := pure true
  greeting := pure (.checked 220 [] (Eq.refl true))
  loginDir := pure (ascii "/home")
  answer line := pure
    (if (ascii "USER").isPrefixOf line then .checked 230 [] (Eq.refl true)
    else if (ascii "CWD").isPrefixOf line then .checked 250 [] (Eq.refl true)
    else if (ascii "STOR").isPrefixOf line then .checked 150 [] (Eq.refl true)
    else .checked 200 [] (Eq.refl true))
  final := pure (.checked 226 [] (Eq.refl true))
  write := pure none
  readline := do
    let n ← get
    set (n + 1)
    pure (if n = 6 then some .closed else none)
  mktime _ := 0
  dtpConnect _ _ := pure true
  listen := pure (some [127, 0, 0, 1, 4, 1])
  accept := pure true
  dtpWrite _ := pure none
  dtpRead := pure ([], .closed)
  dtpClose := pure true
  fopen _ := pure (some (ascii "data"))
  fstat := pure true
  ferror := pure none
  fseek := pure true
  fcreate _ := pure true
  fwrite := pure none
  fclose := pure true

def droppedRun : List FtpCode × Client ℕ :=
  (runOps droppedNetwork emptyListing [.put (ascii "f") (ascii "/www/f") false]).run
    { net := 0, sess := startSession false true (ascii "u") (ascii "p") [⟨.ipv4, [127, 0, 0, 1]⟩] }

/-- The upload of `/www/f` is repeated after a new login without `CWD`: it is stored as
`/home/f`, and reported as a success. -/
theorem stored_in_login_directory :
    droppedRun.1 = [.ok] ∧
      .answer (ascii "STOR f") 150 (ascii "/home") ∈ droppedRun.2.trace ∧
      ¬ Steps Resolved droppedRun.2.trace := by
  decide +kernel

end Sitecopy.FtpUpload
