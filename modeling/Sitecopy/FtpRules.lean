import Sitecopy.FtpReplies

/-!
# Invariants of FTP sessions

An invariant is proved for the primitive steps of a session: commands, logins, and the
end of a transfer. From these the rules here derive it for the retry loop of `execute`,
for `ftp_open`, and for every operation. `I` holds between commands; `T` may hold
instead while the final reply of an accepted transfer is to come.
-/
namespace Sitecopy.FtpRules
open SiteModel SiteOperations StateProgram FtpSession FtpTransfer FtpReplies

variable {ω κ : Type} {net : Network ω}

/-! ### The first bytes of a command -/

lemma not_prefix_append {p q : Text} (h : ¬ p <+: q ∧ ¬ q <+: p) (t : Text) : ¬ p <+: q ++ t := by
  intro hp
  rcases List.prefix_or_prefix_of_prefix hp (List.prefix_append q t) with hle | hle
  · exact h.1 hle
  · exact h.2 hle

/-- A command that starts with one verb starts with none of the others. -/
lemma not_prefix_verb {verbs : List Text} {q cmd : Text} (hq : q <+: cmd)
    (h : ∀ v ∈ verbs, ¬ v <+: q ∧ ¬ q <+: v) : ∀ v ∈ verbs, v.isPrefixOf cmd = false := by
  intro v hv
  obtain ⟨t, rfl⟩ := hq
  rw [Bool.eq_false_iff, Ne, List.isPrefixOf_iff_prefix]
  exact not_prefix_append (h v hv) t

lemma not_prefix_printInto {p q : Text} (h : ¬ p <+: q ∧ ¬ q <+: p) (n : ℕ) (t : Text) :
    ¬ p <+: printInto n (q ++ t) := by
  intro hp
  exact not_prefix_append h t (hp.trans (List.take_prefix _ _))

/-- The command neither changes the directory nor stores a file. -/
def Plain (cmd : Text) : Prop := ¬ ascii "CWD " <+: cmd ∧ ¬ ascii "STOR " <+: cmd

lemma plain_printInto {q : Text} (n : ℕ) (t : Text)
    (hcwd : ¬ ascii "CWD " <+: q ∧ ¬ q <+: ascii "CWD ")
    (hstor : ¬ ascii "STOR " <+: q ∧ ¬ q <+: ascii "STOR ") : Plain (printInto n (q ++ t)) :=
  ⟨not_prefix_printInto hcwd n t, not_prefix_printInto hstor n t⟩

lemma isTransfer_printInto {q : Text} (n : ℕ) (t : Text)
    (hstor : ¬ ascii "STOR " <+: q ∧ ¬ q <+: ascii "STOR ")
    (hretr : ¬ ascii "RETR " <+: q ∧ ¬ q <+: ascii "RETR ")
    (hlist : ¬ ascii "LIST " <+: q ∧ ¬ q <+: ascii "LIST ") :
    isTransfer (printInto n (q ++ t)) = false := by
  have h (p : Text) (hp : ¬ p <+: q ∧ ¬ q <+: p) : p.isPrefixOf (printInto n (q ++ t)) = false := by
    rw [Bool.eq_false_iff, Ne, List.isPrefixOf_iff_prefix]
    exact not_prefix_printInto hp n t
  rw [isTransfer, h _ hstor, h _ hretr, h _ hlist]
  rfl

example : Plain (printInto 1024 (ascii "MKD " ++ ascii "x")) :=
  plain_printInto _ _ (by decide) (by decide)

/-! ### The rule for the loop of `execute` -/

def OpenRule (I : Client ω → Prop) (openPi : Ftp ω FtpCode) : Prop :=
  ∀ s, I s → Ends openPi s fun ret t => I t ∧ (ret = .ok → t.sess.connected = true)

/-- What is known after an attempt: the opening has failed, or the command has run. -/
def Attempted (F Q : FtpCode → Client ω → Prop) : Except FtpCode FtpCode → Client ω → Prop
  | .error ret, t => ret ≠ .ok ∧ F ret t
  | .ok got, t => Q got t

/-- Either `ftp_open` failed, or the result is that of the last command. `O` holds when
`ftp_open` succeeds, and `F` when it fails. -/
theorem executeWith_cases {I O : Client ω → Prop} {F Q : FtpCode → Client ω → Prop}
    {openPi : Ftp ω FtpCode} {cmd : Text}
    (hopen : ∀ s, I s → Ends openPi s fun ret t => if ret = .ok then O t else F ret t)
    (hcmd : ∀ s, O s → Ends (runCommand net (printInto 1024 cmd)) s Q)
    (hbroken : ∀ t, Q .broken t → I t) {s : Client ω} (hs : I s) :
    Ends (executeWith net openPi cmd) s fun ret t =>
      ret ≠ .ok ∧ F ret t ∨ ∃ got, Q got t ∧ ret = if got = .broken then .error else got := by
  have hturn (s : Client ω) (hs : I s) :
      Ends (attempt net openPi (printInto 1024 cmd)) s (Attempted F Q) := by
    simp only [attempt, ends_bind, ends_ite, ends_pure, ends_map]
    refine (hopen s hs).mono fun ret t h => ?_
    split_ifs with hret
    · rw [if_neg hret] at h
      exact ⟨hret, h⟩
    · rw [if_pos (not_not.mp hret)] at h
      exact hcmd t h
  simp only [executeWith, ends_bind]
  refine (retry_ends hturn ?_ 2 hs).mono fun r t h => ?_
  · intro r t h hagain
    cases r with
    | error ret => cases hagain
    | ok got =>
      cases got with
      | broken => exact hbroken t h
      | _ => cases hagain
  · cases r with
    | error ret => exact .inl h
    | ok got => cases got <;> exact .inr ⟨_, h, rfl⟩

theorem executeWith_ends {I : Client ω → Prop} {Q : FtpCode → Client ω → Prop}
    {openPi : Ftp ω FtpCode} {cmd : Text} (hopen : OpenRule I openPi)
    (hcmd : ∀ s, I s → s.sess.connected = true →
      Ends (runCommand net (printInto 1024 cmd)) s Q)
    (hbroken : ∀ t, Q .broken t → I t) {s : Client ω} (hs : I s) :
    Ends (executeWith net openPi cmd) s fun ret t =>
      ret ≠ .ok ∧ I t ∨ ∃ got, Q got t ∧ ret = if got = .broken then .error else got := by
  refine executeWith_cases (O := fun t => I t ∧ t.sess.connected = true) (F := fun _ => I)
    (fun s hs => ?_) (fun s hs => hcmd s hs.1 hs.2) hbroken hs
  refine (hopen s hs).mono fun ret t h => ?_
  split_ifs with hret
  · exact ⟨h.1, h.2 hret⟩
  · exact h.1

/-! ### Invariants -/

def forgetCwd (s : Client ω) : Client ω := { s with sess := { s.sess with cwd := ascii "x" } }

def loggedIn (dir : Text) (s : Client ω) : Client ω :=
  { s with sess := { s.sess with connected := true }, dir, trace := .login dir :: s.trace }

def mark (e : Event) (s : Client ω) : Client ω := { s with trace := e :: s.trace }

/-- The commands of `authenticate`. -/
def Entering (cmd : Text) : Prop := ascii "USER " <+: cmd ∨ ascii "PASS " <+: cmd

/-- `I` is kept by every step of a new login. -/
structure Dialling (net : Network ω) (I : Client ω → Prop) : Prop where
  alike : ∀ {s t}, Alike s t → I s → I t
  hangUp : ∀ {s}, I s → I (hungUp s)
  enter : ∀ {cmd s}, Entering cmd → s.sess.connected = false → I s →
    Ends (runCommand net cmd) s fun _ t => I t
  redial : ∀ {s}, s.sess.connected = false → I s → I (forgetCwd s)
  greet : ∀ {s} (r : Reply), s.sess.connected = false → I s →
    I (hasRead .greeting (r.lines .greeting) [] s)
  login : ∀ {s} dir, s.sess.connected = false → s.sess.cwd = ascii "x" → I s →
    I (loggedIn dir s)

/-- `I` is kept by every step, and `T` may replace it after the commands that `sends`
allows, until the final reply of the transfer is read. -/
structure Invariant (net : Network ω) (sends : Text → Prop) (I T : Client ω → Prop) : Prop where
  plain : ∀ {cmd}, Plain cmd → sends cmd
  alike : ∀ {s t}, Alike s t → I s → I t
  alike_due : ∀ {s t}, Alike s t → T s → T t
  due : ∀ {s}, I s → T s
  hangUp : ∀ {s}, I s → I (hungUp s)
  command : ∀ {cmd s}, sends cmd → (isTransfer cmd = true → s.sess.connected = true) → I s →
    Ends (runCommand net cmd) s fun ret t =>
      if ret = .ready ∧ isTransfer cmd = true then T t else I t
  redial : ∀ {s}, s.sess.connected = false → I s → I (forgetCwd s)
  greet : ∀ {s} (r : Reply), s.sess.connected = false → I s →
    I (hasRead .greeting (r.lines .greeting) [] s)
  login : ∀ {s} dir, s.sess.cwd = ascii "x" → I s → I (loggedIn dir s)
  accepted : ∀ {s}, T s → T (mark (.accepted true) s)
  refused : ∀ {s}, T s → I (mark (.accepted false) s)
  close : ∀ {s}, T s → Ends (dtpClose net) s fun _ t => I t

section Rules
variable {sends : Text → Prop} {I T : Client ω → Prop}

/-! ### Logging in -/

/-- What holds of a session that is being logged in. -/
def Dialing (I : Client ω → Prop) (s : Client ω) : Prop :=
  I s ∧ s.sess.connected = false ∧ s.sess.cwd = ascii "x"

lemma Dialing.onward {s t : Client ω} (h : Dialing I s) (hst : Onward s t) (ht : I t) :
    Dialing I t := by
  refine ⟨ht, ?_, hst.cwd.trans h.2.2⟩
  rw [Bool.eq_false_iff]
  intro hconnected
  exact absurd (hst.connected hconnected) (by simp [h.2.1])

lemma Dialing.alike (d : Dialling net I) {s t : Client ω} (h : Dialing I s)
    (hst : Alike s t) : Dialing I t := h.onward hst.onward (d.alike hst h.1)

lemma prefix_printInto {q t : Text} {n : ℕ} (h : q.length ≤ n - 1) : q <+: printInto n (q ++ t) := by
  rw [printInto, List.take_append, List.take_of_length_le h]
  exact List.prefix_append _ _

lemma entering_user (username : Text) : Entering (printInto 1024 (ascii "USER " ++ username)) :=
  .inl (prefix_printInto (by decide))

lemma entering_pass (password : Text) : Entering (printInto 1024 (ascii "PASS " ++ password)) :=
  .inr (prefix_printInto (by decide))

lemma Dialling.command (d : Dialling net I) {cmd : Text} {s : Client ω} (hcmd : Entering cmd)
    (hs : Dialing I s) : Ends (runCommand net cmd) s fun _ t => Dialing I t := by
  refine ((d.enter hcmd hs.2.1 hs.1).and (runCommand_onward cmd s)).mono fun _ t h => ?_
  exact hs.onward ((wrote_onward cmd s).trans h.2) h.1

lemma Dialling.sendLogin (d : Dialling net I) {s : Client ω} (hs : Dialing I s)
    (username password : Text) : Ends (sendLogin net username password) s fun _ t => Dialing I t := by
  simp only [FtpSession.sendLogin, ends_bind, ends_updateSession, ends_ite, ends_pure]
  have hs : Dialing I { s with sess := { s.sess with username, password } } :=
    hs.alike d ⟨rfl, rfl, rfl, rfl, rfl, rfl, rfl⟩
  refine (d.command (entering_user username) hs).mono fun ret t ht => ?_
  split_ifs
  · exact d.command (entering_pass password) ht
  · exact ht

lemma Dialling.authenticate (d : Dialling net I) {s : Client ω} (hs : Dialing I s) :
    Ends (authenticate net) s fun _ t => Dialing I t := by
  simp only [FtpSession.authenticate, ends_bind, ends_get, ends_ite, ends_outside]
  split_ifs
  · refine Ends.of_forall fun login w => ?_
    have hs : Dialing I { s with net := w } := hs.alike d ⟨rfl, rfl, rfl, rfl, rfl, rfl, rfl⟩
    cases login with
    | none => exact hs
    | some login => exact d.sendLogin hs login.1 login.2
  · exact d.sendLogin hs _ _

lemma connectPi_alike (addresses : List InetAddr) (s : Client ω) :
    Ends (connectPi net addresses) s fun _ t => Alike s t := by
  induction addresses generalizing s with
  | nil => exact Alike.rfl
  | cons ia rest ih =>
    simp only [connectPi, ends_bind, ends_outside, ends_updateSession]
    refine Ends.of_forall fun success w => ?_
    rw [ends_ite]
    split_ifs
    · exact ⟨rfl, rfl, rfl, rfl, rfl, rfl, rfl⟩
    · refine (ih _).mono fun _ t ht => Alike.trans ?_ ht
      exact ⟨rfl, rfl, rfl, rfl, rfl, rfl, rfl⟩

/-- Opening a connection and logging in. -/
theorem Dialling.dial (d : Dialling net I) {s : Client ω} (hs : I s)
    (hclosed : s.sess.connected = false) :
    Ends (dial net) s fun ret t => I t ∧ (ret = .ok → t.sess.connected = true) := by
  have hs : Dialing I (forgetCwd s) := ⟨d.redial hclosed hs, hclosed, rfl⟩
  simp only [FtpSession.dial, ends_bind, ends_updateSession, ends_get, ends_ite, ends_pure]
  refine (connectPi_alike _ (forgetCwd s)).mono fun success t ht => ?_
  have hdialing := hs.alike d ht
  split_ifs
  · exact ⟨hdialing.1, (by rintro ⟨⟩)⟩
  simp only [ends_outside, ends_modify]
  refine Ends.of_forall fun hello w => ?_
  refine (readReply_only .greeting rfl).mono fun res u hu => ?_
  obtain ⟨ret, rfl, -, hu⟩ | ⟨rfl, hu⟩ := hu
  · refine ⟨d.alike ?_ (d.hangUp hdialing.1), (by rintro ⟨⟩)⟩
    exact ⟨hu.unread, hu.dir, hu.sent, hu.trace, hu.connected, hu.cwd, hu.useCwd⟩
  have hread : Alike (hasRead .greeting (hello.lines .greeting) [] t) u :=
    ⟨hu.unread, hu.dir, hu.sent, hu.trace, hu.connected, hu.cwd, hu.useCwd⟩
  have hdialing : Dialing I u :=
    ⟨d.alike hread (d.greet hello hdialing.2.1 hdialing.1),
      hread.connected.trans hdialing.2.1, hread.cwd.trans hdialing.2.2⟩
  rw [ends_bind]
  refine (parseReply_parsed hello.code u).mono fun ret v hv => ?_
  have hdialing : Dialing I v := by
    have hv := hv.2
    split_ifs at hv
    · exact Dialing.alike d ⟨d.hangUp hdialing.1, rfl, hdialing.2.2⟩ hv
    · exact hdialing.alike d hv
  rw [ends_ite]
  split_ifs
  · exact ⟨hdialing.1, (by rintro ⟨⟩)⟩
  rw [ends_bind]
  refine (d.authenticate hdialing).mono fun ret x hx => ?_
  rw [ends_ite]
  split_ifs
  · simp only [ends_bind, ends_get, hx.2.1]
    exact ⟨hx.1, (by rintro ⟨⟩)⟩
  · simp only [ends_bind, ends_outside, ends_modify, ends_pure]
    refine Ends.of_forall fun dir w => ⟨?_, fun _ => trivial⟩
    exact d.alike (s := loggedIn dir x) ⟨rfl, rfl, rfl, rfl, rfl, rfl, rfl⟩
      (d.login dir hx.2.1 hx.2.2 hx.1)

/-! ### Commands after a login -/

/-- The loop of `execute` when the command keeps the invariant. -/
lemma executeWith_keeps {openPi : Ftp ω FtpCode} (hopen : OpenRule I openPi) {cmd : Text}
    (hcmd : ∀ s, I s → s.sess.connected = true →
      Ends (runCommand net (printInto 1024 cmd)) s fun _ t => I t) {s : Client ω} (hs : I s) :
    Ends (executeWith net openPi cmd) s fun ret t =>
      I t ∧ (ret = .ok → t.sess.connected = true) := by
  have hturn (s : Client ω) (hs : I s) (hconnected : s.sess.connected = true) :
      Ends (runCommand net (printInto 1024 cmd)) s fun ret t =>
        I t ∧ (ret = .ok → t.sess.connected = true) :=
    ((hcmd s hs hconnected).and (runCommand_connected _ s)).mono
      fun ret t h => ⟨h.1, fun hret => (h.2 hret).trans hconnected⟩
  refine (executeWith_ends hopen hturn (fun _ h => h.1) hs).mono fun ret t h => ?_
  obtain ⟨hret, ht⟩ | ⟨got, ht, rfl⟩ := h
  · exact ⟨ht, fun h => absurd h hret⟩
  · split_ifs
    · exact ⟨ht.1, nofun⟩
    · exact ht

/-- The command of `set_mode`. -/
def typeCommand (mode : TranMode) : Text := if mode = .ascii then ascii "TYPE A" else ascii "TYPE I"

lemma typeCommand_starts (mode : TranMode) : ascii "TYPE " <+: printInto 1024 (typeCommand mode) := by
  cases mode <;> decide

lemma setModeWith_eq (exec : Text → Ftp ω FtpCode) (mode : TranMode) :
    setModeWith exec mode = (do
      let s ← get
      if s.sess.mode = mode then pure .ok
      else do
        let ret ← exec (typeCommand mode)
        updateSession fun s => { s with mode := if ret = .ok then mode else .unknown }
        pure ret) := rfl

lemma setModeWith_keeps (halike : ∀ {s t}, Alike s t → I s → I t) {exec : Text → Ftp ω FtpCode}
    {mode : TranMode} (hexec : ∀ s, I s →
      Ends (exec (typeCommand mode)) s fun ret t => I t ∧ (ret = .ok → t.sess.connected = true))
    {s : Client ω} (hs : I s) :
    Ends (setModeWith exec mode) s fun ret t =>
      I t ∧ (s.sess.mode ≠ mode → ret = .ok → t.sess.connected = true) := by
  simp only [setModeWith_eq, ends_bind, ends_get, ends_ite, ends_pure, ends_updateSession]
  by_cases hmode : s.sess.mode = mode
  · rw [if_pos hmode]
    exact ⟨hs, fun h => absurd hmode h⟩
  rw [if_neg hmode]
  refine (hexec s hs).mono fun ret u h => ?_
  exact ⟨halike (s := u) ⟨rfl, rfl, rfl, rfl, rfl, rfl, rfl⟩ h.1, fun _ => h.2⟩

lemma Dialling.openWith (d : Dialling net I) {restore : TranMode → Ftp ω FtpCode}
    (hrestore : ∀ mode s, mode ≠ .unknown → s.sess.mode = .unknown → I s →
      Ends (restore mode) s fun ret t => I t ∧ (ret = .ok → t.sess.connected = true)) :
    OpenRule I (openWith net restore) := by
  intro s hs
  simp only [FtpSession.openWith, ends_bind, ends_get, ends_ite, ends_pure]
  split_ifs with hconnected
  · exact ⟨hs, fun _ => hconnected⟩
  refine (d.dial hs (Bool.eq_false_iff.mpr hconnected)).mono fun ret t ht => ?_
  split_ifs with hret hmode
  · exact ⟨ht.1, fun h => absurd h hret⟩
  · exact hrestore _ _ hmode rfl
      (d.alike (s := t) ⟨rfl, rfl, rfl, rfl, rfl, rfl, rfl⟩ ht.1)
  · exact ⟨ht.1, fun _ => ht.2 (not_not.mp hret)⟩

theorem Dialling.openDepth (d : Dialling net I)
    (htype : ∀ cmd s, ascii "TYPE " <+: cmd → I s → Ends (runCommand net cmd) s fun _ t => I t)
    (n : ℕ) : OpenRule I (openDepth net n) := by
  induction n with
  | zero => exact d.openWith fun _ s _ _ hs => ⟨hs, nofun⟩
  | succ n ih =>
    refine d.openWith fun mode s hmode hs hi => ?_
    refine (setModeWith_keeps d.alike (fun s hs => executeWith_keeps ih
      (fun s hs _ => htype _ s (typeCommand_starts mode) hs) hs) hi).mono
        fun ret t h => ⟨h.1, h.2 ?_⟩
    rw [hs]
    exact hmode.symm

/-- `ftp_open` keeps what a login and `TYPE` keep. -/
theorem Dialling.ftpOpen (d : Dialling net I)
    (htype : ∀ cmd s, ascii "TYPE " <+: cmd → I s → Ends (runCommand net cmd) s fun _ t => I t) :
    OpenRule I (ftpOpen net) := d.openDepth htype 1

/-! ### Commands under an invariant -/

/-- Commands that start no transfer. -/
lemma Invariant.simpleCommand (inv : Invariant net sends I T) {cmd : Text} {s : Client ω}
    (hcmd : sends cmd) (htransfer : isTransfer cmd = false) (hs : I s) :
    Ends (runCommand net cmd) s fun _ t => I t := by
  refine (inv.command hcmd (by simp [htransfer]) hs).mono fun ret t h => ?_
  simpa [htransfer] using h

/-- Commands that start with a verb of another kind than the ones looked for. -/
lemma Invariant.verb (inv : Invariant net sends I T) {q cmd : Text} (hq : q <+: cmd)
    (h : ∀ v ∈ [ascii "CWD ", ascii "STOR ", ascii "RETR ", ascii "LIST "], ¬ v <+: q ∧ ¬ q <+: v) :
    sends cmd ∧ isTransfer cmd = false := by
  have hno (v : Text) (hv : v ∈ [ascii "CWD ", ascii "STOR ", ascii "RETR ", ascii "LIST "]) :
      v.isPrefixOf cmd = false := not_prefix_verb hq h v hv
  constructor
  · apply inv.plain
    unfold Plain
    rw [← List.isPrefixOf_iff_prefix, ← List.isPrefixOf_iff_prefix, hno _ (by simp), hno _ (by simp)]
    decide
  · rw [isTransfer, hno _ (by simp), hno _ (by simp), hno _ (by simp)]
    rfl

theorem Invariant.dialling (inv : Invariant net sends I T) : Dialling net I where
  alike := inv.alike
  hangUp := inv.hangUp
  enter hcmd _ hs := by
    obtain hq | hq := hcmd
    · have h := inv.verb hq (by decide)
      exact inv.simpleCommand h.1 h.2 hs
    · have h := inv.verb hq (by decide)
      exact inv.simpleCommand h.1 h.2 hs
  redial := inv.redial
  greet := inv.greet
  login dir _ := inv.login dir

lemma Invariant.type (inv : Invariant net sends I T) (cmd : Text) (s : Client ω)
    (hcmd : ascii "TYPE " <+: cmd) (hs : I s) : Ends (runCommand net cmd) s fun _ t => I t := by
  have h := inv.verb hcmd (by decide)
  exact inv.simpleCommand h.1 h.2 hs

theorem Invariant.ftpOpen (inv : Invariant net sends I T) : OpenRule I (ftpOpen net) :=
  inv.dialling.ftpOpen inv.type

/-- `execute` of any command. -/
theorem Invariant.execute (inv : Invariant net sends I T) {cmd : Text}
    (hcmd : sends (printInto 1024 cmd)) {s : Client ω} (hs : I s) :
    Ends (execute net cmd) s fun ret t =>
      if ret = .ready ∧ isTransfer (printInto 1024 cmd) = true then T t else I t := by
  refine (executeWith_ends inv.ftpOpen (fun s hs hconnected =>
    inv.command hcmd (fun _ => hconnected) hs) (fun t h => by simpa using h) hs).mono
      fun ret t h => ?_
  obtain ⟨hret, ht⟩ | ⟨got, ht, rfl⟩ := h
  · split_ifs
    · exact inv.due ht
    · exact ht
  · by_cases hbroken : got = .broken
    · subst hbroken
      simpa using ht
    · rw [if_neg hbroken]
      exact ht

/-- `execute` of a command that starts no transfer. -/
theorem Invariant.simple (inv : Invariant net sends I T) {cmd : Text}
    (hcmd : sends (printInto 1024 cmd)) (htransfer : isTransfer (printInto 1024 cmd) = false)
    {s : Client ω} (hs : I s) : Ends (FtpSession.execute net cmd) s fun _ t => I t :=
  (inv.execute hcmd hs).mono fun ret t h => by simpa [htransfer] using h

theorem Invariant.setMode (inv : Invariant net sends I T) (mode : TranMode) {s : Client ω}
    (hs : I s) : Ends (setMode net mode) s fun _ t => I t :=
  (setModeWith_keeps inv.alike (fun _ hs => executeWith_keeps inv.ftpOpen
    (fun s hs _ => inv.type _ s (typeCommand_starts mode) hs) hs) hs).mono fun _ _ h => h.1

end Rules

end Sitecopy.FtpRules
