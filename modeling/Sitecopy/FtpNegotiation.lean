import Sitecopy.FtpCommandLines
import Sitecopy.FtpUpload

/-!
# The data connection of a transfer

A transfer command follows the exchange that negotiated its data connection, unless
`execute` had to log in again before it could send it, or send it once more.
-/
namespace Sitecopy.FtpNegotiation
open SiteModel SiteOperations StateProgram FtpSession FtpTransfer FtpReplies FtpRules
  FtpCommandLines FtpPairing FtpUpload RunTrace

variable {ω κ : Type} {net : Network ω}

/-! ### The steps of a run -/

/-- The server agrees to the data connection that the line asks for. -/
def agrees (line : Text) (code : ℕ) : Bool :=
  if line = ascii "EPSV" ∨ line = ascii "PASV" then code = 227 || code = 229
  else (ascii "PORT ").isPrefixOf line && okCode code

/-- The last thing that happened on the control connection is that the client read the
server's consent to a data connection. -/
def exchanged : List Event → Bool
  | .reply origin lines :: .answer line code _ :: .command cmd _ :: _ =>
    cmd = line && agrees line code && lines ≠ [] && lines.all (·.origin = origin)
  | _ => false

/-- The last command since the login, with what was unread when it was sent. -/
def lastCommand : List Event → Option (Text × List Line)
  | [] => none
  | .login _ :: _ => none
  | .command cmd unread :: _ => some (cmd, unread)
  | _ :: tr => lastCommand tr

/-- The next command is not the first one of a login, where `TYPE` counts as part of the
login, and the one before it was sent when nothing was unread. -/
def Follows (tr : List Event) : Prop :=
  ∃ c ∈ lastCommand tr, c.2 = [] ∧ ¬ ascii "TYPE " <+: c.1

/-- No line but the first one of the command starts a transfer. -/
def Alone (cmd : Text) : Prop := ∀ line ∈ (commandLines [] cmd).tail, isTransfer line = false

/-- A transfer command is sent for the first time, and not hidden behind another line. -/
def Undisturbed (tr : List Event) : Event → Prop
  | .command cmd _ => Alone cmd ∧ (isTransfer cmd = true → Follows tr)
  | _ => True

/-- A transfer command uses the data connection that was negotiated for it. -/
def Negotiated (tr : List Event) : Event → Prop
  | .command cmd _ => Alone cmd ∧ (isTransfer cmd = true → exchanged tr = true)
  | _ => True

def Step (tr : List Event) (e : Event) : Prop := Undisturbed tr e → Negotiated tr e

instance (tr : List Event) : Decidable (Follows tr) :=
  inferInstanceAs (Decidable (∃ c ∈ lastCommand tr, c.2 = [] ∧ ¬ ascii "TYPE " <+: c.1))

instance (cmd : Text) : Decidable (Alone cmd) :=
  inferInstanceAs (Decidable (∀ line ∈ (commandLines [] cmd).tail, isTransfer line = false))

instance (tr : List Event) (e : Event) : Decidable (Undisturbed tr e) :=
  match e with
  | .command cmd _ =>
    inferInstanceAs (Decidable (Alone cmd ∧ (isTransfer cmd = true → Follows tr)))
  | .answer .. | .reply .. | .login _ | .accepted _ | .dataClosed _ | .put _ | .located
  | .putDone => .isTrue trivial

instance (tr : List Event) (e : Event) : Decidable (Negotiated tr e) :=
  match e with
  | .command cmd _ =>
    inferInstanceAs (Decidable (Alone cmd ∧ (isTransfer cmd = true → exchanged tr = true)))
  | .answer .. | .reply .. | .login _ | .accepted _ | .dataClosed _ | .put _ | .located
  | .putDone => .isTrue trivial

/-! ### What is said between commands -/

lemma step_of_not_transfer {tr : List Event} {cmd : Text} {unread : List Line}
    (h : isTransfer cmd = false) : Step tr (.command cmd unread) := by
  intro hu
  exact ⟨hu.1, fun ht => absurd ht (by simp [h])⟩

lemma step_event {tr : List Event} {e : Event} (h : ∀ cmd unread, e ≠ .command cmd unread) :
    Step tr e := by
  cases e with
  | command cmd unread => exact absurd rfl (h cmd unread)
  | _ => exact fun _ => trivial

/-- What is said neither sends a command nor logs in. -/
lemma steps_said {s t : Client ω} (h : Said s t) (hs : Steps Step s.trace) :
    Steps Step t.trace := by
  obtain ⟨more, ht, hmore⟩ := h
  rw [ht]
  clear ht
  induction more with
  | nil => exact hs
  | cons e more ih =>
    refine ⟨step_event ?_, ih fun e he => hmore e (List.mem_cons_of_mem _ he)⟩
    rintro cmd unread rfl
    exact hmore _ (List.mem_cons_self ..)

lemma lastCommand_said {s t : Client ω} (h : Said s t) :
    lastCommand t.trace = lastCommand s.trace := by
  obtain ⟨more, ht, hmore⟩ := h
  rw [ht]
  clear ht
  induction more with
  | nil => rfl
  | cons e more ih =>
    have ih := ih fun e he => hmore e (List.mem_cons_of_mem _ he)
    have he := hmore e (List.mem_cons_self ..)
    cases e with
    | answer line code dir => exact ih
    | reply origin lines => exact ih
    | _ => exact absurd he id

/-! ### Between commands, and after a negotiation -/

def Checked (s : Client ω) : Prop := Steps Step s.trace

/-- Whatever was negotiated does not count any more. -/
structure Fresh (s : Client ω) : Prop where
  checked : Checked s
  unfollowed : s.sess.connected = true → ¬ Follows s.trace

/-- A data connection has been negotiated, unless the client has logged in since. -/
structure Agreed (s : Client ω) : Prop where
  checked : Checked s
  exchanged : s.sess.connected = true → Follows s.trace → exchanged s.trace = true

lemma Fresh.agreed {s : Client ω} (h : Fresh s) : Agreed s :=
  ⟨h.checked, fun hc hf => absurd hf (h.unfollowed hc)⟩

lemma Checked.alike {s t : Client ω} (h : Checked s) (ht : Alike s t) : Checked t := by
  rw [Checked, ht.trace]
  exact h

lemma Agreed.alike {s t : Client ω} (h : Agreed s) (ht : Alike s t) : Agreed t := by
  refine ⟨h.checked.alike ht, ?_⟩
  rw [ht.connected, ht.trace]
  exact h.exchanged

lemma Fresh.alike {s t : Client ω} (h : Fresh s) (ht : Alike s t) : Fresh t := by
  refine ⟨h.checked.alike ht, ?_⟩
  rw [ht.connected, ht.trace]
  exact h.unfollowed

lemma Checked.mark {s : Client ω} (h : Checked s) {e : Event}
    (he : ∀ cmd unread, e ≠ .command cmd unread) : Checked (mark e s) := ⟨step_event he, h⟩

/-- A command that may be sent keeps the record in order. -/
lemma Checked.command {cmd : Text} {s : Client ω} (hs : Checked s)
    (hcmd : Step s.trace (.command cmd s.unread)) :
    Ends (runCommand net cmd) s fun _ t => Checked t :=
  (runCommand_said cmd s).mono fun _ _ ht => steps_said ht ⟨hcmd, hs⟩

lemma Checked.simple {cmd : Text} {s : Client ω} (hs : Checked s) (hcmd : isTransfer cmd = false) :
    Ends (runCommand net cmd) s fun _ t => Checked t := hs.command (step_of_not_transfer hcmd)

lemma isTransfer_verb {q cmd : Text} (hq : q <+: cmd)
    (h : ∀ v ∈ [ascii "STOR ", ascii "RETR ", ascii "LIST "], ¬ v <+: q ∧ ¬ q <+: v) :
    isTransfer cmd = false := by
  have hno := not_prefix_verb hq h
  rw [isTransfer, hno _ (by simp), hno _ (by simp), hno _ (by simp)]
  rfl

lemma fresh_type {cmd : Text} {s : Client ω} (hcmd : ascii "TYPE " <+: cmd) (hs : Fresh s) :
    Ends (runCommand net cmd) s fun _ t => Fresh t := by
  refine ((hs.checked.simple (isTransfer_verb hcmd (by decide))).and (runCommand_said cmd s)).mono
    fun _ t ht => ⟨ht.1, fun _ hf => ?_⟩
  obtain ⟨c, hc, -, hno⟩ := hf
  rw [lastCommand_said ht.2] at hc
  obtain rfl : (cmd, s.unread) = c := Option.some.inj hc
  exact hno hcmd

/-- A new login makes the client start afresh. -/
theorem fresh_dialling (net : Network ω) : Dialling net Fresh where
  alike hst hs := hs.alike hst
  hangUp hs := ⟨hs.checked, (by rintro ⟨⟩)⟩
  enter {cmd s} hcmd hclosed hs := by
    have htransfer : isTransfer cmd = false := by
      obtain hq | hq := hcmd <;> exact isTransfer_verb hq (by decide)
    refine ((hs.checked.simple htransfer).and (runCommand_onward cmd s)).mono
      fun _ t ht => ⟨ht.1, fun hc => ?_⟩
    have hopen : s.sess.connected = true := ht.2.connected hc
    exact absurd hopen (by simp [hclosed])
  redial _ hs := ⟨hs.checked, hs.unfollowed⟩
  greet r hclosed hs := ⟨hs.checked.mark (by rintro _ _ ⟨⟩), fun hc => absurd hc (by simp [hasRead, hclosed])⟩
  login dir _ _ hs := by
    refine ⟨hs.checked.mark (by rintro _ _ ⟨⟩), fun _ hf => ?_⟩
    obtain ⟨c, hc, -⟩ := hf
    exact absurd hc (by simp [loggedIn, lastCommand])

lemma ftpOpen_connected {s : Client ω} (h : s.sess.connected = true) :
    Ends (ftpOpen net) s fun ret t => ret = .ok ∧ t = s := by
  rw [ftpOpen, openDepth, openWith, ends_bind, ends_get, ends_ite, if_pos h]
  exact ⟨rfl, rfl⟩

/-- `ftp_open` does nothing, or the client starts afresh. -/
theorem ftpOpen_fresh {s : Client ω} (hs : Checked s) :
    Ends (ftpOpen net) s fun ret t =>
      ret = .ok ∧ t = s ∧ s.sess.connected = true ∨
        Fresh t ∧ (ret = .ok → t.sess.connected = true) := by
  by_cases hc : s.sess.connected = true
  · exact (ftpOpen_connected hc).mono fun ret t h => .inl ⟨h.1, h.2, hc⟩
  · have hfresh : Fresh s := ⟨hs, fun h => absurd h hc⟩
    exact ((fresh_dialling net).ftpOpen (fun _ _ => fresh_type) s hfresh).mono fun _ _ => .inr

lemma openRule_checked : OpenRule Checked (ftpOpen net) := by
  intro s hs
  refine (ftpOpen_fresh hs).mono fun ret t h => ?_
  obtain ⟨-, rfl, hc⟩ | ⟨ht, hc⟩ := h
  · exact ⟨hs, fun _ => hc⟩
  · exact ⟨ht.checked, hc⟩

lemma checked_execute {cmd : Text} {s : Client ω}
    (hcmd : isTransfer (printInto 1024 cmd) = false) (hs : Checked s) :
    Ends (execute net cmd) s fun ret t => Checked t ∧ (ret = .ok → t.sess.connected = true) :=
  executeWith_keeps openRule_checked (fun _ hs _ => hs.simple hcmd) hs

/-! ### Negotiations and transfers -/

/-- A command that asks for a data connection, and the result that stands for consent. -/
structure Asks (line : Text) (consent : FtpCode) : Prop where
  one_line : commandLines [] line = [line]
  simple : isTransfer line = false
  code : ∀ {code ret}, Parsed code ret → ret = consent → agrees line code = true
  done : consent ≠ .error ∧ consent ≠ .broken

lemma asks_port (numbers : List ℕ) : Asks (printInto 1024 (portCommand numbers)) .ok where
  one_line := commandLines_port 1024 numbers
  simple := isTransfer_printInto _ _ (by decide) (by decide) (by decide)
  code {code ret} hparsed hret := by
    have hport : ascii "PORT " <+: printInto 1024 (portCommand numbers) :=
      prefix_printInto (by decide)
    have hother (line : Text) (h : ¬ ascii "PORT " <+: line) :
        printInto 1024 (portCommand numbers) ≠ line := by
      rintro rfl
      exact h hport
    rw [agrees, if_neg, Bool.and_eq_true, List.isPrefixOf_iff_prefix]
    · exact ⟨hport, hparsed.ok.mp hret⟩
    · exact not_or.mpr ⟨hother _ (by decide), hother _ (by decide)⟩
  done := by decide

lemma asks_passive {cmd : Text} (h : cmd ∈ [ascii "EPSV", ascii "PASV"]) :
    Asks (printInto 1024 cmd) .passive := by
  have hcmd : cmd = ascii "EPSV" ∨ cmd = ascii "PASV" := by simpa using h
  have hprint : printInto 1024 cmd = cmd := by rcases hcmd with rfl | rfl <;> decide
  rw [hprint]
  refine ⟨?_, ?_, ?_, by decide⟩
  · rcases hcmd with rfl | rfl <;> decide
  · rcases hcmd with rfl | rfl <;> decide
  · intro code ret hparsed hret
    rw [agrees, if_pos hcmd]
    simpa using hparsed.passive hret

/-- Consent that is read when nothing else was unread is consent to this command. -/
lemma agreed_command {line : Text} {consent : FtpCode} (ask : Asks line consent) {s : Client ω}
    (hs : Checked s) :
    Ends (runCommand net line) s fun ret t => Checked t ∧ (ret = consent → Agreed t) := by
  have hfault {ret : FtpCode} (h : IsFault ret) : ret ≠ consent := by
    rintro rfl
    exact h.elim ask.done.2 ask.done.1
  have hchecked : Ends (runCommand net line) s fun _ t => Checked t := hs.simple ask.simple
  by_cases hunread : s.unread = []
  · refine (hchecked.and (runCommand_outcome ask.one_line hunread)).mono fun ret t ht => ?_
    refine ⟨ht.1, fun hret => ⟨ht.1, fun _ _ => ?_⟩⟩
    cases ht.2 with
    | unsent h _ => exact absurd hret (hfault h)
    | lost _ h _ => exact absurd hret (hfault h)
    | refused _ h _ _ => exact absurd hret (hfault (.inl h))
    | read r finals hparsed _ _ htrace =>
      rw [htrace.trace]
      have hlines := paired_lines r (.reply (s.sent + 1))
      simpa [hasRead, answered, wrote, exchanged, ask.code hparsed hret, hlines.1] using hlines.2
  · refine (hchecked.and (runCommand_said line s)).mono fun ret t ht => ?_
    refine ⟨ht.1, fun _ => ⟨ht.1, fun _ hf => ?_⟩⟩
    obtain ⟨c, hc, hnone, -⟩ := hf
    rw [lastCommand_said ht.2] at hc
    obtain rfl : (line, s.unread) = c := Option.some.inj hc
    exact absurd hnone hunread

lemma agreed_execute {cmd : Text} {consent : FtpCode} (ask : Asks (printInto 1024 cmd) consent)
    {s : Client ω} (hs : Checked s) :
    Ends (execute net cmd) s fun ret t => Checked t ∧ (ret = consent → Agreed t) := by
  refine (executeWith_cases (O := Checked) (F := fun _ => Fresh) (fun s hs => ?_)
    (fun s hs => agreed_command ask hs) (fun t ht => ht.1) hs).mono fun ret t h => ?_
  · refine (ftpOpen_fresh hs).mono fun ret t h => ?_
    obtain ⟨rfl, rfl, -⟩ | ⟨ht, -⟩ := h
    · exact hs
    · split_ifs
      · exact ht.checked
      · exact ht
  · obtain ⟨-, ht⟩ | ⟨got, ht, rfl⟩ := h
    · exact ⟨ht.checked, fun _ => ht.agreed⟩
    · refine ⟨ht.1, fun hret => ?_⟩
      split_ifs at hret
      · exact absurd hret.symm ask.done.1
      · exact ht.2 hret

/-- The transfer command is sent with its data connection, or after a new login. -/
lemma transfer_execute (cmd : Text) {s : Client ω} (hs : Agreed s) :
    Ends (execute net cmd) s fun _ t => Checked t := by
  refine (executeWith_cases (O := fun t => Agreed t ∧ t.sess.connected = true)
    (F := fun _ => Fresh) (Q := fun ret t => Checked t ∧ (ret = .broken → t.sess.connected = false))
    (fun s hs => ?_) (fun s hs => ?_) (fun t ht => ?_) hs).mono fun ret t h => ?_
  · refine (ftpOpen_fresh hs.checked).mono fun ret t h => ?_
    obtain ⟨rfl, rfl, hc⟩ | ⟨ht, hc⟩ := h
    · exact ⟨hs, hc⟩
    · split_ifs with hret
      · exact ⟨ht.agreed, hc hret⟩
      · exact ht
  · refine (Checked.command hs.1.checked ?_).and (runCommand_closed _ s)
    intro hu
    exact ⟨hu.1, fun htransfer => hs.1.exchanged hs.2 (hu.2 htransfer)⟩
  · exact ⟨ht.1, fun hc => absurd hc (by simp [ht.2 rfl])⟩
  · obtain ⟨-, ht⟩ | ⟨got, ht, -⟩ := h
    · exact ht.checked
    · exact ht.1

lemma checked_dataRules (net : Network ω) (command : Text) :
    DataRules net command Checked Agreed Checked where
  still hst hs := hs.alike hst.toAlike
  still_negotiated hst hs := hs.alike hst.toAlike
  still_due hst hs := hs.alike hst.toAlike
  due := id
  ftpOpen := openRule_checked
  port numbers hs := agreed_execute (asks_port numbers) hs
  passive _ hmem hs := agreed_execute (asks_passive hmem) hs
  transfer hs := (transfer_execute _ hs).mono fun ret t ht => by rwa [ite_self]
  accepted hs := hs.mark nofun
  refused hs := hs.mark nofun

/-! ### Operations -/

lemma checked_close {s : Client ω} (hs : Checked s) :
    Ends (dtpClose net) s fun _ t => Checked t := by
  refine (dtpClose_said s).mono fun _ t ht => ?_
  obtain ⟨success, ht⟩ := ht
  exact steps_said ht (hs.mark nofun)

lemma checked_setMode (mode : TranMode) {s : Client ω} (hs : Checked s) :
    Ends (setMode net mode) s fun _ t => Checked t := by
  refine (setModeWith_keeps (I := Checked) (fun hst hs => hs.alike hst) (fun s hs => checked_execute ?_ hs) hs).mono
    fun _ _ h => h.1
  exact isTransfer_verb (typeCommand_starts mode) (by decide)

theorem checked_opRules (net : Network ω) (want : TranMode) :
    OpRules net (fun _ => True) want Checked Checked Checked where
  still hst hs := hs.alike hst.toAlike
  still_due hst hs := hs.alike hst.toAlike
  ftpOpen := openRule_checked
  execute _ hcmd hs := (checked_execute hcmd hs).mono fun _ _ h => h.1
  setMode hs := (checked_setMode want hs).mono fun _ _ ht => ⟨ht, fun _ => ht⟩
  retrieve _ hs := (checked_dataRules net _).ftpDataOpen hs
  list _ hs := (checked_dataRules net _).ftpDataOpen hs
  close := checked_close
  finish hs := by
    simp only [ftpFinish, ends_bind, ends_get, ends_ite, ends_pure, ends_closePi]
    split_ifs
    · exact (hs.simple (by decide)).mono fun _ _ ht => ht
    · exact hs

lemma checked_maybeChdir (fn : Text) : ChdirRule net Checked Checked (fun _ => True) fn := by
  intro s hs
  have hlocated {t : Client ω} (ht : Checked t) : Checked (mark .located t) := ht.mark nofun
  simp only [maybeChdir, ends_bind, ends_get]
  rw [ends_ite]
  split_ifs
  · exact ⟨trivial, hlocated hs⟩
  · simp only [ends_bind, ends_updateSession, ends_pure]
    have hcwd : isTransfer (printInto 1024 (ascii "CWD " ++ (splitSlash fn).1)) = false :=
      isTransfer_printInto _ _ (by decide) (by decide) (by decide)
    refine (checked_execute hcwd hs).mono fun ret t ht => ?_
    have hcached (cwd : Text) : Checked { t with sess := { t.sess with cwd } } := ht.1
    split_ifs
    · exact ⟨trivial, hlocated (hcached _)⟩
    · exact hcached _
  · exact ⟨trivial, hlocated hs⟩

lemma checked_ftpPut (localfile remotefile : Text) (asc : Bool) {s : Client ω} (hs : Checked s) :
    Ends (ftpPut net localfile remotefile asc) s fun _ t => Checked t := by
  have rules : StoreRules net (fun _ => True) Checked Checked :=
    { still := fun hst hs => hs.alike hst.toAlike
      still_due := fun hst hs => hs.alike hst.toAlike
      store := fun _ hs => (checked_dataRules net _).ftpDataOpen hs
      close := checked_close
      again := fun fn _ => checked_maybeChdir fn }
  refine rules.ftpPut (fun _ _ h => h) (checked_maybeChdir remotefile)
    (fun s hs => ?_) (fun _ h => h.mark nofun) (fun _ h => h.mark nofun) (fun _ h => h.mark nofun)
    (fun _ h => h.mark nofun) localfile hs
  exact (checked_setMode _ hs).mono fun _ _ ht => by rwa [ite_self]

lemma checked_runOps (ls : LsParser κ) (ops : List Op) {s : Client ω} (hs : Checked s) :
    Ends (runOps net ls ops) s fun _ t => Checked t := by
  induction ops generalizing s with
  | nil => exact hs
  | cons op ops ih =>
    simp only [runOps, ends_bind, ends_pure]
    have hwant : ∀ mode ∈ request op, mode = (request op).getD .binary := by
      intro mode hmode
      rw [Option.mem_def.mp hmode]
      rfl
    refine ((checked_opRules net _).runOp ls op (fun _ _ => trivial) hwant
      (fun call _ s hs => checked_ftpPut _ _ _ hs) hs).mono fun _ t ht => ih ht

/-- In every run, a transfer command that follows another command of the same login, sent when
nothing was unread, directly follows the exchange that negotiated its data connection. -/
theorem transfers_negotiated (net : Network ω) (ls : LsParser κ) (ops : List Op) (w : ω)
    (usePassive useCwd : Bool) (username password : Text) (piAddr : List InetAddr) :
    Steps (fun tr e => Undisturbed tr e → Negotiated tr e)
      ((runOps net ls ops).run
        { net := w, sess := startSession usePassive useCwd username password piAddr }).2.trace :=
  checked_runOps ls ops trivial

/-- The connection is lost when the reply to `STOR` is read. -/
def resentRun : List FtpCode × Client ℕ :=
  (runOps droppedNetwork emptyListing
    [.mkdir (ascii "a"), .mkdir (ascii "b"), .put (ascii "f") (ascii "f") false]).run
    { net := 0, sess := startSession false false (ascii "u") (ascii "p") [⟨.ipv4, [127, 0, 0, 1]⟩] }

/-- `STOR` is sent again on a new login that has seen no `PORT`, and reported as a success. -/
theorem stored_without_port :
    resentRun.1 = [.ok, .ok, .ok] ∧ ¬ Steps Negotiated resentRun.2.trace := by
  decide +kernel

end Sitecopy.FtpNegotiation
