import Sitecopy.FtpTransferType

/-!
# Paths in FTP commands

An operation whose commands fit into the buffer of `execute` and hold no CR LF sends each
of them whole and on one line. With `use_cwd` an upload names the directory and the last
component of an absolute path in separate commands.
-/
namespace Sitecopy.FtpPaths
open SiteModel SiteOperations StateProgram FtpSession FtpTransfer FtpReplies FtpRules
  FtpCommandLines FtpPairing FtpUpload FtpTransferType RunTrace

variable {ω κ : Type} {net : Network ω}

/-! ### The commands of an operation -/

/-- `maybe_chdir` splits the path. -/
def splits (useCwd : Bool) (fn : Text) : Bool :=
  useCwd && fn.head? = some slash && fn.length ≤ pathMax

/-- The commands of `ftp_put` that hold the path. -/
def putCommands (useCwd : Bool) (fn : Text) : List Text :=
  if splits useCwd fn then [ascii "CWD " ++ (splitSlash fn).1, ascii "STOR " ++ (splitSlash fn).2]
  else [ascii "STOR " ++ fn]

/-- The commands of an operation that hold a path. -/
def pathCommands (useCwd : Bool) (op : Op) : List Text :=
  ownCommands op ++ ((upload op).elim [] fun call => putCommands useCwd call.2.1)

/-- The commands that hold no path: those of a login and of a negotiation. -/
def SessionCommand (cmd : Text) : Prop :=
  (∃ q ∈ [ascii "USER ", ascii "PASS ", ascii "TYPE ", ascii "PORT "], q <+: cmd) ∨
    cmd ∈ [ascii "EPSV", ascii "PASV", ascii "QUIT"]

instance (cmd : Text) : Decidable (SessionCommand cmd) := by
  unfold SessionCommand
  infer_instance

/-- A command that is not one of the session is one of `whole`, and a single line. -/
def Intact (whole : List Text) : Event → Prop
  | .command cmd _ => SessionCommand cmd ∨ cmd ∈ whole ∧ commandLines [] cmd = [cmd]
  | _ => True

instance (whole : List Text) (e : Event) : Decidable (Intact whole e) :=
  match e with
  | .command cmd _ =>
    inferInstanceAs (Decidable (SessionCommand cmd ∨ cmd ∈ whole ∧ commandLines [] cmd = [cmd]))
  | .answer .. | .reply .. | .login _ | .accepted _ | .dataClosed _ | .put _ | .located
  | .putDone => .isTrue trivial

/-- The commands fit into the buffer of `execute`, and each is a single line. -/
def Sendable (whole : List Text) : Prop := ∀ cmd ∈ whole, cmd.length < 1024 ∧ ¬ crlf <:+: cmd

instance (whole : List Text) : Decidable (Sendable whole) :=
  inferInstanceAs (Decidable (∀ cmd ∈ whole, cmd.length < 1024 ∧ ¬ crlf <:+: cmd))

/-! ### What an operation sends -/

section Sends
variable {start : List Event} {useCwd : Bool} {whole : List Text}

def Allowed (whole : List Text) (cmd : Text) : Prop :=
  SessionCommand cmd ∨ cmd ∈ whole ∧ commandLines [] cmd = [cmd]

/-- All commands since `start` are intact. -/
structure Sending (start : List Event) (useCwd : Bool) (whole : List Text) (s : Client ω) : Prop where
  steps : Steps (fun tr e => start <:+ tr → Intact whole e) s.trace
  useCwd : s.sess.useCwd = useCwd

lemma Sending.alike {s t : Client ω} (h : Sending start useCwd whole s) (ht : Alike s t) :
    Sending start useCwd whole t := ⟨ht.trace ▸ h.steps, ht.useCwd.trans h.useCwd⟩

lemma intact_event {e : Event} (h : ∀ cmd unread, e ≠ .command cmd unread) : Intact whole e := by
  cases e with
  | command cmd unread => exact absurd rfl (h cmd unread)
  | _ => exact trivial

lemma Sending.mark {s : Client ω} (h : Sending start useCwd whole s) {e : Event}
    (he : ∀ cmd unread, e ≠ .command cmd unread) : Sending start useCwd whole (mark e s) :=
  ⟨⟨fun _ => intact_event he, h.steps⟩, h.useCwd⟩

lemma Sending.said {s t : Client ω} (h : Sending start useCwd whole s) (hsaid : Said s t)
    (huse : t.sess.useCwd = s.sess.useCwd) : Sending start useCwd whole t := by
  obtain ⟨more, ht, hmore⟩ := hsaid
  refine ⟨?_, huse.trans h.useCwd⟩
  rw [ht]
  clear ht
  induction more with
  | nil => exact h.steps
  | cons e more ih =>
    refine ⟨fun _ => intact_event ?_, ih fun e he => hmore e (List.mem_cons_of_mem _ he)⟩
    rintro cmd unread rfl
    exact hmore _ (List.mem_cons_self ..)

lemma sending_command {cmd : Text} {s : Client ω} (hcmd : Allowed whole cmd)
    (hs : Sending start useCwd whole s) :
    Ends (runCommand net cmd) s fun _ t => Sending start useCwd whole t := by
  refine ((runCommand_said cmd s).and (runCommand_onward cmd s)).mono fun _ t ht => ?_
  have hwrote : Sending start useCwd whole (wrote cmd s) := ⟨⟨fun _ => hcmd, hs.steps⟩, hs.useCwd⟩
  exact hwrote.said ht.1 ht.2.useCwd

lemma allowed_verb {q cmd : Text}
    (hq : q ∈ [ascii "USER ", ascii "PASS ", ascii "TYPE ", ascii "PORT "]) (h : q <+: cmd) :
    Allowed whole cmd := .inl (.inl ⟨q, hq, h⟩)

/-- A command that fits and is a single line is sent as it is. -/
lemma allowed_whole (hsend : Sendable whole) {cmd : Text} (hcmd : cmd ∈ whole) :
    Allowed whole (printInto 1024 cmd) := by
  have hprint : printInto 1024 cmd = cmd := by
    rw [printInto]
    exact List.take_of_length_le (Nat.le_of_lt_succ (hsend cmd hcmd).1)
  rw [hprint]
  exact .inr ⟨hcmd, (commandLines_single [] cmd).mpr (hsend cmd hcmd).2⟩

theorem sending_dialling (net : Network ω) (start : List Event) (useCwd : Bool) (whole : List Text) :
    Dialling net (Sending start useCwd whole) where
  alike hst hs := hs.alike hst
  hangUp hs := ⟨hs.steps, hs.useCwd⟩
  enter hcmd _ hs := by
    obtain hq | hq := hcmd
    · exact sending_command (allowed_verb (by simp) hq) hs
    · exact sending_command (allowed_verb (by simp) hq) hs
  redial _ hs := ⟨hs.steps, hs.useCwd⟩
  greet r _ hs := ⟨⟨fun _ => trivial, hs.steps⟩, hs.useCwd⟩
  login dir _ _ hs := ⟨⟨fun _ => trivial, hs.steps⟩, hs.useCwd⟩

lemma sending_open : OpenRule (Sending start useCwd whole) (ftpOpen net) :=
  (sending_dialling net start useCwd whole).ftpOpen fun _ _ hcmd hs =>
    sending_command (allowed_verb (by simp) hcmd) hs

lemma sending_execute {cmd : Text} {s : Client ω} (hcmd : Allowed whole (printInto 1024 cmd))
    (hs : Sending start useCwd whole s) :
    Ends (execute net cmd) s fun _ t => Sending start useCwd whole t :=
  (executeWith_keeps sending_open (fun _ hs _ => sending_command hcmd hs) hs).mono fun _ _ h => h.1

lemma sending_setMode (mode : TranMode) {s : Client ω} (hs : Sending start useCwd whole s) :
    Ends (setMode net mode) s fun _ t => Sending start useCwd whole t := by
  refine (setModeWith_keeps (fun hst hs => Sending.alike hs hst) (fun s hs => ?_) hs).mono
    fun _ _ h => h.1
  exact executeWith_keeps sending_open (fun _ hs _ =>
    sending_command (allowed_verb (by simp) (typeCommand_starts mode)) hs) hs

lemma sending_dataRules (net : Network ω) {command : Text}
    (hcmd : Allowed whole (printInto 1024 command)) :
    DataRules net command (Sending start useCwd whole) (Sending start useCwd whole)
      (Sending start useCwd whole) where
  still hst hs := hs.alike hst.toAlike
  still_negotiated hst hs := hs.alike hst.toAlike
  still_due hst hs := hs.alike hst.toAlike
  due := id
  ftpOpen := sending_open
  port numbers hs :=
    (sending_execute (allowed_verb (by simp) (prefix_printInto (by decide))) hs).mono
      fun _ _ ht => ⟨ht, fun _ => ht⟩
  passive cmd hmem hs := by
    have hcmd : SessionCommand (printInto 1024 cmd) := by
      simp only [List.mem_cons, List.not_mem_nil, or_false] at hmem
      rcases hmem with rfl | rfl <;> decide
    exact (sending_execute (.inl hcmd) hs).mono fun _ _ ht => ⟨ht, fun _ => ht⟩
  transfer hs := by
    have hprint := printInto_printInto 1024 bufsiz command (by decide)
    refine (sending_execute (by rwa [hprint]) hs).mono fun ret t ht => ?_
    rwa [ite_self]
  accepted hs := hs.mark nofun
  refused hs := hs.mark nofun

lemma sending_close {s : Client ω} (hs : Sending start useCwd whole s) :
    Ends (dtpClose net) s fun _ t => Sending start useCwd whole t := by
  refine ((dtpClose_said s).and (dtpClose_onward s)).mono fun _ t ht => ?_
  obtain ⟨⟨success, hsaid⟩, _, honward⟩ := ht
  have hmark : Sending start useCwd whole (FtpRules.mark (.dataClosed success) s) := hs.mark nofun
  exact hmark.said hsaid honward.useCwd

theorem sending_opRules (net : Network ω) (start : List Event) (useCwd : Bool) (whole : List Text)
    (want : TranMode) :
    OpRules net (Allowed whole) want (Sending start useCwd whole) (Sending start useCwd whole)
      (Sending start useCwd whole) where
  still hst hs := hs.alike hst.toAlike
  still_due hst hs := hs.alike hst.toAlike
  ftpOpen := sending_open
  execute hcmd _ hs := sending_execute hcmd hs
  setMode hs := (sending_setMode want hs).mono fun _ _ ht => ⟨ht, fun _ => ht⟩
  retrieve hcmd hs := (sending_dataRules net hcmd).ftpDataOpen hs
  list hcmd hs := (sending_dataRules net hcmd).ftpDataOpen hs
  close := sending_close
  finish hs := by
    simp only [ftpFinish, ends_bind, ends_get, ends_ite, ends_pure, ends_closePi]
    split_ifs
    · exact (sending_command (.inl (by decide)) hs).mono fun _ t ht => ⟨ht.steps, ht.useCwd⟩
    · exact hs

/-! ### Uploads -/

/-- The name can be stored under, and is not split again. -/
def Storable (useCwd : Bool) (whole : List Text) (fn : Text) : Prop :=
  splits useCwd fn = false ∧ Allowed whole (printInto 1024 (ascii "STOR " ++ fn))

/-- The test of `maybe_chdir`. -/
lemma splits_false (b : Bool) (fn : Text) :
    (!b || fn.head? ≠ some slash || pathMax < fn.length) = true ↔ splits b fn = false := by
  cases b <;> simp [splits, imp_iff_not_or]

lemma splitSlash_base {fn : Text} (h : splits useCwd fn = true) :
    splits useCwd (splitSlash fn).2 = false := by
  simp only [splits, Bool.and_eq_true, decide_eq_true_eq] at h
  have hrel := splitSlash_base_rel h.1.2
  simp [splits, hrel]

lemma sending_maybeChdir {fn : Text} (hsub : putCommands useCwd fn ⊆ whole)
    (hwhole : Sendable whole) :
    ChdirRule net (Sending start useCwd whole) (Sending start useCwd whole)
      (Storable useCwd whole) fn := by
  intro s hs
  have hlocated {t : Client ω} (ht : Sending start useCwd whole t) :
      Sending start useCwd whole (FtpRules.mark .located t) := ht.mark nofun
  simp only [maybeChdir, ends_bind, ends_get]
  rw [ends_ite, hs.useCwd]
  split_ifs with hsplit hdir
  · rw [splits_false] at hsplit
    rw [putCommands, if_neg (by simp [hsplit])] at hsub
    exact ⟨⟨hsplit, allowed_whole hwhole (hsub (List.mem_singleton.mpr rfl))⟩, hlocated hs⟩
  all_goals
    rw [splits_false, Bool.not_eq_false] at hsplit
    rw [putCommands, if_pos hsplit] at hsub
    have hbase : Storable useCwd whole (splitSlash fn).2 :=
      ⟨splitSlash_base hsplit, allowed_whole hwhole (hsub (by simp))⟩
  · simp only [ends_bind, ends_updateSession, ends_pure]
    refine (sending_execute (allowed_whole hwhole (hsub (by simp))) hs).mono fun ret t ht => ?_
    have hcached (cwd : Text) : Sending start useCwd whole { t with sess := { t.sess with cwd } } :=
      ⟨ht.steps, ht.useCwd⟩
    split_ifs
    · exact ⟨hbase, hlocated (hcached _)⟩
    · exact hcached _
  · exact ⟨hbase, hlocated hs⟩

/-- Later turns of the loop do not split the name again. -/
lemma sending_again {fn : Text} (hfn : Storable useCwd whole fn) :
    ChdirRule net (Sending start useCwd whole) (Sending start useCwd whole)
      (Storable useCwd whole) fn := by
  intro s hs
  simp only [maybeChdir, ends_bind, ends_get]
  rw [ends_ite, hs.useCwd, if_pos ((splits_false _ _).mpr hfn.1)]
  exact ⟨hfn, hs.mark (by rintro _ _ ⟨⟩)⟩

lemma sending_ftpPut (localfile : Text) {remotefile : Text} (asc : Bool)
    (hsub : putCommands useCwd remotefile ⊆ whole) (hwhole : Sendable whole) {s : Client ω}
    (hs : Sending start useCwd whole s) :
    Ends (ftpPut net localfile remotefile asc) s fun _ t => Sending start useCwd whole t := by
  have rules : StoreRules net (Storable useCwd whole) (Sending start useCwd whole)
      (Sending start useCwd whole) :=
    { still := fun hst hs => hs.alike hst.toAlike
      still_due := fun hst hs => hs.alike hst.toAlike
      store := fun hfn hs => (sending_dataRules net hfn.2).ftpDataOpen hs
      close := sending_close
      again := fun _ hfn => sending_again hfn }
  refine rules.ftpPut
    (fun s w h => h.alike (still_net s w).toAlike) (sending_maybeChdir hsub hwhole) (fun s hs => ?_)
    (fun _ h => h.mark nofun) (fun _ h => h.mark nofun) (fun _ h => h.mark nofun)
    (fun _ h => h.mark nofun) localfile hs
  exact (sending_setMode _ hs).mono fun _ _ ht => by rwa [ite_self]

/-- One operation whose commands can be sent. -/
theorem sending_runOp (ls : LsParser κ) {op : Op} (hsend : Sendable (pathCommands useCwd op))
    {s : Client ω} (hs : Sending start useCwd (pathCommands useCwd op) s) :
    Ends (runOp net ls op) s fun _ t => Sending start useCwd (pathCommands useCwd op) t := by
  refine (sending_opRules net start useCwd _ (wanted op)).runOp ls op (fun cmd hcmd => ?_)
    wanted_request (fun call hcall s hs => ?_) hs
  · exact allowed_whole hsend (List.mem_append_left _ hcmd)
  · refine sending_ftpPut call.1 call.2.2 (fun cmd hcmd => ?_) hsend hs
    rw [pathCommands, Option.mem_def.mp hcall]
    exact List.mem_append_right _ hcmd

end Sends

/-! ### Runs -/

/-- The setting of `use_cwd` is never changed. -/
def UsesCwd (useCwd : Bool) (s : Client ω) : Prop := s.sess.useCwd = useCwd

lemma usesCwd_invariant (net : Network ω) (useCwd : Bool) :
    Invariant net (fun _ => True) (UsesCwd useCwd) (UsesCwd useCwd) where
  plain _ := trivial
  alike hst hs := hst.useCwd.trans hs
  alike_due hst hs := hst.useCwd.trans hs
  due := id
  hangUp := id
  command _ _ hs := (runCommand_onward _ _).mono fun _ _ ht => by
    rw [ite_self]
    exact ht.useCwd.trans hs
  redial _ := id
  greet _ _ := id
  login _ _ := id
  accepted := id
  refused := id
  close hs := (dtpClose_onward _).mono fun _ _ ht => ht.elim fun _ ht => ht.useCwd.trans hs

lemma usesCwd_ftpPut {useCwd : Bool} (localfile remotefile : Text) (asc : Bool) {s : Client ω}
    (hs : UsesCwd useCwd s) :
    Ends (ftpPut net localfile remotefile asc) s fun _ t => UsesCwd useCwd t := by
  have hchdir (fn : Text) : ChdirRule net (UsesCwd useCwd) (UsesCwd useCwd) (fun _ => True) fn := by
    intro s hs
    simp only [maybeChdir, ends_bind, ends_get]
    rw [ends_ite]
    split_ifs
    · exact ⟨trivial, hs⟩
    · simp only [ends_bind, ends_updateSession, ends_pure]
      have hcwd : isTransfer (printInto 1024 (ascii "CWD " ++ (splitSlash fn).1)) = false :=
        isTransfer_printInto _ _ (by decide) (by decide) (by decide)
      refine ((usesCwd_invariant net useCwd).simple trivial hcwd hs).mono fun ret t ht => ?_
      split_ifs
      · exact ⟨trivial, ht⟩
      · exact ht
    · exact ⟨trivial, hs⟩
  exact ftpPut_ends (usesCwd_invariant net useCwd) (usesCwd_invariant net useCwd)
    (fun _ _ => trivial) (hchdir remotefile) (fun fn _ => hchdir fn) (fun _ h => h) (fun _ h => h)
    (fun _ h => h) localfile asc hs

/-- After any run, an operation whose commands fit and are single lines sends each of them whole
and on a line of its own, and nothing else but the commands of the session. -/
theorem commands_intact (net : Network ω) (ls : LsParser κ) (ops : List Op) (op : Op) (w : ω)
    (usePassive useCwd : Bool) (username password : Text) (piAddr : List InetAddr)
    (hsend : Sendable (pathCommands useCwd op)) :
    ∀ tr e, e :: tr <:+ ((runOp net ls op).run
        (afterOps net ls ops w usePassive useCwd username password piAddr)).2.trace →
      (afterOps net ls ops w usePassive useCwd username password piAddr).trace <:+ tr →
      Intact (pathCommands useCwd op) e := by
  generalize hs : afterOps net ls ops w usePassive useCwd username password piAddr = s
  have huse : UsesCwd useCwd s := by
    rw [← hs]
    exact (usesCwd_invariant net useCwd).runOps ls (fun _ _ _ _ hs => usesCwd_ftpPut _ _ _ hs) ops rfl
  have hsending : Sending s.trace useCwd (pathCommands useCwd op) s :=
    ⟨steps_before (List.suffix_refl _), huse⟩
  have hop : Sending s.trace useCwd (pathCommands useCwd op) ((runOp net ls op).run s).2 :=
    sending_runOp ls hsend hsending
  intro tr e he
  exact hop.steps.step he

/-- An upload of `/www/f` with `use_cwd`. -/
theorem commands_intact_upload :
    Sendable (pathCommands true (.put (ascii "f") (ascii "/www/f") false)) ∧
      ∀ tr e, e :: tr <:+ ((runOp droppedNetwork emptyListing
            (.put (ascii "f") (ascii "/www/f") false)).run
          (afterOps droppedNetwork emptyListing [] 0 false true (ascii "u") (ascii "p")
            [⟨.ipv4, [127, 0, 0, 1]⟩])).2.trace →
        (afterOps droppedNetwork emptyListing [] 0 false true (ascii "u") (ascii "p")
            [⟨.ipv4, [127, 0, 0, 1]⟩]).trace <:+ tr →
        Intact (pathCommands true (.put (ascii "f") (ascii "/www/f") false)) e := by
  have hsend : Sendable (pathCommands true (.put (ascii "f") (ascii "/www/f") false)) := by
    decide +kernel
  exact ⟨hsend, commands_intact droppedNetwork emptyListing [] _ 0 false true (ascii "u")
    (ascii "p") [⟨.ipv4, [127, 0, 0, 1]⟩] hsend⟩

/-- With `use_cwd` the path of an upload is not sent as a whole. -/
theorem path_split :
    ¬ Steps (fun _ e => Intact (pathCommands false (.put (ascii "f") (ascii "/www/f") false)) e)
      droppedRun.2.trace := by
  decide +kernel

end Sitecopy.FtpPaths
