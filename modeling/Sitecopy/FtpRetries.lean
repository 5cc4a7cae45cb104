import Sitecopy.FtpFrames
import Sitecopy.FtpTransferType

/-!
# The retries of the FTP client end

`execute`, `ftp_open` and `set_mode` call each other, but not deeper than once: while the
mode is restored it is unknown, and a connection that is opened then restores nothing. So
what a call costs, in commands and in logins, does not depend on the server.
-/
namespace Sitecopy.FtpRetries
open SiteModel SiteOperations StateProgram FtpSession FtpReplies FtpRules FtpTransfer FtpFrames
  FtpTransferType

/-! ### Programs with a cost -/

section Costs
variable {σ α β : Type} {count : σ → ℕ} {c d : ℕ}

/-- A run of `m` raises the count by at most `c`. -/
def Costs (count : σ → ℕ) (m : StateM σ α) (c : ℕ) : Prop :=
  ∀ s, Ends m s fun _ t => count t ≤ count s + c

lemma Costs.mono {m : StateM σ α} (hm : Costs count m c) (hcd : c ≤ d) : Costs count m d :=
  fun s => (hm s).mono fun _ _ ht => ht.trans (Nat.add_le_add_left hcd _)

lemma Costs.of_leaves {m : StateM σ α} (hm : Leaves count m) : Costs count m 0 :=
  fun s => (hm s).mono fun _ _ ht => ht.le

lemma Costs.pure (a : α) : Costs count (pure a) c := fun _ => Nat.le_add_right _ _

lemma Costs.bind {m : StateM σ α} {f : α → StateM σ β} (hm : Costs count m c)
    (hf : ∀ a, Costs count (f a) d) : Costs count (m >>= f) (c + d) := by
  intro s
  rw [ends_bind]
  apply (hm s).mono
  intro a t ht
  apply (hf a t).mono
  intro _ u hu
  omega

/-- What comes after a program that leaves the count alone. -/
lemma Costs.after {m : StateM σ α} {f : α → StateM σ β} (hm : Leaves count m)
    (hf : ∀ a, Costs count (f a) d) : Costs count (m >>= f) d := by
  have hcost := (Costs.of_leaves hm).bind hf
  rwa [Nat.zero_add] at hcost

/-- What comes before programs that cost nothing. -/
lemma Costs.before {m : StateM σ α} {f : α → StateM σ β} (hm : Costs count m c)
    (hf : ∀ a, Costs count (f a) 0) : Costs count (m >>= f) c := hm.bind hf

lemma Costs.map {g : α → β} {m : StateM σ α} (hm : Costs count m c) : Costs count (g <$> m) c := by
  intro s
  rw [ends_map]
  exact hm s

lemma Costs.ite {p : Prop} [Decidable p] {m n : StateM σ α} (hm : Costs count m c)
    (hn : Costs count n c) : Costs count (if p then m else n) c := by
  split_ifs
  · exact hm
  · exact hn

/-- A body that is run at most `n + 1` times. -/
lemma Costs.retry {again : α → Bool} {body : StateM σ α} (hbody : Costs count body c) (n : ℕ) :
    Costs count (StateProgram.retry again body n) ((n + 1) * c) := by
  induction n with
  | zero =>
    rw [Nat.zero_add, Nat.one_mul]
    exact hbody
  | succ n ih =>
    have hturn := hbody.bind fun r => Costs.ite (p := again r = true) ih (Costs.pure r)
    apply hturn.mono
    rw [Nat.succ_mul (n + 1)]
    omega

end Costs

/-! ### What is counted -/

variable {ω : Type} {net : Network ω}

/-- Commands are counted when they are written; logins when the greeting before them is read. -/
inductive Kind
  | command
  | login
  deriving DecidableEq, Repr

def Kind.counts : Kind → Event → Bool
  | .command, .command _ _ => true
  | .login, .reply .greeting _ => true
  | _, _ => false

def Kind.tally (k : Kind) (s : Client ω) : ℕ := s.trace.countP k.counts

/-- What one command costs. -/
def Kind.perCommand : Kind → ℕ
  | .command => 1
  | .login => 0

/-- What one connection costs: `USER` and `PASS`, or one login. -/
def Kind.perDial : Kind → ℕ
  | .command => 2
  | .login => 1

variable {k : Kind}

/-! ### The control connection -/

lemma outside_tally {α : Type} (m : StateM ω α) : Leaves k.tally (outside m) := fun _ => rfl

lemma updateSession_tally (f : Session → Session) :
    Leaves k.tally (updateSession f : Ftp ω PUnit) := fun _ => rfl

lemma closePi_tally : Leaves k.tally (closePi : Ftp ω PUnit) := fun _ => rfl

lemma tally_cons {e : Event} (he : k.counts e = false) (s : Client ω) :
    k.tally { s with trace := e :: s.trace } = k.tally s :=
  List.countP_cons_of_neg (by simp [he])

lemma record_tally {e : Event} (he : k.counts e = false) : Leaves k.tally (record e : Ftp ω PUnit) :=
  fun s => tally_cons he s

lemma serve_tally (line : Text) : Leaves k.tally (serve net line) := by
  apply (outside_tally _).bind
  intro r
  refine leaves_step (fun s => ?_) fun _ => ?_
  · exact List.countP_cons_of_neg (by cases k <;> simp [Kind.counts])
  apply Leaves.ite
  · apply (outside_tally _).bind
    intro f
    exact leaves_modify fun _ => rfl
  · exact Leaves.pure _

lemma serveAll_tally (lines : List Text) : Leaves k.tally (serveAll net lines) := by
  induction lines with
  | nil => exact Leaves.pure _
  | cons line rest ih => exact (serve_tally line).bind fun _ => ih

lemma writeCommand_costs (cmd : Text) : Costs k.tally (writeCommand net cmd) k.perCommand := by
  have hmark : Costs k.tally (modify fun s : Client ω =>
      { s with trace := .command cmd s.unread :: s.trace }) k.perCommand := by
    intro s
    show List.countP _ (_ :: _) ≤ _
    rw [List.countP_cons]
    cases k <;> simp [Kind.counts, Kind.perCommand, Kind.tally]
  refine hmark.before fun _ => ?_
  apply Costs.after (outside_tally _)
  intro fault
  cases fault with
  | some e => exact Costs.pure _
  | none => exact Costs.after (serveAll_tally _) fun _ => Costs.pure _

/-- Reading a reply is counted if it is a greeting. -/
lemma readReply_costs (origin : Origin) (c : ℕ)
    (hc : ∀ lines, k.counts (.reply origin lines) = true → 1 ≤ c) :
    Costs k.tally (readReply net origin) c := by
  apply Costs.after Leaves.get
  intro s
  apply Costs.after (outside_tally _)
  intro r
  refine Costs.after (leaves_modify fun _ => rfl) fun _ => ?_
  cases r.result with
  | error e => exact Costs.after closePi_tally fun _ => Costs.pure _
  | ok code =>
    have hrecord : Costs k.tally (record (.reply origin r.taken) : Ftp ω PUnit) c := by
      intro t
      show List.countP _ (_ :: _) ≤ _
      rw [List.countP_cons]
      split_ifs with hcount
      · exact Nat.add_le_add_left (hc _ hcount) _
      · exact Nat.le_add_right _ _
    exact hrecord.before fun _ => Costs.pure _

lemma readReply_tally {origin : Origin} (ho : origin ≠ .greeting) :
    Costs k.tally (readReply net origin) 0 := by
  apply readReply_costs
  intro lines h
  cases k <;> cases origin <;> simp_all [Kind.counts]

lemma parseReply_tally (code : ℕ) : Leaves k.tally (parseReply net code) := by
  intro s
  apply (parseReply_parsed code s).mono
  rintro _ t ⟨-, ht⟩
  have htrace : t.trace = s.trace := by
    have := ht.trace
    split_ifs at this <;> exact this
  exact congrArg (List.countP k.counts) htrace

lemma runCommand_costs (cmd : Text) : Costs k.tally (runCommand net cmd) k.perCommand := by
  apply (writeCommand_costs cmd).before
  intro fault
  cases fault with
  | some e => exact Costs.after closePi_tally fun _ => Costs.pure _
  | none =>
    apply Costs.after Leaves.get
    intro s
    apply (readReply_tally (by simp)).before
    intro res
    cases res with
    | error ret => exact Costs.pure _
    | ok code => exact Costs.of_leaves (parseReply_tally code)

/-! ### Logins and `execute` -/

lemma sendLogin_costs (username password : Text) :
    Costs k.tally (sendLogin net username password) (k.perCommand + k.perCommand) := by
  apply Costs.after (updateSession_tally _)
  intro _
  apply (runCommand_costs _).bind
  intro ret
  exact Costs.ite (runCommand_costs _) (Costs.pure _)

lemma authenticate_costs : Costs k.tally (authenticate net) (k.perCommand + k.perCommand) := by
  apply Costs.after Leaves.get
  intro s
  apply Costs.ite
  · apply Costs.after (outside_tally _)
    intro login
    cases login with
    | none => exact Costs.pure _
    | some login => exact sendLogin_costs login.1 login.2
  · exact sendLogin_costs _ _

lemma connectPi_tally (addresses : List InetAddr) : Leaves k.tally (connectPi net addresses) :=
  fun s => (connectPi_alike addresses s).mono fun _ _ ht => congrArg (List.countP k.counts) ht.trace

/-- Opening a connection costs one greeting and the two commands of a login. -/
theorem dial_costs : Costs k.tally (dial net) k.perDial := by
  have hgreeting : Costs k.tally (readReply net .greeting)
      (k.perDial - (k.perCommand + k.perCommand)) := by
    apply readReply_costs
    intro lines h
    cases k with
    | command => cases h
    | login => exact le_refl 1
  apply Costs.after (updateSession_tally _)
  intro _
  apply Costs.after Leaves.get
  intro s
  apply Costs.after (connectPi_tally _)
  intro success
  apply Costs.ite
  · exact Costs.pure _
  apply Costs.after (outside_tally _)
  intro hello
  refine Costs.after (leaves_modify fun _ => rfl) fun _ => ?_
  have hsum : k.perDial - (k.perCommand + k.perCommand) + (k.perCommand + k.perCommand) =
      k.perDial := by cases k <;> rfl
  rw [← hsum]
  apply hgreeting.bind
  intro res
  cases res with
  | error ret => exact Costs.pure _
  | ok code =>
    apply Costs.after (parseReply_tally code)
    intro ret
    apply Costs.ite
    · exact Costs.pure _
    apply authenticate_costs.before
    intro ret
    apply Costs.of_leaves
    apply Leaves.ite
    · apply Leaves.get.bind
      intro s
      apply Leaves.ite
      · exact closePi_tally.bind fun _ => Leaves.pure _
      · exact Leaves.pure _
    · apply (outside_tally _).bind
      intro dir
      exact leaves_step (fun s => tally_cons (by cases k <;> rfl) _) fun _ => Leaves.pure _

/-- `ftp_open`, if restoring the mode costs at most `c`. -/
lemma openWith_costs {restore : TranMode → Ftp ω FtpCode} {c : ℕ}
    (hrestore : ∀ mode, Costs k.tally (restore mode) c) :
    Costs k.tally (openWith net restore) (k.perDial + c) := by
  apply Costs.after Leaves.get
  intro s
  apply Costs.ite
  · exact Costs.pure _
  apply dial_costs.bind
  intro ret
  apply Costs.ite
  · exact Costs.pure _
  apply Costs.after Leaves.get
  intro s
  apply Costs.ite
  · exact Costs.after (updateSession_tally _) fun _ => hrestore _
  · exact Costs.pure _

/-- `execute` makes at most three turns. -/
lemma executeWith_costs {openPi : Ftp ω FtpCode} {c : ℕ} (hopen : Costs k.tally openPi c)
    (cmd : Text) : Costs k.tally (executeWith net openPi cmd) (3 * (c + k.perCommand)) := by
  have hattempt : Costs k.tally (attempt net openPi (printInto 1024 cmd)) (c + k.perCommand) := by
    apply hopen.bind
    intro ret
    exact Costs.ite (Costs.pure _) (runCommand_costs _).map
  apply (hattempt.retry 2).before
  intro r
  split <;> exact Costs.pure _

lemma setModeWith_costs {exec : Text → Ftp ω FtpCode} {c : ℕ}
    (hexec : ∀ cmd, Costs k.tally (exec cmd) c) (mode : TranMode) :
    Costs k.tally (setModeWith exec mode) c := by
  apply Costs.after Leaves.get
  intro s
  apply Costs.ite
  · exact Costs.pure _
  apply (hexec _).before
  intro ret
  exact Costs.of_leaves ((updateSession_tally _).bind fun _ => Leaves.pure _)

/-- What a call of `ftp_open` costs at most. -/
def Kind.perOpen (k : Kind) : ℕ := k.perDial + 3 * (k.perDial + k.perCommand)

/-- What a call of `execute` costs at most. -/
def Kind.perExecute (k : Kind) : ℕ := 3 * (k.perOpen + k.perCommand)

theorem ftpOpen_costs : Costs k.tally (ftpOpen net) k.perOpen := by
  have hinner : Costs k.tally (openDepth net 0) (k.perDial + 0) :=
    openWith_costs fun _ => Costs.pure _
  exact openWith_costs (setModeWith_costs (executeWith_costs hinner))

theorem execute_costs (cmd : Text) : Costs k.tally (execute net cmd) k.perExecute :=
  executeWith_costs ftpOpen_costs cmd

theorem setMode_costs (mode : TranMode) : Costs k.tally (setMode net mode) k.perExecute :=
  setModeWith_costs execute_costs mode

/-! ### Transfers -/

lemma maybeChdir_costs (fn : Text) : Costs k.tally (maybeChdir net fn) k.perExecute := by
  apply Costs.after Leaves.get
  intro s
  apply Costs.ite
  · exact Costs.pure _
  · apply Costs.ite
    · apply (execute_costs _).before
      intro ret
      exact Costs.of_leaves ((updateSession_tally _).bind fun _ => Leaves.pure _)
    · exact Costs.pure _

lemma askEpsv_costs : Costs k.tally (askEpsv net) k.perExecute := by
  apply Costs.after Leaves.get
  intro s
  apply Costs.ite
  · apply (execute_costs _).before
    intro ret
    exact Costs.of_leaves ((updateSession_tally _).bind fun _ => Leaves.pure _)
  · exact Costs.pure _

lemma askPasv_costs (ret : FtpCode) : Costs k.tally (askPasv net ret) k.perExecute := by
  apply Costs.after Leaves.get
  intro s
  exact Costs.ite (execute_costs _) (Costs.pure _)

lemma dtpOpenActive_costs (command : Text) :
    Costs k.tally (dtpOpenActive net command) (3 * k.perExecute) := by
  have hopen : k.perOpen + (k.perExecute + k.perExecute) ≤ 3 * k.perExecute := by
    unfold Kind.perExecute
    omega
  refine Costs.mono (ftpOpen_costs.bind fun ret => ?_) hopen
  apply Costs.ite
  · exact Costs.pure _
  apply Costs.after (outside_tally _)
  intro numbers
  cases numbers with
  | none => exact Costs.pure _
  | some numbers =>
    apply (execute_costs _).bind
    intro ret
    apply Costs.ite
    · exact Costs.pure _
    apply (execute_costs _).before
    intro ret
    apply Costs.ite
    · exact Costs.pure _
    refine Costs.after (leaves_modify fun _ => rfl) fun _ => ?_
    apply Costs.after (outside_tally _)
    intro success
    apply Costs.after (record_tally (by cases k <;> rfl))
    intro _
    exact Costs.ite (Costs.pure _) (Costs.pure _)

theorem ftpDataOpen_costs (command : Text) :
    Costs k.tally (ftpDataOpen net command) (3 * k.perExecute) := by
  apply Costs.after Leaves.get
  intro s
  apply Costs.ite
  · have hsum : k.perExecute + (k.perExecute + k.perExecute) = 3 * k.perExecute := by omega
    rw [← hsum]
    apply askEpsv_costs.bind
    intro ret
    apply (askPasv_costs ret).bind
    intro ret
    apply Costs.ite
    · exact Costs.pure _
    apply Costs.after
    · apply Leaves.get.bind
      intro s
      exact leaves_step (fun _ => rfl) fun _ => outside_tally _
    · intro success
      exact Costs.ite (execute_costs _) (Costs.pure _)
  · exact dtpOpenActive_costs _

theorem dtpClose_costs : Costs k.tally (dtpClose net) 0 := by
  apply Costs.after (outside_tally _)
  intro success
  apply Costs.after (record_tally (by cases k <;> rfl))
  intro _
  apply Costs.ite
  · exact Costs.pure _
  apply Costs.after Leaves.get
  intro s
  apply (readReply_tally (by simp)).before
  intro res
  cases res with
  | error ret => exact Costs.pure _
  | ok code =>
    apply Costs.after (parseReply_tally code)
    intro ret
    exact Costs.ite (Costs.pure _) (Costs.pure _)

lemma sendBuffers_tally (buffers : List Text) : Leaves k.tally (sendBuffers net buffers) := by
  induction buffers with
  | nil => exact Leaves.pure _
  | cons buffer rest ih =>
    apply (outside_tally _).bind
    intro fault
    cases fault with
    | some e => exact Leaves.pure _
    | none => exact leaves_step (fun _ => rfl) fun _ => ih

lemma sendFile_tally (asc : Bool) (content : Text) : Leaves k.tally (sendFile net asc content) := by
  apply (outside_tally _).bind
  intro fault
  apply (sendBuffers_tally _).bind
  intro sent
  exact Leaves.pure _

lemma writeBlocks_tally (localfile : Text) (content : Text) (blocks : List Text) :
    Leaves k.tally (writeBlocks net localfile content blocks) := by
  induction blocks generalizing content with
  | nil => exact Leaves.pure _
  | cons block rest ih =>
    apply (outside_tally _).bind
    intro cut
    cases cut with
    | some n => exact leaves_step (fun _ => rfl) fun _ => Leaves.pure _
    | none => exact leaves_step (fun _ => rfl) fun _ => ih _

lemma putAttempt_costs (asc : Bool) (content remotefile : Text) :
    Costs k.tally (putAttempt net asc content remotefile) (4 * k.perExecute) := by
  have hsum : k.perExecute + 3 * k.perExecute = 4 * k.perExecute := by omega
  rw [← hsum]
  apply (maybeChdir_costs remotefile).bind
  intro r
  apply Costs.ite
  · exact Costs.pure _
  apply Costs.after (record_tally (by cases k <;> rfl))
  intro _
  apply (ftpDataOpen_costs _).before
  intro ret
  apply Costs.ite
  · apply Costs.after (sendFile_tally asc content)
    intro sent
    apply dtpClose_costs.before
    intro dret
    exact Costs.ite (Costs.pure _) (Costs.pure _)
  · exact Costs.pure _

/-- The loop of `ftp_put`, with the number of turns left. -/
lemma putLoop_costs (asc : Bool) (content : Text) (n : ℕ) (again : Bool) (remotefile : Text) :
    Costs k.tally (putLoop net asc content n again remotefile) (n * (4 * k.perExecute)) := by
  induction n generalizing again remotefile with
  | zero => exact Costs.pure _
  | succ n ih =>
    have hrewind : Leaves k.tally (rewind net again) := Leaves.ite (outside_tally _) (Leaves.pure _)
    rw [Nat.succ_mul, Nat.add_comm (n * _)]
    apply Costs.after hrewind
    intro placed
    apply Costs.ite
    · exact Costs.pure _
    apply (putAttempt_costs asc content remotefile).bind
    intro r
    cases r.1 with
    | error ret => exact Costs.pure _
    | ok dret => exact Costs.ite (ih true r.2) (Costs.pure _)

theorem ftpPut_costs (localfile remotefile : Text) (asc : Bool) :
    Costs k.tally (ftpPut net localfile remotefile asc) (13 * k.perExecute) := by
  have hsum : k.perExecute + 3 * (4 * k.perExecute) = 13 * k.perExecute := by omega
  rw [← hsum]
  apply Costs.after (record_tally (by cases k <;> rfl))
  intro _
  refine Costs.before ?_ fun ret => Costs.of_leaves ((record_tally (by cases k <;> rfl)).bind
    fun _ => Leaves.pure _)
  apply (setMode_costs _).bind
  intro ret
  apply Costs.ite
  · exact Costs.pure _
  apply Costs.after (outside_tally _)
  intro content
  cases content with
  | none => exact Costs.pure _
  | some content =>
    apply Costs.after (outside_tally _)
    intro success
    exact Costs.ite (Costs.pure _) (putLoop_costs asc content 3 false remotefile)

theorem ftpGet_costs (localfile remotefile : Text) (asc : Bool) :
    Costs k.tally (ftpGet net localfile remotefile asc) (4 * k.perExecute) := by
  have hsum : k.perExecute + 3 * k.perExecute = 4 * k.perExecute := by omega
  rw [← hsum]
  apply Costs.after (outside_tally _)
  intro success
  apply Costs.ite
  · exact Costs.pure _
  refine Costs.after (leaves_modify fun _ => rfl) fun _ => ?_
  apply (setMode_costs _).bind
  intro ret
  apply Costs.ite
  · exact Costs.pure _
  apply (ftpDataOpen_costs _).before
  intro ret
  apply Costs.ite
  · exact Costs.pure _
  apply Costs.after
  · apply (outside_tally _).bind
    intro r
    exact (writeBlocks_tally localfile [] r.1).bind fun _ => Leaves.pure _
  · intro received
    apply Costs.after (outside_tally _)
    intro clo
    apply dtpClose_costs.before
    intro dret
    exact Costs.ite (Costs.pure _) (Costs.pure _)

/-! ### How deep the calls nest -/

section Nesting
variable {α β : Type}

/-- Two programs do the same while the mode is unknown, and leave it so. -/
def SameUnset (m m' : Ftp ω α) : Prop :=
  ∀ s : Client ω, s.sess.mode = .unknown →
    m.run s = m'.run s ∧ (m.run s).2.sess.mode = .unknown

lemma SameUnset.of_kept {m : Ftp ω α}
    (hm : ∀ s, Ends m s fun _ t => t.sess.mode = s.sess.mode) : SameUnset m m :=
  fun s hs => ⟨rfl, (hm s).trans hs⟩

lemma SameUnset.bind {m m' : Ftp ω α} {f f' : α → Ftp ω β} (hm : SameUnset m m')
    (hf : ∀ a, SameUnset (f a) (f' a)) : SameUnset (m >>= f) (m' >>= f') := by
  intro s hs
  obtain ⟨hrun, hmode⟩ := hm s hs
  obtain ⟨hnext, hlast⟩ := hf (m.run s).1 (m.run s).2 hmode
  refine ⟨?_, hlast⟩
  show (f (m.run s).1).run (m.run s).2 = (f' (m'.run s).1).run (m'.run s).2
  rw [← hrun]
  exact hnext

lemma SameUnset.get {f f' : Client ω → Ftp ω β}
    (h : ∀ s, s.sess.mode = .unknown → SameUnset (f s) (f' s)) :
    SameUnset (MonadState.get >>= f) (MonadState.get >>= f') := fun s hs => h s hs s hs

lemma SameUnset.ite {p : Prop} [Decidable p] {m m' n n' : Ftp ω α} (hm : SameUnset m m')
    (hn : SameUnset n n') : SameUnset (if p then m else n) (if p then m' else n') := by
  split_ifs
  · exact hm
  · exact hn

lemma SameUnset.pure (a : α) : SameUnset (pure a : Ftp ω α) (pure a) := fun _ hs => ⟨rfl, hs⟩

lemma SameUnset.retry {again : α → Bool} {body body' : Ftp ω α} (h : SameUnset body body') (n : ℕ) :
    SameUnset (StateProgram.retry again body n) (StateProgram.retry again body' n) := by
  induction n with
  | zero => exact h
  | succ n ih => exact h.bind fun r => SameUnset.ite ih (SameUnset.pure r)

end Nesting

/-- While the mode is unknown, `ftp_open` has nothing to restore. -/
lemma openWith_unset (restore restore' : TranMode → Ftp ω FtpCode) :
    SameUnset (openWith net restore) (openWith net restore') := by
  apply SameUnset.get
  intro s _
  apply SameUnset.ite (SameUnset.pure _)
  apply (SameUnset.of_kept dial_mode).bind
  intro ret
  apply SameUnset.ite (SameUnset.pure _)
  apply SameUnset.get
  intro s hs
  have hknown : ¬ s.sess.mode ≠ .unknown := not_not.mpr hs
  rw [if_neg hknown, if_neg hknown]
  exact SameUnset.pure _

lemma executeWith_unset {openPi openPi' : Ftp ω FtpCode} (h : SameUnset openPi openPi')
    (cmd : Text) : SameUnset (executeWith net openPi cmd) (executeWith net openPi' cmd) := by
  have hattempt : SameUnset (attempt net openPi (printInto 1024 cmd))
      (attempt net openPi' (printInto 1024 cmd)) := by
    apply h.bind
    intro ret
    apply SameUnset.ite (SameUnset.pure _)
    exact SameUnset.of_kept fun s => by
      rw [ends_map]
      exact runCommand_mode s _
  apply (hattempt.retry 2).bind
  intro r
  split <;> exact SameUnset.pure _

/-- `ftp_open` restores the mode from where it is unknown. -/
lemma openWith_congr {restore restore' : TranMode → Ftp ω FtpCode}
    (h : ∀ mode (s : Client ω), s.sess.mode = .unknown →
      (restore mode).run s = (restore' mode).run s) :
    openWith net restore = openWith net restore' := by
  have hstep (mode : TranMode) :
      (updateSession (fun s => { s with mode := .unknown }) >>= fun _ => restore mode) =
        (updateSession (fun s => { s with mode := .unknown }) >>= fun _ => restore' mode) := by
    funext s
    exact h mode _ rfl
  unfold openWith
  simp only [hstep]

/-- What `ftp_open` would restore inside `set_mode` is never asked for. -/
theorem ftpOpen_nested (restore : TranMode → Ftp ω FtpCode) :
    openWith net (setModeWith (executeWith net (openWith net restore))) = ftpOpen net := by
  apply openWith_congr
  intro mode s hs
  have hexec (cmd : Text) : (executeWith net (openWith net restore) cmd).run s =
      (executeWith net (openDepth net 0) cmd).run s :=
    (executeWith_unset (openWith_unset restore _) cmd s hs).1
  show (if s.sess.mode = mode then _ else _ : Ftp ω FtpCode).run s =
    (if s.sess.mode = mode then _ else _ : Ftp ω FtpCode).run s
  by_cases hmode : s.sess.mode = mode
  · rw [if_pos hmode, if_pos hmode]
  · rw [if_neg hmode, if_neg hmode]
    simp only [StateT.run_bind, hexec]

/-- `ftp_open` calls `set_mode`, which calls `execute`, which calls `ftp_open`. -/
theorem ftpOpen_recursion : ftpOpen net = openWith net (setMode net) :=
  (ftpOpen_nested (setModeWith (executeWith net (openDepth net 0)))).symm

/-! ### The bounds -/

/-- The commands and the greetings of a run. -/
def Bounded (m : Ftp ω FtpCode) (commands logins : ℕ) : Prop :=
  Costs Kind.command.tally m commands ∧ Costs Kind.login.tally m logins

/-- The calls nest at most one level, and their commands and logins have fixed bounds. -/
theorem retries_end (net : Network ω) (cmd localfile remotefile : Text) (mode : TranMode)
    (asc : Bool) :
    (ftpOpen net = openWith net (setMode net) ∧
      ∀ restore, openWith net (setModeWith (executeWith net (openWith net restore))) =
        ftpOpen net) ∧
    Bounded (execute net cmd) 36 12 ∧ Bounded (ftpOpen net) 11 4 ∧
    Bounded (setMode net mode) 36 12 ∧ Bounded (ftpPut net localfile remotefile asc) 468 156 ∧
    Bounded (ftpGet net localfile remotefile asc) 144 48 :=
  ⟨⟨ftpOpen_recursion, ftpOpen_nested⟩, ⟨execute_costs cmd, execute_costs cmd⟩,
    ⟨ftpOpen_costs, ftpOpen_costs⟩, ⟨setMode_costs mode, setMode_costs mode⟩,
    ⟨ftpPut_costs localfile remotefile asc, ftpPut_costs localfile remotefile asc⟩,
    ⟨ftpGet_costs localfile remotefile asc, ftpGet_costs localfile remotefile asc⟩⟩

end Sitecopy.FtpRetries
