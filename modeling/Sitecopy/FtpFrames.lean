import Sitecopy.FtpTransfer

/-!
# What the control connection leaves alone

Commands, replies and logins touch neither the bytes on the data connection nor the local
files. Only the opening of a data connection and the transfers themselves do.
-/
namespace Sitecopy.FtpFrames
open SiteModel StateProgram FtpSession FtpTransfer

/-! ### Programs that leave a part of the state alone -/

section Leaves
variable {σ τ α β : Type} {part : σ → τ}

/-- `m` leaves the part of the state alone. -/
def Leaves (part : σ → τ) (m : StateM σ α) : Prop := ∀ s, Ends m s fun _ t => part t = part s

lemma Leaves.pure (a : α) : Leaves part (pure a) := fun _ => rfl

lemma Leaves.get : Leaves part get := fun _ => rfl

lemma leaves_modify {f : σ → σ} (h : ∀ s, part (f s) = part s) : Leaves part (modify f) := h

lemma Leaves.bind {m : StateM σ α} {f : α → StateM σ β} (hm : Leaves part m)
    (hf : ∀ a, Leaves part (f a)) : Leaves part (m >>= f) := by
  intro s
  rw [ends_bind]
  apply (hm s).mono
  intro a t ht
  exact (hf a t).mono fun _ u hu => hu.trans ht

lemma leaves_step {f : σ → σ} {k : PUnit → StateM σ β} (hf : ∀ s, part (f s) = part s)
    (hk : ∀ u, Leaves part (k u)) : Leaves part (modify f >>= k) :=
  (leaves_modify hf).bind hk

lemma Leaves.map {g : α → β} {m : StateM σ α} (hm : Leaves part m) : Leaves part (g <$> m) := by
  intro s
  rw [ends_map]
  exact hm s

lemma Leaves.ite {c : Prop} [Decidable c] {m n : StateM σ α} (hm : Leaves part m)
    (hn : Leaves part n) : Leaves part (if c then m else n) := by
  split_ifs
  · exact hm
  · exact hn

lemma Leaves.retry {again : α → Bool} {body : StateM σ α} (hbody : Leaves part body) (n : ℕ) :
    Leaves part (retry again body n) := by
  induction n with
  | zero => exact hbody
  | succ n ih =>
    apply hbody.bind
    intro r
    exact Leaves.ite ih (Leaves.pure r)

end Leaves

/-! ### The control connection -/

variable {ω : Type} {net : Network ω}

/-- The data connection and the local files. -/
def files (s : Client ω) : Text × List (Text × Text) := (s.data, s.created)

lemma outside_leaves {α : Type} (m : StateM ω α) : Leaves files (outside m) := fun _ => rfl

lemma updateSession_leaves (f : Session → Session) :
    Leaves files (updateSession f : Ftp ω PUnit) := fun _ => rfl

lemma record_leaves (e : Event) : Leaves files (record e : Ftp ω PUnit) := fun _ => rfl

lemma closePi_leaves : Leaves files (closePi : Ftp ω PUnit) := fun _ => rfl

lemma serve_leaves (line : Text) : Leaves files (serve net line) := by
  apply (outside_leaves _).bind
  intro r
  refine leaves_step (fun _ => rfl) fun _ => ?_
  apply Leaves.ite
  · apply (outside_leaves _).bind
    intro f
    exact leaves_modify fun _ => rfl
  · exact Leaves.pure _

lemma serveAll_leaves (lines : List Text) : Leaves files (serveAll net lines) := by
  induction lines with
  | nil => exact Leaves.pure _
  | cons line rest ih => exact (serve_leaves line).bind fun _ => ih

lemma writeCommand_leaves (cmd : Text) : Leaves files (writeCommand net cmd) := by
  refine leaves_step (fun _ => rfl) fun _ => ?_
  apply (outside_leaves _).bind
  intro fault
  cases fault with
  | some e => exact Leaves.pure _
  | none => exact (serveAll_leaves _).bind fun _ => Leaves.pure _

lemma readReply_leaves (origin : Origin) : Leaves files (readReply net origin) := by
  apply Leaves.get.bind
  intro s
  apply (outside_leaves _).bind
  intro r
  refine leaves_step (fun _ => rfl) fun _ => ?_
  cases r.result with
  | error e => exact closePi_leaves.bind fun _ => Leaves.pure _
  | ok code => exact (record_leaves _).bind fun _ => Leaves.pure _

lemma parseModtime_leaves : Leaves files (parseModtime net) := by
  apply (updateSession_leaves _).bind
  intro _
  apply Leaves.get.bind
  intro s
  apply Leaves.ite
  · exact Leaves.pure _
  · split
    · exact (updateSession_leaves _).bind fun _ => Leaves.pure _
    · exact Leaves.pure _

lemma parsePasvReply_leaves (reply : Text) :
    Leaves files (parsePasvReply reply : Ftp ω FtpCode) := by
  unfold parsePasvReply
  split
  · exact Leaves.pure _
  · split
    · exact (updateSession_leaves _).bind fun _ => Leaves.pure _
    · exact Leaves.pure _

lemma parseEpasvReply_leaves (reply : Text) :
    Leaves files (parseEpasvReply reply : Ftp ω FtpCode) := by
  apply Leaves.ite
  · exact Leaves.pure _
  · apply Leaves.ite
    · exact Leaves.pure _
    · exact (updateSession_leaves _).bind fun _ => Leaves.pure _

lemma parseReply_leaves (code : ℕ) : Leaves files (parseReply net code) := by
  unfold parseReply
  split
  case h_14 => exact closePi_leaves.bind fun _ => Leaves.pure _
  case h_16 => exact parseModtime_leaves
  case h_17 => exact Leaves.get.bind fun s => parsePasvReply_leaves _
  case h_18 => exact Leaves.get.bind fun s => parseEpasvReply_leaves _
  all_goals exact Leaves.pure _

lemma runCommand_leaves (cmd : Text) : Leaves files (runCommand net cmd) := by
  apply (writeCommand_leaves cmd).bind
  intro fault
  cases fault with
  | some e => exact closePi_leaves.bind fun _ => Leaves.pure _
  | none =>
    apply Leaves.get.bind
    intro s
    apply (readReply_leaves _).bind
    intro res
    cases res with
    | error ret => exact Leaves.pure _
    | ok code => exact parseReply_leaves code

/-! ### Logins and `execute` -/

lemma sendLogin_leaves (username password : Text) :
    Leaves files (sendLogin net username password) := by
  apply (updateSession_leaves _).bind
  intro _
  apply (runCommand_leaves _).bind
  intro ret
  exact Leaves.ite (runCommand_leaves _) (Leaves.pure _)

lemma authenticate_leaves : Leaves files (authenticate net) := by
  apply Leaves.get.bind
  intro s
  apply Leaves.ite
  · apply (outside_leaves _).bind
    intro login
    cases login with
    | none => exact Leaves.pure _
    | some login => exact sendLogin_leaves login.1 login.2
  · exact sendLogin_leaves _ _

lemma connectPi_leaves (addresses : List InetAddr) : Leaves files (connectPi net addresses) := by
  induction addresses with
  | nil => exact Leaves.pure _
  | cons ia rest ih =>
    apply (outside_leaves _).bind
    intro success
    apply (updateSession_leaves _).bind
    intro _
    exact Leaves.ite (Leaves.pure _) ih

lemma dial_leaves : Leaves files (dial net) := by
  apply (updateSession_leaves _).bind
  intro _
  apply Leaves.get.bind
  intro s
  apply (connectPi_leaves _).bind
  intro success
  apply Leaves.ite
  · exact Leaves.pure _
  apply (outside_leaves _).bind
  intro hello
  refine leaves_step (fun _ => rfl) fun _ => ?_
  apply (readReply_leaves _).bind
  intro res
  cases res with
  | error ret => exact Leaves.pure _
  | ok code =>
    apply (parseReply_leaves code).bind
    intro ret
    apply Leaves.ite
    · exact Leaves.pure _
    apply authenticate_leaves.bind
    intro ret
    apply Leaves.ite
    · apply Leaves.get.bind
      intro s
      apply Leaves.ite
      · exact closePi_leaves.bind fun _ => Leaves.pure _
      · exact Leaves.pure _
    · apply (outside_leaves _).bind
      intro dir
      exact leaves_step (fun _ => rfl) fun _ => Leaves.pure _

lemma openWith_leaves {restore : TranMode → Ftp ω FtpCode}
    (hrestore : ∀ mode, Leaves files (restore mode)) : Leaves files (openWith net restore) := by
  apply Leaves.get.bind
  intro s
  apply Leaves.ite
  · exact Leaves.pure _
  apply dial_leaves.bind
  intro ret
  apply Leaves.ite
  · exact Leaves.pure _
  apply Leaves.get.bind
  intro s
  apply Leaves.ite
  · exact (updateSession_leaves _).bind fun _ => hrestore _
  · exact Leaves.pure _

lemma executeWith_leaves {openPi : Ftp ω FtpCode} (hopen : Leaves files openPi) (cmd : Text) :
    Leaves files (executeWith net openPi cmd) := by
  have hattempt : Leaves files (attempt net openPi (printInto 1024 cmd)) := by
    apply hopen.bind
    intro ret
    exact Leaves.ite (Leaves.pure _) (runCommand_leaves _).map
  apply (hattempt.retry 2).bind
  intro r
  split <;> exact Leaves.pure _

lemma setModeWith_leaves {exec : Text → Ftp ω FtpCode} (hexec : ∀ cmd, Leaves files (exec cmd))
    (mode : TranMode) : Leaves files (setModeWith exec mode) := by
  apply Leaves.get.bind
  intro s
  apply Leaves.ite
  · exact Leaves.pure _
  apply (hexec _).bind
  intro ret
  exact (updateSession_leaves _).bind fun _ => Leaves.pure _

lemma openDepth_leaves (n : ℕ) : Leaves files (openDepth net n) := by
  induction n with
  | zero => exact openWith_leaves fun _ => Leaves.pure _
  | succ n ih => exact openWith_leaves (setModeWith_leaves (executeWith_leaves ih))

theorem ftpOpen_leaves : Leaves files (ftpOpen net) := openDepth_leaves 1

theorem execute_leaves (cmd : Text) : Leaves files (execute net cmd) :=
  executeWith_leaves ftpOpen_leaves cmd

theorem setMode_leaves (mode : TranMode) : Leaves files (setMode net mode) :=
  setModeWith_leaves execute_leaves mode

theorem maybeChdir_leaves (fn : Text) : Leaves files (maybeChdir net fn) := by
  apply Leaves.get.bind
  intro s
  apply Leaves.ite
  · exact Leaves.pure _
  · apply Leaves.ite
    · apply (execute_leaves _).bind
      intro ret
      exact (updateSession_leaves _).bind fun _ => Leaves.pure _
    · exact Leaves.pure _

/-! ### The data connection -/

lemma askEpsv_leaves : Leaves files (askEpsv net) := by
  apply Leaves.get.bind
  intro s
  apply Leaves.ite
  · apply (execute_leaves _).bind
    intro ret
    exact (updateSession_leaves _).bind fun _ => Leaves.pure _
  · exact Leaves.pure _

lemma askPasv_leaves (ret : FtpCode) : Leaves files (askPasv net ret) := by
  apply Leaves.get.bind
  intro s
  exact Leaves.ite (execute_leaves _) (Leaves.pure _)

theorem dtpClose_leaves : Leaves files (dtpClose net) := by
  apply (outside_leaves _).bind
  intro success
  apply (record_leaves _).bind
  intro _
  apply Leaves.ite
  · exact Leaves.pure _
  apply Leaves.get.bind
  intro s
  apply (readReply_leaves _).bind
  intro res
  cases res with
  | error ret => exact Leaves.pure _
  | ok code =>
    apply (parseReply_leaves code).bind
    intro ret
    exact Leaves.ite (Leaves.pure _) (Leaves.pure _)

/-! ### Local files -/

lemma Leaves.created {α : Type} {m : Ftp ω α} (h : Leaves files m) : Leaves Client.created m :=
  fun s => (h s).mono fun _ _ ht => congrArg Prod.snd ht

lemma Leaves.data {α : Type} {m : Ftp ω α} (h : Leaves files m) : Leaves Client.data m :=
  fun s => (h s).mono fun _ _ ht => congrArg Prod.fst ht

lemma dtpOpenPassive_created : Leaves Client.created (dtpOpenPassive net) := by
  apply Leaves.get.bind
  intro s
  exact leaves_step (fun _ => rfl) fun _ => (outside_leaves _).created

lemma dtpOpenActive_created (command : Text) :
    Leaves Client.created (dtpOpenActive net command) := by
  apply ftpOpen_leaves.created.bind
  intro ret
  apply Leaves.ite
  · exact Leaves.pure _
  apply (outside_leaves _).created.bind
  intro numbers
  cases numbers with
  | none => exact Leaves.pure _
  | some numbers =>
    apply (execute_leaves _).created.bind
    intro ret
    apply Leaves.ite
    · exact Leaves.pure _
    apply (execute_leaves _).created.bind
    intro ret
    apply Leaves.ite
    · exact Leaves.pure _
    refine leaves_step (fun _ => rfl) fun _ => ?_
    apply (outside_leaves _).created.bind
    intro success
    apply (record_leaves _).created.bind
    intro _
    exact Leaves.ite (Leaves.pure _) (Leaves.pure _)

theorem ftpDataOpen_created (command : Text) : Leaves Client.created (ftpDataOpen net command) := by
  apply Leaves.get.bind
  intro s
  apply Leaves.ite
  · apply askEpsv_leaves.created.bind
    intro ret
    apply (askPasv_leaves ret).created.bind
    intro ret
    apply Leaves.ite
    · exact Leaves.pure _
    apply dtpOpenPassive_created.bind
    intro success
    exact Leaves.ite (execute_leaves _).created (Leaves.pure _)
  · exact dtpOpenActive_created _

end Sitecopy.FtpFrames
