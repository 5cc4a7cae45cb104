import Sitecopy.FtpOperations
import Sitecopy.RunTrace

/-!
# Pairing of replies with commands

As long as no accepted transfer is given up before its final reply is read, nothing is
unread when a command is sent, and every reply is read for the command it answers.
-/
namespace Sitecopy.FtpPairing
open SiteModel StateProgram FtpSession FtpTransfer FtpReplies FtpRules RunTrace

variable {ω κ : Type} {net : Network ω}

/-- A step after which every reply that is due will be read. -/
def Orderly (_ : List Event) : Event → Prop
  | .command cmd _ => commandLines [] cmd = [cmd]
  | .answer line code _ => isTransfer line = true ∧ 100 ≤ code ∧ code < 200 → readyCode code = true
  | .accepted success | .dataClosed success => success = true
  | _ => True

/-- A command is sent when nothing is unread; a reply consists of lines of its origin. -/
def Paired (_ : List Event) : Event → Prop
  | .command _ unread => unread = []
  | .reply origin lines => lines ≠ [] ∧ ∀ l ∈ lines, l.origin = origin
  | _ => True

instance (tr : List Event) (e : Event) : Decidable (Paired tr e) := by
  cases e <;> unfold Paired <;> infer_instance

instance (tr : List Event) (e : Event) : Decidable (Orderly tr e) := by
  cases e <;> unfold Orderly <;> infer_instance

/-- Between commands. -/
structure Quiet (s : Client ω) : Prop where
  upheld : Upheld Orderly Paired s.trace
  unread : Steps Orderly s.trace → s.unread = []

/-- While the final reply of a transfer may be due. -/
structure FinalDue (s : Client ω) : Prop where
  upheld : Upheld Orderly Paired s.trace
  unread : Steps Orderly s.trace → s.unread = [] ∨ ∃ f : Reply, s.unread = f.lines (.final s.sent)

lemma paired_lines (r : Reply) (origin : Origin) :
    r.lines origin ≠ [] ∧ ∀ l ∈ r.lines origin, l.origin = origin := by
  constructor
  · simp [Reply.lines]
  · intro l hl
    obtain ⟨t, -, rfl⟩ := List.mem_map.mp hl
    rfl

/-- Once a step was not orderly, nothing is claimed of what follows. -/
lemma Quiet.of_failed {s t : Client ω} (hs : Upheld Orderly Paired s.trace)
    (hf : ¬ Steps Orderly s.trace) (hst : s.trace <:+ t.trace) : Quiet t := by
  obtain ⟨hupheld, hfailed⟩ := hs.of_failed hf hst
  exact ⟨hupheld, fun h => absurd h hfailed⟩

lemma Quiet.finalDue {s : Client ω} (h : Quiet s) : FinalDue s :=
  ⟨h.upheld, fun hm => .inl (h.unread hm)⟩

/-- A step that sends no command and reads no reply. -/
lemma Quiet.cons {s t : Client ω} {e : Event} (h : Quiet s) (htrace : t.trace = e :: s.trace)
    (hunread : t.unread = s.unread) (he : ∀ tr, Paired tr e) : Quiet t := by
  refine ⟨htrace ▸ h.upheld.cons fun _ _ => he _, fun hm => ?_⟩
  rw [htrace] at hm
  exact hunread.trans (h.unread hm.2)

lemma upheld_read {cmd : Text} {s : Client ω} (h : Upheld Orderly Paired (wrote cmd s).trace)
    (r : Reply) (origin : Origin) (finals : List Line) :
    Upheld Orderly Paired
      (hasRead origin (r.lines origin) finals (answered cmd r.code (wrote cmd s))).trace := by
  have hanswer : Upheld Orderly Paired (answered cmd r.code (wrote cmd s)).trace :=
    h.cons fun _ _ => trivial
  exact hanswer.cons fun _ _ => paired_lines r origin

/-- Only an accepted transfer leaves something to read, when the server is orderly. -/
lemma finals_cases {cmd : Text} {code n : ℕ} {finals : List Line} {ret : FtpCode}
    (hret : Parsed code ret) (hfinals : Finals cmd code n finals)
    (horderly : isTransfer cmd = true ∧ 100 ≤ code ∧ code < 200 → readyCode code = true) :
    finals = [] ∨ (ret = .ready ∧ isTransfer cmd = true) ∧
      ∃ f : Reply, finals = f.lines (.final n) := by
  by_cases hdue : isTransfer cmd && 100 ≤ code && code < 200
  · rw [Finals, if_pos hdue] at hfinals
    simp only [Bool.and_eq_true, decide_eq_true_eq] at hdue
    have hready := hret.ready.mpr (horderly ⟨hdue.1.1, hdue.1.2, hdue.2⟩)
    exact .inr ⟨⟨hready, hdue.1.1⟩, hfinals⟩
  · rw [Finals, if_neg hdue] at hfinals
    exact .inl hfinals

/-- The reply to a command leaves nothing behind, save the final reply of an accepted transfer. -/
lemma command_read {cmd : Text} {s t : Client ω} {ret : FtpCode} {r : Reply} {finals : List Line}
    (hupheld : Upheld Orderly Paired (wrote cmd s).trace) (hret : Parsed r.code ret)
    (hfinals : Finals cmd r.code (s.sent + 1) finals)
    (ht : Alike (hasRead (.reply (s.sent + 1)) (r.lines (.reply (s.sent + 1))) finals
      (answered cmd r.code (wrote cmd s))) t) :
    if ret = .ready ∧ isTransfer cmd = true then FinalDue t else Quiet t := by
  have htrace : Upheld Orderly Paired t.trace := ht.trace ▸ upheld_read hupheld r _ finals
  have hunread (hm : Steps Orderly t.trace) : t.unread = [] ∨
      (ret = .ready ∧ isTransfer cmd = true) ∧ ∃ f : Reply, t.unread = f.lines (.final t.sent) := by
    rw [ht.trace] at hm
    rw [ht.unread, ht.sent]
    exact finals_cases hret hfinals hm.2.1
  split_ifs with hready
  · exact ⟨htrace, fun hm => (hunread hm).imp_right fun h => h.2⟩
  · exact ⟨htrace, fun hm => (hunread hm).resolve_right fun h => hready h.1⟩

lemma quiet_command {cmd : Text} {s : Client ω} (hs : Quiet s) :
    Ends (runCommand net cmd) s fun ret t =>
      if ret = .ready ∧ isTransfer cmd = true then FinalDue t else Quiet t := by
  have hupheld : Upheld Orderly Paired (wrote cmd s).trace :=
    hs.upheld.cons fun hm _ => hs.unread hm
  have hquiet {ret : FtpCode} {t : Client ω} (ht : Quiet t) :
      if ret = .ready ∧ isTransfer cmd = true then FinalDue t else Quiet t := by
    split_ifs
    · exact ht.finalDue
    · exact ht
  by_cases hm : Steps Orderly (wrote cmd s).trace
  swap
  · exact (runCommand_onward cmd s).mono fun _ t ht => hquiet (.of_failed hupheld hm ht.trace)
  refine (runCommand_outcome hm.1 (hs.unread hm.2)).mono fun ret t ht => ?_
  cases ht with
  | unsent hret ht => exact hquiet ⟨ht.trace ▸ hupheld, fun _ => ht.unread⟩
  | lost code hret ht =>
    exact hquiet ⟨ht.trace ▸ hupheld.cons fun _ _ => trivial, fun _ => ht.unread⟩
  | refused r hret hcode ht =>
    exact hquiet ⟨ht.trace ▸ upheld_read hupheld r _ [], fun _ => ht.unread⟩
  | read r finals hret hcode hfinals ht => exact command_read hupheld hret hfinals ht

/-- `dtp_close` reads the final reply when it closes the socket. -/
lemma quiet_close {s : Client ω} (hs : FinalDue s) : Ends (dtpClose net) s fun _ t => Quiet t := by
  have hclosed (success : Bool) : Upheld Orderly Paired (mark (.dataClosed success) s).trace :=
    hs.upheld.cons fun _ _ => trivial
  by_cases hm : Steps Orderly s.trace
  swap
  · refine (dtpClose_onward s).mono fun _ t ht => ?_
    obtain ⟨success, ht⟩ := ht
    exact .of_failed (hclosed success) (fun h => hm h.2) ht.trace
  refine (dtpClose_outcome (hs.unread hm)).mono fun _ t ht => ?_
  have hread (f : Reply) : Upheld Orderly Paired (hasRead (.final s.sent) (f.lines (.final s.sent)) []
      (mark (.dataClosed true) s)).trace := (hclosed true).cons fun _ _ => paired_lines f _
  cases ht with
  | skipped ht =>
    refine ⟨ht.trace ▸ hclosed false, fun h => ?_⟩
    rw [ht.trace] at h
    exact absurd h.1 Bool.false_ne_true
  | lost ht => exact ⟨ht.trace ▸ hclosed true, fun _ => ht.unread⟩
  | refused f ht => exact ⟨ht.trace ▸ hread f, fun _ => ht.unread⟩
  | read f ht => exact ⟨ht.trace ▸ hread f, fun _ => ht.unread⟩

/-- The invariant of all commands, in any order. -/
theorem quiet_invariant (net : Network ω) : Invariant net (fun _ => True) Quiet FinalDue where
  plain _ := trivial
  alike hst hs := ⟨hst.trace ▸ hs.upheld, fun hm => hst.unread.trans (hs.unread (hst.trace ▸ hm))⟩
  alike_due hst hs :=
    ⟨hst.trace ▸ hs.upheld, fun hm => by
      rw [hst.unread, hst.sent]
      exact hs.unread (hst.trace ▸ hm)⟩
  due := Quiet.finalDue
  hangUp hs := ⟨hs.upheld, fun _ => rfl⟩
  command _ _ hs := quiet_command hs
  redial _ hs := ⟨hs.upheld, hs.unread⟩
  greet r _ hs := ⟨hs.upheld.cons fun _ _ => paired_lines r _, fun _ => rfl⟩
  login dir _ hs := hs.cons rfl rfl fun _ => trivial
  accepted hs := ⟨hs.upheld.cons fun _ _ => trivial, fun hm => hs.unread hm.2⟩
  refused hs := ⟨hs.upheld.cons fun _ _ => trivial, fun hm => absurd hm.1 Bool.false_ne_true⟩
  close := quiet_close

lemma quiet_maybeChdir (fn : Text) : ChdirRule net Quiet Quiet (fun _ => True) fn := by
  intro s hs
  have hlocated {t : Client ω} (ht : Quiet t) : Quiet (mark .located t) :=
    ht.cons rfl rfl fun _ => trivial
  simp only [maybeChdir, ends_bind, ends_get]
  rw [ends_ite]
  split_ifs
  · exact ⟨trivial, hlocated hs⟩
  · simp only [ends_bind, ends_updateSession, ends_pure]
    have hcwd : isTransfer (printInto 1024 (ascii "CWD " ++ (splitSlash fn).1)) = false :=
      isTransfer_printInto _ _ (by decide) (by decide) (by decide)
    refine ((quiet_invariant net).simple trivial hcwd hs).mono fun ret t ht => ?_
    have hcached (cwd : Text) : Quiet { t with sess := { t.sess with cwd } } :=
      ⟨ht.upheld, ht.unread⟩
    split_ifs
    · exact ⟨trivial, hlocated (hcached _)⟩
    · exact hcached _
  · exact ⟨trivial, hlocated hs⟩

lemma quiet_ftpPut (localfile remotefile : Text) (asc : Bool) {s : Client ω} (hs : Quiet s) :
    Ends (ftpPut net localfile remotefile asc) s fun _ t => Quiet t :=
  ftpPut_ends (quiet_invariant net) (quiet_invariant net) (fun _ _ => trivial)
    (quiet_maybeChdir remotefile) (fun fn _ => quiet_maybeChdir fn)
    (fun _ h => h.cons rfl rfl fun _ => trivial) (fun _ h => h.cons rfl rfl fun _ => trivial)
    (fun _ h => h.cons rfl rfl fun _ => trivial) localfile asc hs

/-- In every run, up to the first step that is not orderly, each command is sent when nothing
is unread and each reply is read for the command that it answers. -/
theorem replies_paired (net : Network ω) (ls : LsParser κ) (ops : List Op) (w : ω)
    (usePassive useCwd : Bool) (username password : Text) (piAddr : List InetAddr) :
    Upheld Orderly Paired
      ((runOps net ls ops).run
        { net := w, sess := startSession usePassive useCwd username password piAddr }).2.trace := by
  have hstart : Quiet { net := w, sess := startSession usePassive useCwd username password piAddr } :=
    ⟨upheld_nil, fun _ => rfl⟩
  exact ((quiet_invariant net).runOps ls (fun localfile remotefile asc _ hs =>
    quiet_ftpPut localfile remotefile asc hs) ops hstart).upheld

/-! ### A connection that is not accepted -/

/-- A server that obeys the protocol, seen from a client whose `accept` fails. -/
def unacceptedNetwork : Network Unit where
  feLogin _ _ := pure none
  connect _ := pure true
  greeting := pure (.checked 220 [] (Eq.refl true))
  loginDir := pure (ascii "/home")
  answer line := pure
    (if (ascii "USER").isPrefixOf line then .checked 230 [] (Eq.refl true)
    else if (ascii "STOR").isPrefixOf line then .checked 150 [] (Eq.refl true)
    else if (ascii "DELE").isPrefixOf line then .checked 550 [] (Eq.refl true)
    else .checked 200 [] (Eq.refl true))
  final := pure (.checked 250 [] (Eq.refl true))
  write := pure none
  readline := pure none
  mktime _ := 0
  dtpConnect _ _ := pure true
  listen := pure (some [127, 0, 0, 1, 4, 1])
  accept := pure false
  dtpWrite _ := pure none
  dtpRead := pure ([], .closed)
  dtpClose := pure true
  fopen _ := pure (some (ascii "data"))
  fstat := pure true
  ferror := pure none
  fseek := pure true
  fcreate _ := pure true
  fwrite := pure none
  fclose := pure true

/-- A parser for listings with nothing in them. -/
def emptyListing : LsParser Unit where
  init _ := ()
  parse _ _ := ((), .nothing)

def unacceptedRun : List FtpCode × Client Unit :=
  (runOps unacceptedNetwork emptyListing
    [.put (ascii "a") (ascii "a") false, .delete (ascii "b")]).run
    { net := (), sess := startSession false false (ascii "u") (ascii "p") [⟨.ipv4, [127, 0, 0, 1]⟩] }

/-- `DELE` is refused with 550 but reported as a success: it is judged by the final reply of
the upload before it. -/
theorem delete_misjudged :
    unacceptedRun.1 = [.error, .ok] ∧
      .answer (ascii "DELE b") 550 (ascii "/home") ∈ unacceptedRun.2.trace ∧
      ¬ Steps Paired unacceptedRun.2.trace := by
  decide +kernel

end Sitecopy.FtpPairing
