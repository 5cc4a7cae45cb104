import Sitecopy.ListingDrivers
import Sitecopy.RunTrace

/-!
# The sftp driver

The driver writes command lines to the sftp client and waits for its prompt. It tells
neither whether the client reported an error nor where a `>` that it reads comes from, so
its results and its place in the output are right as long as every command succeeds and
no output but the prompt holds a `>`.
-/
namespace Sitecopy.SftpDriver
open SiteModel SiteOperations Numerals StateProgram FtpSession LsParser RunTrace

/-! ### The client and the session -/

/-- The prompt of the client. -/
def prompt : Text := ascii "sftp> "

/-- What the client does with a command line. -/
structure Answer where
  output : Text
  /-- it has executed the command, and the output holds no error message -/
  success : Bool
  /-- it exits after the output instead of prompting again -/
  exits : Bool := false
  deriving DecidableEq, Repr

/-- The client process and the pipes to it. -/
structure SftpClient (ω : Type) where
  /-- what the client says before its first prompt -/
  banner : StateM ω Text
  answer : Text → StateM ω Answer
  /-- whether `write` succeeds -/
  write : StateM ω Bool
  /-- whether `read` succeeds -/
  read : StateM ω Bool
  /-- how many bytes are there for a `read` -/
  available : StateM ω ℕ

inductive Event
  /-- the client is started -/
  | started (banner : Text)
  /-- a command is sent, and what is still unread -/
  | sent (cmd unread : Text)
  /-- the client has executed a command line -/
  | executed (line : Text) (answer : Answer)
  | readError
  /-- `read` never returns -/
  | hung
  /-- the operation that sends this command returns -/
  | returned (cmd : Text) (ret : ℤ)
  deriving DecidableEq, Repr

/-- `sftp_session`, and what is under way from the client; the trace has the newest event
first. -/
structure Session (ω : Type) where
  client : ω
  connected : Bool := false
  exited : Bool := false
  unread : Text := []
  trace : List Event := []

abbrev Sftp (ω : Type) := StateM (Session ω)

variable {ω : Type} (cl : SftpClient ω)

def outside {α : Type} (m : StateM ω α) : Sftp ω α := fun s =>
  let r := m.run s.client
  (r.1, { s with client := r.2 })

def record (e : Event) : Sftp ω PUnit := modify fun s => { s with trace := e :: s.trace }

/-- `strchr(sess->buf, '>') != NULL`. -/
def hasPrompt (buf : Text) : Bool := (buf.takeWhile (· ≠ 0)).contains 62

/-- The loop of `read_sftp` after `buf` has been read, with a bound on its turns, each of
which reads at least one byte. The result is `none` when it does not return. -/
def readLoop : ℕ → Text → Sftp ω (Option ℤ)
  | 0, _ => pure (some SITE_OK)
  | n + 1, buf => do
    if !(← outside cl.read) then do
      record .readError
      pure (some SITE_FAILED)
    else do
      let s ← get
      if s.unread = [] then
        if s.exited then pure (some SITE_OK)
        else do
          record .hung
          pure none
      else do
        let k ← outside cl.available
        let size := min (max 1 k) (bufsiz - buf.length)
        let buf := buf ++ s.unread.take size
        modify fun s => { s with unread := s.unread.drop size }
        if hasPrompt buf || bufsiz ≤ buf.length then pure (some SITE_OK) else readLoop n buf

/-- `read_sftp`. -/
def readSftp : Sftp ω (Option ℤ) := readLoop cl bufsiz []

/-- `sftp_connect`, when the client can be started. -/
def sftpConnect : Sftp ω (Option ℤ) := do
  let banner ← outside cl.banner
  modify fun s => { s with connected := true, unread := s.unread ++ banner ++ prompt }
  record (.started banner)
  let ret ← readSftp cl
  pure (ret.map fun _ => SITE_OK)

/-- The client gets a command line. -/
def executeLine (line : Text) : Sftp ω PUnit := do
  let s ← get
  if s.exited then pure ⟨⟩
  else do
    let a ← outside (cl.answer line)
    modify fun s => { s with
      exited := a.exits, unread := s.unread ++ a.output ++ (if a.exits then [] else prompt) }
    record (.executed line a)

def executeLines : List Text → Sftp ω PUnit
  | [] => pure ⟨⟩
  | line :: rest => do
    executeLine cl line
    executeLines rest

/-- `run_sftp` with the client connected: the command goes into `buf`, out, and the answer is
waited for. -/
def exchange (cmd : Text) : Sftp ω (Option ℤ) := do
  let buf := printInto bufsiz cmd
  if bufsiz ≤ buf.length + 2 then pure (some SITE_FAILED)
  else do
    let s ← get
    record (.sent buf s.unread)
    if !(← outside cl.write) then pure (some SITE_FAILED)
    else do
      executeLines cl (buf.splitOn 10)
      let ret ← readSftp cl
      pure (ret.map fun _ => SITE_OK)

/-- `run_sftp`. -/
def runSftp (cmd : Text) : Sftp ω (Option ℤ) := do
  let s ← get
  let ready ← if s.connected then pure (some SITE_OK) else sftpConnect cl
  if ready = none then pure none else exchange cl cmd

/-! ### Operations -/

/-- The operations that send a command to the client. -/
inductive Op
  | fileMove (src dst : Text)
  | fileUpload (localname remote : Text)
  | fileDownload (localname remote : Text)
  | fileDelete (filename : Text)
  | fileChmod (fname : Text) (mode : UInt32)
  | dirCreate (dirname : Text)
  | dirRemove (dirname : Text)
  deriving DecidableEq, Repr

def Op.command : Op → Text
  | .fileMove src dst => ascii "rename " ++ src ++ [blank] ++ dst
  | .fileUpload localname remote => ascii "put " ++ localname ++ [blank] ++ remote
  | .fileDownload localname remote => ascii "get " ++ remote ++ [blank] ++ localname
  | .fileDelete filename => ascii "rm " ++ filename
  | .fileChmod fname mode => ascii "chmod " ++ padZeros 3 (printNat 8 mode.toNat) ++ [blank] ++ fname
  | .dirCreate dirname => ascii "mkdir " ++ dirname
  | .dirRemove dirname => ascii "rmdir " ++ dirname

/-- The file names that an operation is given. -/
def Op.names : Op → List Text
  | .fileMove src dst => [src, dst]
  | .fileUpload localname remote | .fileDownload localname remote => [localname, remote]
  | .fileDelete name | .fileChmod name _ | .dirCreate name | .dirRemove name => [name]

def runOp (op : Op) : Sftp ω (Option ℤ) := do
  let ret ← runSftp cl op.command
  match ret with
  | none => pure none
  | some code => do
    record (.returned op.command code)
    pure (some code)

/-- Run the operations in order, as long as they return. -/
def runOps : List Op → Sftp ω (List ℤ)
  | [] => pure []
  | op :: rest => do
    match ← runOp cl op with
    | none => pure []
    | some code => do
      let more ← runOps rest
      pure (code :: more)

/-! ### The steps of a run -/

/-- The client has executed the command since the last operation returned, with success. -/
def succeeded (cmd : Text) : List Event → Bool
  | [] => false
  | .returned .. :: _ => false
  | .executed line a :: tr => line = cmd && a.success || succeeded cmd tr
  | _ :: tr => succeeded cmd tr

/-- An operation returns `SITE_OK` if and only if the client executed its command, and at the
next command all output and the prompt up to its `>` have been read. -/
def Faithful (tr : List Event) : Event → Prop
  | .returned cmd ret => ret = SITE_OK ↔ succeeded cmd tr = true
  | .sent _ unread => unread <:+ [blank]
  | .hung => False
  | _ => True

/-- Output in which only the prompt ends a `read_sftp`. -/
def Clean (output : Text) : Prop := 62 ∉ output ∧ 0 ∉ output ∧ output.length + 8 ≤ bufsiz

/-- The client executes the command successfully and prompts again. -/
def Smooth (_ : List Event) : Event → Prop
  | .started banner => Clean banner
  | .executed _ a => a.success = true ∧ a.exits = false ∧ Clean a.output
  | .readError => False
  | _ => True

instance (output : Text) : Decidable (Clean output) :=
  inferInstanceAs (Decidable (62 ∉ output ∧ 0 ∉ output ∧ output.length + 8 ≤ bufsiz))

instance (tr : List Event) : (e : Event) → Decidable (Faithful tr e)
  | .returned cmd ret => inferInstanceAs (Decidable (ret = SITE_OK ↔ succeeded cmd tr = true))
  | .sent _ unread => inferInstanceAs (Decidable (unread <:+ [blank]))
  | .hung => .isFalse id
  | .started _ | .executed _ _ | .readError => .isTrue trivial

instance (tr : List Event) : (e : Event) → Decidable (Smooth tr e)
  | .started banner => inferInstanceAs (Decidable (Clean banner))
  | .executed _ a =>
    inferInstanceAs (Decidable (a.success = true ∧ a.exits = false ∧ Clean a.output))
  | .readError => .isFalse id
  | .sent _ _ | .hung | .returned _ _ => .isTrue trivial

/-! ### Reading up to the prompt -/

section Primitives
variable {α : Type} (s : Session ω)

@[simp] theorem ends_outside (m : StateM ω α) (Q : α → Session ω → Prop) :
    Ends (outside m) s Q ↔ Ends m s.client fun a w => Q a { s with client := w } := Iff.rfl

@[simp] theorem ends_record (e : Event) (Q : PUnit → Session ω → Prop) :
    Ends (record e) s Q ↔ Q ⟨⟩ { s with trace := e :: s.trace } := Iff.rfl

end Primitives

variable {cl}

/-- What `read_sftp` puts on record. -/
lemma readLoop_trace (n : ℕ) (buf : Text) (s : Session ω) :
    Ends (readLoop cl n buf) s fun _ t =>
      t.trace = s.trace ∨ t.trace = .readError :: s.trace ∨ t.trace = .hung :: s.trace := by
  induction n generalizing buf s with
  | zero => exact .inl rfl
  | succ n ih =>
    simp only [readLoop, ends_bind, ends_outside, ends_get, ends_modify, ends_record, ends_ite,
      ends_pure]
    refine Ends.of_forall fun success w => ?_
    split_ifs
    · exact .inr (.inl trivial)
    · exact .inl trivial
    · exact .inr (.inr trivial)
    · refine Ends.of_forall fun k w => ?_
      split_ifs
      · exact .inl trivial
      · exact ih _ _

/-- The bytes that are to come end with the prompt, and hold no other `>`. -/
structure Awaited (body : Text) : Prop where
  no_prompt : 62 ∉ body
  no_nul : 0 ∉ body
  fits : body.length + 2 < bufsiz

lemma hasPrompt_append {buf rest body : Text} (h : buf ++ rest = body ++ [62, 32])
    (hbody : Awaited body) : hasPrompt buf = true ↔ body.length < buf.length := by
  have hstarts : buf <+: body ++ [62, 32] := ⟨rest, h⟩
  have hnul : 0 ∉ buf := by
    intro hmem
    have hmem := hstarts.subset hmem
    simp [hbody.no_nul] at hmem
  have htake : buf.takeWhile (· ≠ 0) = buf := by
    rw [List.takeWhile_eq_self_iff]
    intro b hb
    simpa using fun h0 : b = 0 => hnul (h0 ▸ hb)
  rw [hasPrompt, htake, List.contains_iff_mem]
  constructor
  · intro hmem
    by_contra hle
    have hsub : buf <+: body := List.prefix_of_prefix_length_le hstarts (List.prefix_append _ _)
      (not_lt.mp hle)
    exact hbody.no_prompt (hsub.subset hmem)
  · intro hlt
    have hsub : body ++ [62] <+: buf := by
      have hbody : body ++ [62] <+: body ++ [62, 32] := ⟨[32], by simp⟩
      exact List.prefix_of_prefix_length_le hbody hstarts (by simpa using hlt)
    exact hsub.subset (by simp)

/-- Reading stops in the prompt however the output is delivered. -/
lemma readLoop_prompt {body : Text} (hbody : Awaited body) :
    ∀ (n : ℕ) (buf : Text) (s : Session ω), buf ++ s.unread = body ++ [62, 32] →
      buf.length ≤ body.length → bufsiz ≤ n + buf.length →
      Ends (readLoop cl n buf) s fun ret t => ret ≠ none ∧ t.exited = s.exited ∧
        (t.trace = .readError :: s.trace ∨
          t.trace = s.trace ∧ (t.unread = [] ∨ t.unread = [32])) := by
  intro n
  induction n with
  | zero =>
    intro buf s _ hle hn
    have := hbody.fits
    omega
  | succ n ih =>
    intro buf s hstream hle hn
    have hfits := hbody.fits
    have hlen := congrArg List.length hstream
    simp only [List.length_append, List.length_cons, List.length_nil] at hlen
    have hunread : s.unread ≠ [] := by
      intro h
      rw [h, List.length_nil] at hlen
      omega
    simp only [readLoop, ends_bind, ends_outside, ends_get, ends_modify, ends_record, ends_ite,
      ends_pure, if_neg hunread]
    refine Ends.of_forall fun success w => ?_
    split_ifs
    · exact ⟨by rintro ⟨⟩, trivial, .inl trivial⟩
    refine Ends.of_forall fun k w => ?_
    generalize hsize : min (max 1 k) (bufsiz - buf.length) = size
    have hpos : 1 ≤ size := by omega
    have hstream' : (buf ++ s.unread.take size) ++ s.unread.drop size = body ++ [62, 32] := by
      rw [List.append_assoc, List.take_append_drop, hstream]
    have hprompt := hasPrompt_append hstream' hbody
    have hlen' := congrArg List.length hstream'
    simp only [List.length_append, List.length_cons, List.length_nil] at hlen'
    have htake : 1 ≤ (s.unread.take size).length := by
      have := List.length_pos_iff.mpr hunread
      rw [List.length_take]
      omega
    by_cases hdone : body.length < (buf ++ s.unread.take size).length
    · rw [if_pos (by rw [hprompt.mpr hdone]; rfl)]
      rw [List.length_append] at hdone
      have hrest : s.unread.drop size <:+ [62, 32] := by
        have hend : s.unread.drop size <:+ body ++ [62, 32] := ⟨_, hstream'⟩
        apply List.suffix_of_suffix_length_le hend (List.suffix_append _ _)
        simp only [List.length_cons, List.length_nil]
        omega
      refine ⟨by rintro ⟨⟩, trivial, .inr ⟨trivial, ?_⟩⟩
      have hshort : (s.unread.drop size).length ≤ 1 := by omega
      rcases List.suffix_cons_iff.mp hrest with h | h
      · rw [h] at hshort
        exact absurd hshort (by decide)
      · rcases List.suffix_cons_iff.mp h with h | h
        · exact .inr h
        · exact .inl (List.suffix_nil.mp h)
    · have hno : hasPrompt (buf ++ s.unread.take size) = false := by
        rw [Bool.eq_false_iff]
        exact fun h => hdone (hprompt.mp h)
      rw [not_lt] at hdone
      rw [hno, if_neg]
      · refine (ih (buf ++ s.unread.take size) _ hstream' hdone ?_).mono fun _ _ h => h
        rw [List.length_append]
        omega
      · simp only [Bool.false_or, decide_eq_true_eq, not_le]
        omega

/-! ### Between commands -/

/-- Everything up to the prompt has been read, as long as all went smoothly. -/
structure Idle (s : Session ω) : Prop where
  upheld : Upheld Smooth Faithful s.trace
  read : Steps Smooth s.trace → s.exited = false ∧ (s.unread = [] ∨ s.unread = [32])
  fresh : ∀ cmd, succeeded cmd s.trace = false

/-- The client has spoken, and prompts at the end. -/
structure Waiting (s : Session ω) : Prop where
  upheld : Upheld Smooth Faithful s.trace
  awaited : Steps Smooth s.trace →
    s.exited = false ∧ ∃ body, Awaited body ∧ s.unread = body ++ [62, 32]

/-- How `read_sftp` ends. -/
structure Received (s : Session ω) (ret : Option ℤ) (t : Session ω) : Prop where
  upheld : Upheld Smooth Faithful t.trace
  returns : Steps Smooth t.trace → ret ≠ none
  read : Steps Smooth t.trace → t.exited = false ∧ (t.unread = [] ∨ t.unread = [32])
  smooth : Steps Smooth t.trace → Steps Smooth s.trace
  succeeded : ∀ cmd, succeeded cmd t.trace = succeeded cmd s.trace

lemma readSftp_received {s : Session ω} (hs : Waiting s) :
    Ends (readSftp cl) s fun ret t => Received s ret t := by
  by_cases hm : Steps Smooth s.trace
  · obtain ⟨hexited, body, hbody, hunread⟩ := hs.awaited hm
    refine (readLoop_prompt hbody bufsiz [] s hunread (Nat.zero_le _) (by simp)).mono
      fun ret t ht => ?_
    obtain ⟨hret, hexit, htrace | ⟨htrace, hleft⟩⟩ := ht
    · have hno : ¬ Steps Smooth t.trace := by
        rw [htrace]
        exact fun h => h.1
      refine ⟨?_, fun h => absurd h hno, fun h => absurd h hno, fun h => absurd h hno, ?_⟩
      · rw [htrace]
        exact hs.upheld.cons fun _ _ => trivial
      · intro cmd
        rw [htrace]
        rfl
    · refine ⟨htrace ▸ hs.upheld, fun _ => hret, fun _ => ⟨hexit.trans hexited, hleft⟩,
        fun _ => hm, fun cmd => by rw [htrace]⟩
  · refine (readLoop_trace bufsiz [] s).mono fun ret t ht => ?_
    have hgrows : s.trace <:+ t.trace := by
      rcases ht with h | h | h <;> rw [h]
      · exact List.suffix_cons _ _
      · exact List.suffix_cons _ _
    obtain ⟨hupheld, hfailed⟩ := hs.upheld.of_failed hm hgrows
    refine ⟨hupheld, fun h => absurd h hfailed, fun h => absurd h hfailed,
      fun h => absurd h hfailed, fun cmd => ?_⟩
    rcases ht with h | h | h <;> rw [h] <;> rfl

lemma awaited_output {left output : Text} (hleft : left = [] ∨ left = [32]) (h : Clean output) :
    ∃ body, Awaited body ∧ left ++ output ++ prompt = body ++ [62, 32] := by
  have hprompt : prompt = ascii "sftp" ++ [62, 32] := by decide
  have hname : (ascii "sftp").length = 4 ∧ 62 ∉ ascii "sftp" ∧ 0 ∉ ascii "sftp" := by decide
  have hleft' : left.length ≤ 1 ∧ 62 ∉ left ∧ 0 ∉ left := by rcases hleft with rfl | rfl <;> decide
  obtain ⟨hno, hnul, hlen⟩ := h
  refine ⟨left ++ output ++ ascii "sftp", ⟨?_, ?_, ?_⟩, by rw [hprompt]; simp⟩
  · simp [hleft'.2.1, hno, hname.2.1]
  · simp [hleft'.2.2, hnul, hname.2.2]
  · simp only [List.length_append, hname.1]
    omega

lemma sftpConnect_received {s : Session ω} (hs : Idle s) :
    Ends (sftpConnect cl) s fun ret t => Upheld Smooth Faithful t.trace ∧
      (Steps Smooth t.trace → ret ≠ none) ∧ Idle t := by
  simp only [sftpConnect, ends_bind, ends_outside, ends_modify, ends_record, ends_pure]
  refine Ends.of_forall fun banner w => ?_
  have hwaiting : Waiting (ω := ω) ⟨w, true, s.exited, s.unread ++ banner ++ prompt,
      .started banner :: s.trace⟩ := by
    refine ⟨hs.upheld.cons fun _ _ => trivial, fun hm => ?_⟩
    obtain ⟨hexited, hleft⟩ := hs.read hm.2
    exact ⟨hexited, awaited_output hleft hm.1⟩
  refine (readSftp_received hwaiting).mono fun ret t ht => ?_
  refine ⟨ht.upheld, fun hm => ?_, ht.upheld, ht.read, fun cmd => ?_⟩
  · simpa using ht.returns hm
  · exact (ht.succeeded cmd).trans (hs.fresh cmd)

/-- What a command leaves behind. -/
structure Ran (cmd : Text) (ret : Option ℤ) (t : Session ω) : Prop where
  upheld : Upheld Smooth Faithful t.trace
  returns : Steps Smooth t.trace → ret ≠ none
  read : Steps Smooth t.trace → t.exited = false ∧ (t.unread = [] ∨ t.unread = [32])
  told : Steps Smooth t.trace → ∀ code ∈ ret, (code = SITE_OK ↔ succeeded cmd t.trace = true)

/-- Nothing is executed, and the operation says so. -/
lemma Idle.ran_failed {s : Session ω} (hs : Idle s) (cmd : Text) :
    Ran cmd (some SITE_FAILED) s where
  upheld := hs.upheld
  returns _ := nofun
  read := hs.read
  told _ code hcode := by
    obtain rfl := Option.mem_some.mp hcode
    rw [hs.fresh cmd]
    decide

lemma Idle.sent {s : Session ω} (hs : Idle s) (cmd : Text) :
    Idle { s with trace := .sent cmd s.unread :: s.trace } where
  upheld := by
    refine hs.upheld.cons fun hm _ => ?_
    rcases (hs.read hm).2 with hleft | hleft
    · rw [hleft]
      exact List.nil_suffix
    · rw [hleft]
      exact List.suffix_refl _
  read hm := hs.read hm.2
  fresh := hs.fresh

/-- The client gets one command line, and reading goes on up to its prompt. -/
lemma executeLine_waiting {cmd : Text} {s : Session ω} (hs : Idle s) :
    Ends (executeLine cl cmd) s fun _ t =>
      Waiting t ∧ (Steps Smooth t.trace → succeeded cmd t.trace = true) := by
  simp only [executeLine, ends_bind, ends_get, ends_ite, ends_outside, ends_modify, ends_record,
    ends_pure]
  split_ifs with hexited
  · have hno : ¬ Steps Smooth s.trace := by
      intro hm
      rw [(hs.read hm).1] at hexited
      exact absurd hexited (by decide)
    exact ⟨⟨hs.upheld, fun hm => absurd hm hno⟩, fun hm => absurd hm hno⟩
  · refine Ends.of_forall fun a w => ?_
    refine ⟨⟨hs.upheld.cons fun _ _ => trivial, fun hm => ?_⟩, fun hm => ?_⟩
    · obtain ⟨-, hexits, hclean⟩ := hm.1
      refine ⟨hexits, ?_⟩
      rw [if_neg (by rw [hexits]; decide)]
      exact awaited_output (hs.read hm.2).2 hclean
    · simp [succeeded, hm.1.1]

lemma printInto_fits {cmd : Text} (h : ¬ bufsiz ≤ (printInto bufsiz cmd).length + 2) :
    printInto bufsiz cmd = cmd := by
  rw [printInto, List.length_take] at h
  rw [printInto, List.take_of_length_le]
  omega

/-- A command line is sent, executed and answered. -/
lemma exchange_ran {cmd : Text} (hcmd : 10 ∉ cmd) {s : Session ω} (hs : Idle s) :
    Ends (exchange cl cmd) s fun ret t => Ran cmd ret t := by
  simp only [exchange, ends_bind, ends_get, ends_ite, ends_outside, ends_record, ends_pure]
  split_ifs with hlong
  · exact hs.ran_failed cmd
  · rw [printInto_fits hlong, List.splitOn_eq_singleton hcmd]
    refine Ends.of_forall fun success w => ?_
    have hsent : Idle (ω := ω) ⟨w, s.connected, s.exited, s.unread,
        .sent cmd s.unread :: s.trace⟩ := ⟨(hs.sent cmd).upheld, (hs.sent cmd).read, hs.fresh⟩
    split_ifs
    · exact hsent.ran_failed cmd
    · simp only [executeLines, ends_bind, ends_pure]
      refine (executeLine_waiting hsent).mono fun _ u hu => ?_
      refine (readSftp_received hu.1).mono fun ret t ht => ?_
      refine ⟨ht.upheld, fun hm => by simpa using ht.returns hm, ht.read, fun hm code hcode => ?_⟩
      obtain ⟨-, -, rfl⟩ := Option.map_eq_some_iff.mp hcode
      rw [ht.succeeded cmd, hu.2 (ht.smooth hm)]
      decide

lemma runSftp_ran {cmd : Text} (hcmd : 10 ∉ cmd) {s : Session ω} (hs : Idle s) :
    Ends (runSftp cl cmd) s fun ret t => Ran cmd ret t := by
  simp only [runSftp, ends_bind, ends_get]
  by_cases hconnected : s.connected = true
  · simp only [if_pos hconnected]
    exact exchange_ran hcmd hs
  · simp only [if_neg hconnected, ends_bind]
    refine (sftpConnect_received hs).mono fun ret t ht => ?_
    obtain ⟨hupheld, hreturns, hidle⟩ := ht
    by_cases hready : ret = none
    · rw [if_pos hready]
      have hno : ¬ Steps Smooth t.trace := fun hm => hreturns hm hready
      exact ⟨hupheld, fun hm => absurd hm hno, fun hm => absurd hm hno, fun hm => absurd hm hno⟩
    · rw [if_neg hready]
      exact exchange_ran hcmd hidle

/-! ### Runs -/

lemma newline_notMem_command {op : Op} (hnames : ∀ name ∈ op.names, 10 ∉ name) :
    10 ∉ op.command := by
  have hverbs : ∀ v ∈ ["rename ", "put ", "get ", "rm ", "chmod ", "mkdir ", "rmdir "],
      10 ∉ ascii v := by decide
  have hdigits (n : ℕ) : 10 ∉ padZeros 3 (printNat 8 n) := by
    intro hmem
    rw [padZeros, List.mem_append, List.mem_replicate] at hmem
    rcases hmem with ⟨-, h⟩ | hdigit
    · exact absurd h (by decide)
    · exact absurd (printNat_digits (by decide) (by decide) n 10 hdigit) (by decide)
  cases op <;>
    simp only [Op.names, List.mem_cons, List.not_mem_nil, or_false, forall_eq_or_imp,
      forall_eq] at hnames <;>
    simp [Op.command, hnames, hverbs, hdigits, blank]

lemma runOp_idle {op : Op} (hnames : ∀ name ∈ op.names, 10 ∉ name) {s : Session ω} (hs : Idle s) :
    Ends (runOp cl op) s fun ret t => Upheld Smooth Faithful t.trace ∧ (ret ≠ none → Idle t) := by
  simp only [runOp, ends_bind]
  refine (runSftp_ran (newline_notMem_command hnames) hs).mono fun ret t ht => ?_
  cases ret with
  | none => exact ⟨ht.upheld, fun h => absurd rfl h⟩
  | some code =>
    simp only [ends_bind, ends_record, ends_pure]
    have hupheld : Upheld Smooth Faithful (.returned op.command code :: t.trace) :=
      ht.upheld.cons fun hm _ => ht.told hm code rfl
    exact ⟨hupheld, fun _ => ⟨hupheld, fun hm => ht.read hm.2, fun _ => rfl⟩⟩

lemma runOps_upheld {ops : List Op} (hnames : ∀ op ∈ ops, ∀ name ∈ op.names, 10 ∉ name)
    {s : Session ω} (hs : Idle s) :
    Ends (runOps cl ops) s fun _ t => Upheld Smooth Faithful t.trace := by
  induction ops generalizing s with
  | nil => exact hs.upheld
  | cons op rest ih =>
    simp only [runOps, ends_bind]
    refine (runOp_idle (hnames op List.mem_cons_self) hs).mono fun ret t ht => ?_
    cases ret with
    | none => exact ht.1
    | some code =>
      simp only [ends_bind, ends_pure]
      exact ih (fun op hop => hnames op (List.mem_cons_of_mem _ hop)) (ht.2 (by rintro ⟨⟩))

/-- In a run of operations whose names hold no newline, as long as the client succeeds, prompts
and says nothing that could be taken for the prompt, results and reading are faithful. -/
theorem runs_faithful (cl : SftpClient ω) (ops : List Op) (w : ω)
    (hnames : ∀ op ∈ ops, ∀ name ∈ op.names, 10 ∉ name) :
    Upheld Smooth Faithful ((runOps cl ops).run { client := w }).2.trace :=
  runOps_upheld hnames ⟨upheld_nil, fun _ => ⟨rfl, .inl rfl⟩, fun _ => rfl⟩

/-- A client that executes `put a /a` only, prompts after every command, and hands out
`available` bytes at a time. -/
def oneUpload (available : ℕ) (said : Text) : SftpClient PUnit where
  banner := pure []
  answer line := pure (if line = ascii "put a /a" then ⟨said, true, false⟩
    else ⟨ascii "Permission denied", false, false⟩)
  write := pure true
  read := pure true
  available := pure available

/-- One upload, read byte by byte. -/
theorem runs_faithful_upload : (∀ op ∈ [Op.fileUpload (ascii "a") (ascii "/a")],
      ∀ name ∈ op.names, 10 ∉ name) ∧
    Upheld Smooth Faithful ((runOps (oneUpload 1 [])
      [.fileUpload (ascii "a") (ascii "/a")]).run { client := ⟨⟩ }).2.trace := by
  have hnames : ∀ op ∈ [Op.fileUpload (ascii "a") (ascii "/a")], ∀ name ∈ op.names, 10 ∉ name := by
    decide
  exact ⟨hnames, runs_faithful (oneUpload 1 []) _ ⟨⟩ hnames⟩

/-- A refused upload returns `SITE_OK`, and a `>` in what the client says leaves the rest of
that unread at the next command. -/
theorem refused_returns_ok :
    (.returned (ascii "put b /b") SITE_OK ∈ ((runOps (oneUpload 80 [])
        [.fileUpload (ascii "b") (ascii "/b")]).run { client := ⟨⟩ }).2.trace ∧
      ¬ Steps Faithful ((runOps (oneUpload 80 [])
        [.fileUpload (ascii "b") (ascii "/b")]).run { client := ⟨⟩ }).2.trace) ∧
    ¬ Steps Faithful ((runOps (oneUpload 1 (ascii "a -> /a"))
      [.fileUpload (ascii "a") (ascii "/a"), .fileUpload (ascii "a") (ascii "/a")]).run
        { client := ⟨⟩ }).2.trace := by
  decide +kernel

end Sitecopy.SftpDriver
