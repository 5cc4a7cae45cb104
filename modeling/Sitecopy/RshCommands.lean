import Sitecopy.ListingDrivers
import Sitecopy.ShellWords

/-!
# The commands of the rsh driver

The driver puts names between single quotes. That is for the shell behind `system` and
`popen`; the remote shell gets the words without the quotes. A name therefore arrives only
if it needs no quotes.
-/
namespace Sitecopy.RshCommands
open SiteModel SiteOperations Numerals FtpSession LsParser ListingDrivers ShellWords

/-! ### The driver -/

/-- The shells on both sides, and what `system` and `pclose` tell of them. -/
structure Machine where
  /-- whether a shell can be started for the command -/
  starts : Text → Bool
  here : Shell
  there : Shell
  /-- the exit status, which need not be that of the remote shell -/
  status : Text → ℤ
  refused : ∀ t, here.run t = .refused → status t ≠ 0

/-- What a function of the driver returns, and the text that it gave to a shell. -/
structure Done where
  ret : ℤ
  cmd : Text

inductive Rcommand
  | rsh
  | rshPipeRead
  deriving DecidableEq, Repr

section Driver
variable (m : Machine) (sess : ShellSession)

def system (cmd : Text) : ℤ := if m.starts cmd then m.status cmd else -1

def runRcmd (rcmd : Rcommand) (command : Text) : Done :=
  let cmd := rshCommand sess command
  match rcmd with
  | .rshPipeRead => { ret := if m.starts cmd then SITE_OK else SITE_FAILED, cmd }
  | .rsh => { ret := if system m cmd = 0 then SITE_OK else SITE_FAILED, cmd }

def fileMove (src dst : Text) : Done :=
  runRcmd m sess .rsh (ascii "mv '" ++ src ++ ascii "' '" ++ dst ++ ascii "'")

def fileRead (remote : Text) : Done :=
  let r := runRcmd m sess .rshPipeRead (ascii "cat '" ++ remote ++ ascii "'")
  if r.ret ≠ SITE_OK then { r with ret := SITE_FAILED }
  else { r with ret := runFinish (m.status r.cmd) }

def fileDelete (filename : Text) : Done :=
  runRcmd m sess .rsh (ascii "rm '" ++ filename ++ ascii "'")

/-- `%03o`. -/
def octalMode (mode : UInt32) : Text := padZeros 3 (printNat 8 mode.toNat)

def fileChmod (fname : Text) (mode : UInt32) : Done :=
  runRcmd m sess .rsh (ascii "chmod " ++ octalMode mode ++ ascii " '" ++ fname ++ ascii "'")

def dirCreate (dirname : Text) : Done :=
  runRcmd m sess .rsh (ascii "mkdir '" ++ dirname ++ ascii "'")

def dirRemove (dirname : Text) : Done :=
  runRcmd m sess .rsh (ascii "rmdir '" ++ dirname ++ ascii "'")

/-- `fetch_list`, which returns what `rsh_fetch` does. -/
def fetchList (dirname : Text) : Done :=
  let r := runRcmd m sess .rshPipeRead (lsCommand dirname)
  if r.ret = SITE_OK then { r with ret := runFinish (m.status r.cmd) } else r

end Driver

/-- The operations that take names. -/
inductive Operation
  | fileMove (src dst : Text)
  | fileRead (remote : Text)
  | fileDelete (filename : Text)
  | fileChmod (fname : Text) (mode : UInt32)
  | dirCreate (dirname : Text)
  | dirRemove (dirname : Text)
  | fetchList (dirname : Text)
  deriving DecidableEq, Repr

namespace Operation

def perform (m : Machine) (sess : ShellSession) : Operation → Done
  | .fileMove src dst => RshCommands.fileMove m sess src dst
  | .fileRead remote => RshCommands.fileRead m sess remote
  | .fileDelete filename => RshCommands.fileDelete m sess filename
  | .fileChmod fname mode => RshCommands.fileChmod m sess fname mode
  | .dirCreate dirname => RshCommands.dirCreate m sess dirname
  | .dirRemove dirname => RshCommands.dirRemove m sess dirname
  | .fetchList dirname => RshCommands.fetchList m sess dirname

/-- The words in front of the names. -/
def head : Operation → List Text
  | .fileMove _ _ => [ascii "mv"]
  | .fileRead _ => [ascii "cat"]
  | .fileDelete _ => [ascii "rm"]
  | .fileChmod _ mode => [ascii "chmod", octalMode mode]
  | .dirCreate _ => [ascii "mkdir"]
  | .dirRemove _ => [ascii "rmdir"]
  | .fetchList _ => [ascii "ls", ascii "-la"]

def names : Operation → List Text
  | .fileMove src dst => [src, dst]
  | .fileRead n | .fileDelete n | .fileChmod n _ | .dirCreate n | .dirRemove n | .fetchList n => [n]

/-- The command that the remote side is to run. -/
def words (op : Operation) : List Text := op.head ++ op.names

end Operation

/-- The names, each between single quotes. -/
def quotedNames (names : List Text) : Text := names.flatMap fun n => 32 :: 39 :: n ++ [39]

/-- The command with its names filled in. -/
def Operation.template (op : Operation) : Text := unwords op.head ++ quotedNames op.names

/-! ### What arrives -/

/-- The call of rsh without the command. -/
def rshCall (sess : ShellSession) : Text :=
  match sess.username with
  | some username => sess.cmd ++ ascii " -l " ++ username ++ ascii "  2>/dev/null " ++ sess.hostname
  | none => sess.cmd ++ ascii " 2>/dev/null " ++ sess.hostname

/-- The local shell calls rsh with words that the remote shell, when they are joined again,
reads as the command `words`, and no shell runs anything else. -/
def Delivered (m : Machine) (call : Command) (cmd : Text) (words : List Text) : Prop :=
  m.starts cmd = true ∧ ∃ rest,
    m.here.run cmd = .commands [{ call with words := call.words ++ rest }] ∧
      m.there.run (unwords rest) = .commands [{ words }]

/-- The function returns an error, and nothing was run. -/
def Refused (m : Machine) (done : Done) : Prop :=
  done.ret ≠ SITE_OK ∧ (m.starts done.cmd = false ∨ m.here.run done.cmd = .refused)

/-- The remote side runs the command as it was meant, or the function fails before that. -/
def Intact (m : Machine) (sess : ShellSession) (call : Command) (op : Operation) : Prop :=
  Delivered m call (op.perform m sess).cmd op.words ∨ Refused m (op.perform m sess)

/-- The command fits into the buffer and its names need no quotes. -/
def Safe (op : Operation) : Prop :=
  op.template.length < bufsiz ∧ ∀ n ∈ op.names, Literal n

/-- The names, cut off where the buffer ends, leave a quotation without end. -/
def Unclosed (op : Operation) : Prop :=
  readArguments (op.template.take (bufsiz - 1)) = .unclosed

/-! ### The texts for the local shell -/

lemma rshCommand_eq (sess : ShellSession) (command : Text) :
    rshCommand sess command = rshCall sess ++ 32 :: command.take (bufsiz - 1) := by
  unfold rshCommand rshCall
  cases sess.username <;> simp [printInto, blank]

lemma runRcmd_cmd (m : Machine) (sess : ShellSession) (rcmd : Rcommand) (command : Text) :
    (runRcmd m sess rcmd command).cmd = rshCommand sess command := by
  cases rcmd <;> rfl

lemma perform_cmd (m : Machine) (sess : ShellSession) (op : Operation) :
    (op.perform m sess).cmd = rshCall sess ++ 32 :: op.template.take (bufsiz - 1) := by
  have hfill : ∀ command : Text, command = op.template →
      rshCommand sess command = rshCall sess ++ 32 :: op.template.take (bufsiz - 1) := by
    rintro command rfl
    exact rshCommand_eq sess op.template
  cases op with
  | fileRead n =>
    simp only [Operation.perform, fileRead, apply_ite Done.cmd, ite_self, runRcmd_cmd]
    apply hfill
    simp [Operation.template, Operation.head, Operation.names, quotedNames, ascii]
  | fetchList n =>
    simp only [Operation.perform, fetchList, apply_ite Done.cmd, ite_self, runRcmd_cmd]
    apply hfill
    simp [Operation.template, Operation.head, Operation.names, quotedNames, lsCommand, unwords,
      ascii]
  | _ =>
    apply hfill
    simp [Operation.template, Operation.head, Operation.names, quotedNames, unwords, ascii]

lemma runRcmd_failed {m : Machine} {sess : ShellSession} {command : Text}
    (h : m.starts (rshCommand sess command) = false ∨
      m.here.run (rshCommand sess command) = .refused) :
    (runRcmd m sess .rsh command).ret ≠ SITE_OK := by
  have hsystem : system m (rshCommand sess command) ≠ 0 := by
    unfold system
    split_ifs with hstarts
    · apply m.refused
      rcases h with h | h
      · rw [hstarts] at h
        cases h
      · exact h
    · decide
  simp only [runRcmd, if_neg hsystem]
  decide

/-- A pipe whose shell cannot be started or refuses the text. -/
lemma pipe_failed {m : Machine} {sess : ShellSession} {command : Text}
    (h : m.starts (rshCommand sess command) = false ∨
      m.here.run (rshCommand sess command) = .refused) :
    (runRcmd m sess .rshPipeRead command).ret ≠ SITE_OK ∨
      runFinish (m.status (rshCommand sess command)) ≠ SITE_OK := by
  rcases h with h | h
  · simp only [runRcmd, h, Bool.false_eq_true, ↓reduceIte]
    exact Or.inl (by decide)
  · exact Or.inr fun hok => m.refused _ h (runFinish_ok_iff.mp hok)

/-- A shell that cannot be started or that refuses the text is an error. -/
lemma perform_failed {m : Machine} {sess : ShellSession} {op : Operation}
    (h : m.starts (op.perform m sess).cmd = false ∨
      m.here.run (op.perform m sess).cmd = .refused) : (op.perform m sess).ret ≠ SITE_OK := by
  cases op with
  | fileRead n =>
    simp only [Operation.perform, fileRead, apply_ite Done.cmd, ite_self, runRcmd_cmd] at h ⊢
    split_ifs with hret
    · simp [SITE_FAILED, SITE_OK]
    · exact (pipe_failed h).resolve_left hret
  | fetchList n =>
    simp only [Operation.perform, fetchList, apply_ite Done.cmd, ite_self, runRcmd_cmd] at h ⊢
    split_ifs with hret
    · exact (pipe_failed h).resolve_left (not_not_intro hret)
    · exact hret
  | _ => exact runRcmd_failed h

/-! ### The words in front of the names -/

lemma isOrdinary_digit {c : UInt8} (h : isDigit 8 c = true) : isOrdinary c = true := by
  have hne : ∀ d, isDigit 8 d = false → c ≠ d := by
    rintro d hd rfl
    rw [h] at hd
    cases hd
  simp [isOrdinary, isOperator, isBlank, hne 10 rfl, hne 36 rfl, hne 38 rfl, hne 40 rfl, hne 41 rfl,
    hne 59 rfl, hne 60 rfl, hne 96 rfl, hne 124 rfl, hne 32 rfl, hne 9 rfl, hne 34 rfl, hne 39 rfl,
    hne 62 rfl, hne 92 rfl]

lemma isPattern_digits {n : Text} (h : ∀ c ∈ n, isDigit 8 c = true) :
    isPattern (marked false n) = false := by
  induction n with
  | nil => rfl
  | cons c n ih =>
    have hne : ∀ d, isDigit 8 d = false → c ≠ d := by
      rintro d hd rfl
      rw [h c List.mem_cons_self] at hd
      cases hd
    have hrest := ih fun d hd => h d (List.mem_cons_of_mem c hd)
    change isPattern ((c, false) :: marked false n) = false
    simp [isPattern, hne 42 rfl, hne 63 rfl, hne 91 rfl, hrest]

lemma literal_digits {n : Text} (hne : n ≠ []) (h : ∀ c ∈ n, isDigit 8 c = true) : Literal n := by
  have hhead : ∀ d, isDigit 8 d = false → n.head? ≠ some d := by
    intro d hd hn
    rw [h d (List.mem_of_mem_head? hn)] at hd
    cases hd
  refine ⟨hne, fun c hc => isOrdinary_digit (h c hc), hhead 35 rfl, ?_⟩
  have htilde := hhead 126 rfl
  cases n with
  | nil => rfl
  | cons c n =>
    rw [expands, isPattern_digits h, Bool.or_false]
    simpa [marked] using htilde

lemma literal_octal (mode : UInt32) : Literal (octalMode mode) := by
  apply literal_digits
  · exact List.append_ne_nil_of_right_ne_nil _ (printNat_ne_nil 8 _)
  · intro c hc
    rcases List.mem_append.mp hc with hc | hc
    · rw [List.eq_of_mem_replicate hc]
      decide
    · exact printNat_digits (by decide) (by decide) _ c hc

lemma head_literal (op : Operation) : ∀ w ∈ op.head, Literal w := by
  cases op with
  | fileChmod n mode =>
    intro w hw
    rcases List.mem_cons.mp hw with rfl | hw
    · decide +kernel
    · rw [List.mem_singleton.mp hw]
      exact literal_octal mode
  | _ =>
    simp only [Operation.head]
    decide +kernel

lemma head_starts (op : Operation) (l : List Text) : startsCommand (op.head ++ l) = true := by
  cases op <;> rfl

/-! ### Reading the template -/

section Template
variable {head names : List Text}

lemma bare_quotedNames (names : List Text) : bare (quotedNames names) = load names := by
  induction names with
  | nil => rfl
  | cons n names ih =>
    have hquoted : bare (32 :: 39 :: n ++ [39]) = bare n + 1 := by simp [bare_cons]
    rw [quotedNames, List.flatMap_cons, bare_append, hquoted, load_cons, ← ih]
    rfl

lemma bare_template (hne : head ≠ []) :
    bare (unwords head ++ quotedNames names) + 1 = load (head ++ names) := by
  have hhead := bare_unwords hne
  rw [bare_append, bare_quotedNames, load_append]
  omega

/-- With no single quotes in the names, the local shell reads the words of the command. -/
lemma readArguments_template {p : Text} {words : List Text}
    (hp : readArguments p = .simple ⟨words, []⟩) (hnames : ∀ n ∈ names, (39 : UInt8) ∉ n) :
    readArguments (p ++ quotedNames names) = .simple ⟨words ++ names, []⟩ := by
  induction names generalizing p words with
  | nil => simpa [quotedNames] using hp
  | cons n names ih =>
    obtain ⟨hn, hrest⟩ := List.forall_mem_cons.mp hnames
    have hstep : readArguments (p ++ 32 :: (39 :: n ++ [39])) = .simple ⟨words ++ [n], []⟩ := by
      rw [readArguments_append hp, readArguments_quoted hn]
      rfl
    have hmore := ih hstep hrest
    simpa [quotedNames, List.append_assoc] using hmore

lemma mem_unwords {c : UInt8} {ws : List Text} (h : c ∈ unwords ws) (hc : c ≠ 32) :
    ∃ w ∈ ws, c ∈ w := by
  induction ws with
  | nil => cases h
  | cons w ws ih =>
    by_cases hne : ws = []
    · subst hne
      rw [unwords_singleton] at h
      exact ⟨w, List.mem_cons_self, h⟩
    · rw [unwords_cons w hne] at h
      rcases List.mem_append.mp h with h | h
      · exact ⟨w, List.mem_cons_self, h⟩
      · rcases List.mem_cons.mp h with h | h
        · exact absurd h hc
        · obtain ⟨v, hv, hmem⟩ := ih h
          exact ⟨v, List.mem_cons_of_mem w hv, hmem⟩

/-- What both shells read is the command only if neither has removed anything besides the
quotes of the template. -/
lemma literal_of_delivered {rest : List Text} {k : ℕ} (hhead : head ≠ [])
    (hlocal : readArguments ((unwords head ++ quotedNames names).take k) = .simple ⟨rest, []⟩)
    (hremote : readArguments (unwords rest) = .simple ⟨head ++ names, []⟩) :
    (∀ n ∈ names, Literal n) ∧
      bare ((unwords head ++ quotedNames names).take k) =
        bare (unwords head ++ quotedNames names) := by
  have hfull : bare (unwords head ++ quotedNames names) + 1 = load (head ++ names) :=
    bare_template hhead
  have hcut : bare ((unwords head ++ quotedNames names).take k) ≤
      bare (unwords head ++ quotedNames names) := (List.take_sublist _ _).countP_le
  have hone : load rest + 0 ≤ _ := readArguments_load hlocal
  have htwo : load (head ++ names) + 0 ≤ _ := readArguments_load hremote
  have hrest : rest ≠ [] := by
    rintro rfl
    have hnone := (Command.mk.inj (Reading.simple.inj hremote)).1
    exact hhead (List.append_eq_nil_iff.mp hnone.symm).1
  have hjoin := bare_unwords hrest
  have hfree : ∀ w ∈ rest, (39 : UInt8) ∉ w := quoteFree_of_exact hlocal (by
    change _ ≤ load rest
    omega)
  have hnoQuote : (39 : UInt8) ∉ unwords rest := by
    intro h
    obtain ⟨w, hw, hmem⟩ := mem_unwords h (by decide)
    exact hfree w hw hmem
  have hlit : ∀ w ∈ head ++ names, Literal w := literal_of_exact hremote hnoQuote (by
    change _ ≤ load (head ++ names)
    omega)
  exact ⟨fun n hn => hlit n (List.mem_append_right head hn), by omega⟩

lemma Literal.quoteFree {n : Text} (h : Literal n) : (39 : UInt8) ∉ n := by
  intro hmem
  have hord := h.2.1 39 hmem
  cases hord

/-- A cut that removes nothing but quotes removes the last one and leaves its quotation open. -/
lemma fits_of_bare {k : ℕ} (hnames : ∀ n ∈ names, Literal n) (hne : names ≠ [])
    (hp : readArguments (unwords head) = .simple ⟨head, []⟩)
    (hbare : bare ((unwords head ++ quotedNames names).take k) =
      bare (unwords head ++ quotedNames names))
    (hread : readArguments ((unwords head ++ quotedNames names).take k) ≠ .unclosed) :
    (unwords head ++ quotedNames names).length ≤ k := by
  obtain ⟨init, n, rfl⟩ := (List.eq_nil_or_concat' names).resolve_left hne
  have hn : Literal n := hnames n (by simp)
  obtain ⟨m, c, rfl⟩ := (List.eq_nil_or_concat' n).resolve_left hn.1
  have hinit : readArguments (unwords head ++ quotedNames init) = .simple ⟨head ++ init, []⟩ :=
    readArguments_template hp fun w hw => Literal.quoteFree (hnames w (by simp [hw]))
  have hsplit : unwords head ++ quotedNames (init ++ [m ++ [c]]) =
      (unwords head ++ quotedNames init ++ 32 :: 39 :: m) ++ [c] ++ [39] := by
    simp [quotedNames]
  rw [hsplit] at hbare hread ⊢
  by_contra hlt
  have hcut : k = ((unwords head ++ quotedNames init ++ 32 :: 39 :: m) ++ [c]).length := by
    by_contra hk
    have hshort : k ≤ (unwords head ++ quotedNames init ++ 32 :: 39 :: m).length := by
      simp only [List.length_append, List.length_cons, List.length_nil] at hlt hk ⊢
      omega
    have hc : c ≠ 39 := by
      rintro rfl
      exact Literal.quoteFree hn (by simp)
    have hle := ((unwords head ++ quotedNames init ++ 32 :: 39 :: m).take_sublist k).countP_le
      (p := (· ≠ 39))
    rw [List.append_assoc _ [c], List.take_append_of_le_length hshort, bare_append _ ([c] ++ _),
      bare_append [c], bare_cons, if_neg hc] at hbare
    simp only [bare] at hbare hle
    omega
  apply hread
  rw [hcut, List.take_left, List.append_assoc, List.cons_append, List.cons_append,
    readArguments_append hinit]
  rw [readArguments_open (Literal.quoteFree hn)]
  rfl

end Template

/-! ### Which names arrive -/

section Arrival
variable {sess : ShellSession} {call : Command} {op : Operation}

lemma head_ne_nil (op : Operation) : op.head ≠ [] := by cases op <;> simp [Operation.head]

lemma names_ne_nil (op : Operation) : op.names ≠ [] := by cases op <;> simp [Operation.names]

lemma read_head (op : Operation) : readArguments (unwords op.head) = .simple ⟨op.head, []⟩ :=
  readArguments_unwords (head_literal op)

lemma read_cmd (hcall : read (rshCall sess) = .simple call) (m : Machine) (op : Operation) :
    read (op.perform m sess).cmd =
      (readArguments (op.template.take (bufsiz - 1))).more call := by
  rw [perform_cmd, read_append hcall]

/-- A safe command is delivered by every pair of shells. -/
lemma delivered_of_safe (hcall : read (rshCall sess) = .simple call) (h : Safe op) (m : Machine)
    (hstarts : m.starts (op.perform m sess).cmd = true) :
    Delivered m call (op.perform m sess).cmd op.words := by
  obtain ⟨hfits, hnames⟩ := h
  have hwhole : op.template.take (bufsiz - 1) = op.template :=
    List.take_of_length_le (Nat.le_sub_one_of_lt hfits)
  have hlocal : readArguments op.template = .simple ⟨op.words, []⟩ :=
    readArguments_template (read_head op) fun n hn => Literal.quoteFree (hnames n hn)
  have hwords : ∀ w ∈ op.words, Literal w := by
    intro w hw
    exact (List.mem_append.mp hw).elim (head_literal op w) (hnames w)
  refine ⟨hstarts, op.words, ?_, ?_⟩
  · apply m.here.simple
    rw [read_cmd hcall, hwhole, hlocal]
    simp [Reading.more, Command.append]
  · apply m.there.simple
    exact read_simple.mpr ⟨readArguments_unwords hwords, head_starts op op.names⟩

/-- Two shells that know words only, and an exit status that tells nothing of the remote one. -/
def wordMachine : Machine where
  starts _ := true
  here := wordShell
  there := wordShell
  status t := if wordShell.run t = .refused then 1 else 0
  refused t h := by simp [h]

lemma wordShell_runs {t : Text} {c : Command} (h : wordShell.run t = .commands [c]) :
    read t = .simple c := by
  simp only [wordShell] at h
  cases hr : read t with
  | simple d =>
    rw [hr] at h
    simp only [Ran.commands.injEq, List.cons.injEq, and_true] at h
    rw [h]
  | _ => rw [hr] at h; cases h

lemma wordShell_refuses {t : Text} (h : wordShell.run t = .refused) : read t = .unclosed := by
  simp only [wordShell] at h
  cases hr : read t with
  | unclosed => rfl
  | _ => rw [hr] at h; cases h

lemma safe_of_delivered (hcall : read (rshCall sess) = .simple call)
    (h : Delivered wordMachine call (op.perform wordMachine sess).cmd op.words) : Safe op := by
  obtain ⟨-, rest, hlocal, hremote⟩ := h
  have hread := wordShell_runs hlocal
  rw [read_cmd hcall] at hread
  cases hargs : readArguments (op.template.take (bufsiz - 1)) with
  | simple d =>
    rw [hargs] at hread
    obtain ⟨hwords, houtputs⟩ := Command.mk.inj (Reading.simple.inj hread)
    have hd : d = ⟨rest, []⟩ := by
      cases d
      simp_all
    rw [hd] at hargs
    have hthere := (read_simple.mp (wordShell_runs hremote)).1
    obtain ⟨hlit, hbare⟩ := literal_of_delivered (head_ne_nil op) hargs hthere
    refine ⟨?_, hlit⟩
    have hfits := fits_of_bare hlit (names_ne_nil op) (read_head op) hbare
      (by rw [show unwords op.head ++ quotedNames op.names = op.template from rfl, hargs]; simp)
    have hbufsiz : bufsiz = 8192 := rfl
    change op.template.length ≤ _ at hfits
    omega
  | _ =>
    rw [hargs] at hread
    cases hread

/-- Whatever the shells do with texts that are more than words, a command arrives intact or
fails before it is run, exactly if it is safe or its quotation has no end. -/
theorem intact_iff (hcall : read (rshCall sess) = .simple call) (op : Operation) :
    (∀ m : Machine, Intact m sess call op) ↔ Safe op ∨ Unclosed op := by
  constructor
  · intro h
    rcases h wordMachine with hdelivered | ⟨-, hstarts | hrefused⟩
    · exact Or.inl (safe_of_delivered hcall hdelivered)
    · cases hstarts
    · have hread := wordShell_refuses hrefused
      rw [read_cmd hcall] at hread
      right
      cases hargs : readArguments (op.template.take (bufsiz - 1)) with
      | unclosed => exact hargs
      | _ =>
        rw [hargs] at hread
        cases hread
  · rintro h m
    cases hstarts : m.starts (op.perform m sess).cmd with
    | false => exact Or.inr ⟨perform_failed (Or.inl hstarts), Or.inl hstarts⟩
    | true =>
      rcases h with hsafe | hopen
      · exact Or.inl (delivered_of_safe hcall hsafe m hstarts)
      · have hrefused : m.here.run (op.perform m sess).cmd = .refused := by
          apply m.here.unclosed
          rw [read_cmd hcall, show readArguments _ = _ from hopen]
          rfl
        exact Or.inr ⟨perform_failed (Or.inr hrefused), Or.inr hrefused⟩

end Arrival

/-- A session with the default command and no user name. -/
def wwwSession : ShellSession := { cmd := ascii "rsh", hostname := ascii "www" }

def wwwCall : Command :=
  { words := [ascii "rsh", ascii "www"], outputs := [(ascii "2", ascii "/dev/null")] }

theorem intact_iff_move :
    (∀ m : Machine, Intact m wwwSession wwwCall (.fileMove (ascii "a b") (ascii "c"))) ↔
      Safe (.fileMove (ascii "a b") (ascii "c")) ∨ Unclosed (.fileMove (ascii "a b") (ascii "c")) :=
  intact_iff (by decide +kernel) _

/-- The remote shell is told to remove two files instead of one. -/
theorem blank_splits_name :
    read (rshCall wwwSession) = .simple wwwCall ∧
      (Operation.fileDelete (ascii "a b")).words = [ascii "rm", ascii "a b"] ∧
      wordMachine.there.run (unwords [ascii "rm", ascii "a b"]) =
        .commands [{ words := [ascii "rm", ascii "a", ascii "b"] }] ∧
      ¬ Intact wordMachine wwwSession wwwCall (.fileDelete (ascii "a b")) := by
  have hcall : read (rshCall wwwSession) = .simple wwwCall := by decide +kernel
  refine ⟨hcall, rfl, by decide +kernel, ?_⟩
  rintro (hdelivered | ⟨-, hstarts | hrefused⟩)
  · have hsafe := (safe_of_delivered hcall hdelivered).2 _ (List.mem_singleton.mpr rfl)
    revert hsafe
    decide +kernel
  · cases hstarts
  · revert hrefused
    decide +kernel

end Sitecopy.RshCommands
