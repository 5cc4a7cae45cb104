import Sitecopy.FtpReplies
import Sitecopy.LsParser

/-!
# The three drivers that list with `ls`

The rsh and the sftp driver run `ls` through the shell and the FTP driver asks the server
to. All three parse the same listings, each in a loop of its own.
-/
namespace Sitecopy.ListingDrivers
open SiteModel SiteOperations StateProgram FtpSession FtpTransfer FtpReplies LsParser

/-! ### The rsh and the sftp driver -/

/-- `popen` and `pclose` over shells with the state `τ`: the lines that `fgets` reads from
a command and what `pclose` returns, or nothing where the command cannot be started. -/
structure Shell (τ : Type) where
  popen : Text → τ → Option (List Text × ℤ) × τ

/-- What the sessions of the two drivers hold of the site. -/
structure ShellSession where
  /-- `rsh_cmd` of the one, `ssh_cmd` of the other -/
  cmd : Text
  username : Option Text := none
  hostname : Text

def lsCommand (dirname : Text) : Text := ascii "ls -la '" ++ dirname ++ ascii "'"

/-- The command of `run_rcmd` for `RSH_PIPE_READ`. -/
def rshCommand (sess : ShellSession) (command : Text) : Text :=
  let buf := printInto bufsiz command
  match sess.username with
  | some username =>
    sess.cmd ++ ascii " -l " ++ username ++ ascii "  2>/dev/null " ++ sess.hostname ++ [blank] ++ buf
  | none => sess.cmd ++ ascii " 2>/dev/null " ++ sess.hostname ++ [blank] ++ buf

/-- The command of `run_ssh`. -/
def sshCommand (sess : ShellSession) (command : Text) : Text :=
  let login := match sess.username with
    | some username => ascii " -l " ++ username
    | none => []
  sess.cmd ++ login ++ [blank] ++ sess.hostname ++ [blank, 92, 92] ++ command ++
    ascii " 2> /dev/null"

/-- `run_finish` and `ssh_finish`. -/
def runFinish (status : ℤ) : ℤ := if status = 0 then SITE_OK else SITE_FAILED

/-- The loop of `rsh_fetch` and `ssh_fetch`, with their `success`. -/
def fetchLines : LsContext → List Text → ℤ → PfList → ℤ × PfList
  | _, [], success, l => (success, l)
  | ctx, line :: rest, success, l =>
    match lsParse ctx line with
    | (ctx, .error) => fetchLines ctx rest SITE_ERRORS l
    | (ctx, r) => fetchLines ctx rest success (lsPflistAdd l r)

/-- `rsh_fetch`, which returns what closing the pipe returns. -/
def rshFetch (startdir : Text) (out : List Text) (status : ℤ) (list : List ProtoFile) :
    ℤ × List ProtoFile :=
  let r := fetchLines (lsInit startdir) out SITE_OK { list }
  (runFinish status, r.2.list)

/-- `fetch_list` of the rsh driver. -/
def rshFetchList {τ : Type} (sh : Shell τ) (sess : ShellSession) (dirname : Text)
    (files : List ProtoFile) : StateM τ (ℤ × List ProtoFile) := do
  match ← sh.popen (rshCommand sess (lsCommand dirname)) with
  | none => pure (SITE_FAILED, files)
  | some (out, status) => pure (rshFetch dirname out status files)

/-- `ssh_fetch`. -/
def sshFetch (startdir : Text) (out : List Text) (list : List ProtoFile) : ℤ × List ProtoFile :=
  let r := fetchLines (lsInit startdir) out SITE_OK { list }
  (r.1, r.2.list)

/-- `fetch_list` of the sftp driver, which does not look at what `ssh_fetch` returns. -/
def sftpFetchList {τ : Type} (sh : Shell τ) (sess : ShellSession) (dirname : Text)
    (files : List ProtoFile) : StateM τ (ℤ × List ProtoFile) := do
  let buf := sshCommand sess (lsCommand dirname)
  if bufsiz ≤ buf.length + 1 then pure (SITE_FAILED, files)
  else
    match ← sh.popen buf with
    | none => pure (SITE_FAILED, files)
    | some (out, status) => pure (runFinish status, (sshFetch dirname out files).2)

/-! ### Listings that cannot be parsed -/

/-- The loop of `ftp_fetch` fails on a listing with a line that cannot be parsed. -/
lemma readListing_error {ended : SockError} {ctx : LsContext} {lines : List Text} {l : PfList}
    (h : LsResult.error ∈ lsResults ctx lines) :
    (readListing lsParser ended lines ctx l).1 = false := by
  induction lines generalizing ctx l with
  | nil => cases h
  | cons line rest ih =>
    have hparse : lsParser.parse ctx line = lsParse ctx line := rfl
    rw [readListing, hparse]
    cases hr : lsParse ctx line with
    | mk ctx' r =>
      cases r with
      | error => rfl
      | _ =>
        apply ih
        simpa [lsResults, hr] using h

/-- It also fails when reading from the data connection does. -/
lemma readListing_broken {ended : SockError} (hended : ended ≠ .closed) {ctx : LsContext}
    {lines : List Text} {l : PfList} : (readListing lsParser ended lines ctx l).1 = false := by
  induction lines generalizing ctx l with
  | nil => simpa [readListing] using hended
  | cons line rest ih =>
    rw [readListing]
    cases lsParser.parse ctx line with
    | mk ctx' r =>
      cases r with
      | error => rfl
      | _ => exact ih

/-! ### What the drivers return -/

variable {ω τ : Type}

/-- The data connection transfers these lines, and is closed only after all of them. -/
def Transfers (net : Network ω) (lines : List Text) : Prop :=
  ∀ w, (net.dtpRead w).1.1 <+: lines ∧
    ((net.dtpRead w).1.2 = .closed → (net.dtpRead w).1.1 = lines)

/-- A shell in which every command prints these lines; `exit` tells what `pclose` returns for
a command, or that it cannot be started. -/
def listingShell (lines : List Text) (exit : Text → τ → Option ℤ × τ) : Shell τ where
  popen cmd t := ((exit cmd t).1.map fun status => (lines, status), (exit cmd t).2)

/-- The command cannot be started, or it exits with another status than 0. -/
def Fails (r : Option (List Text × ℤ)) : Prop := ∀ out, r ≠ some (out, 0)

lemma not_fails_some (r : List Text × ℤ) : ¬ Fails (some r) ↔ r.2 = 0 := by
  constructor
  · intro h
    by_contra hne
    exact h fun out hout => hne (congrArg Prod.snd (Option.some.inj hout))
  · rintro hzero h
    exact h r.1 (by rw [← hzero])

lemma runFinish_ok_iff {status : ℤ} : runFinish status = SITE_OK ↔ status = 0 := by
  unfold runFinish
  split_ifs with h
  · simp [h]
  · simp [h, SITE_FAILED, SITE_OK]

/-- Whatever is read up to a failure or to the end, the loop of `ftp_fetch` fails. -/
lemma readListing_transferred {net : Network ω} {lines : List Text} (hnet : Transfers net lines)
    {dir : Text} (h : Unparsable dir lines) (l : PfList) (w : ω) :
    (readListing lsParser (net.dtpRead w).1.2 (net.dtpRead w).1.1 (lsInit dir) l).1 = false := by
  by_cases hclosed : (net.dtpRead w).1.2 = .closed
  · rw [(hnet w).2 hclosed]
    exact readListing_error h
  · exact readListing_broken hclosed

lemma ftpFetch_unparsable {net : Network ω} {lines : List Text} (hnet : Transfers net lines)
    {dir : Text} (h : Unparsable dir lines) (list : List ProtoFile) (c : Client ω) :
    Ends (ftpFetch net lsParser dir list) c fun r _ => r.1 ≠ .ok := by
  unfold ftpFetch
  rw [ends_bind]
  apply Ends.of_forall
  intro ret c₁
  rw [ends_ite]
  split_ifs
  · simp
  · simp only [ends_bind, ends_outside]
    rw [ends_run]
    apply Ends.of_forall
    intro dret c₂
    have hloop := readListing_transferred hnet h { list } c₁.net
    rw [ends_pure]
    change (if (readListing lsParser (net.dtpRead c₁.net).1.2 (net.dtpRead c₁.net).1.1
      (lsInit dir) { list }).1 = true ∧ dret = .sent then FtpCode.ok else FtpCode.error) ≠ _
    simp [hloop]

/-- The rsh driver only looks at the status of the command. -/
lemma rshFetchList_ok_iff (sh : Shell τ) (sess : ShellSession) (dir : Text)
    (list : List ProtoFile) (t : τ) :
    Ends (rshFetchList sh sess dir list) t fun r _ =>
      r.1 = SITE_OK ↔ ¬ Fails (sh.popen (rshCommand sess (lsCommand dir)) t).1 := by
  unfold rshFetchList
  rw [ends_bind, ends_run]
  change Ends (match (sh.popen (rshCommand sess (lsCommand dir)) t).1 with
    | none => pure (SITE_FAILED, list)
    | some (out, status) => pure (rshFetch dir out status list)) _ _
  cases (sh.popen (rshCommand sess (lsCommand dir)) t).1 with
  | none => simp [Fails, SITE_FAILED, SITE_OK]
  | some r => exact runFinish_ok_iff.trans (not_fails_some r).symm

/-- So does the sftp driver, if the command fits into its buffer. -/
lemma sftpFetchList_ok_iff (sh : Shell τ) (sess : ShellSession) (dir : Text)
    (list : List ProtoFile) (t : τ) :
    Ends (sftpFetchList sh sess dir list) t fun r _ => r.1 = SITE_OK ↔
      (sshCommand sess (lsCommand dir)).length + 1 < bufsiz ∧
        ¬ Fails (sh.popen (sshCommand sess (lsCommand dir)) t).1 := by
  unfold sftpFetchList
  dsimp only
  rw [ends_ite]
  split_ifs with hlong
  · rw [ends_pure]
    exact iff_of_false (by simp [SITE_FAILED, SITE_OK]) fun h => absurd h.1 (by omega)
  · rw [ends_bind, ends_run]
    change Ends (match (sh.popen (sshCommand sess (lsCommand dir)) t).1 with
      | none => pure (SITE_FAILED, list)
      | some (out, status) => pure (runFinish status, (sshFetch dir out list).2)) _ _
    rw [and_iff_right (by omega)]
    cases (sh.popen (sshCommand sess (lsCommand dir)) t).1 with
    | none => simp [Fails, SITE_FAILED, SITE_OK]
    | some r => exact runFinish_ok_iff.trans (not_fails_some r).symm

/-- The code of each of the three fetches of a directory. -/
structure Codes where
  ftp : FtpCode
  rsh : ℤ
  sftp : ℤ
  deriving DecidableEq, Repr

/-- The fetches of the listing `lines` by the three drivers. -/
def fetchCodes (net : Network ω) (rsh sftp : Text → τ → Option ℤ × τ)
    (rshSess sftpSess : ShellSession) (dir : Text) (lines : List Text) (list : List ProtoFile)
    (c : Client ω) (t u : τ) : Codes where
  ftp := ((ftpFetch net lsParser dir list).run c).1.1
  rsh := ((rshFetchList (listingShell lines rsh) rshSess dir list).run t).1.1
  sftp := ((sftpFetchList (listingShell lines sftp) sftpSess dir list).run u).1.1

def Codes.Refused (r : Codes) : Prop := r.ftp ≠ .ok ∧ r.rsh ≠ SITE_OK ∧ r.sftp ≠ SITE_OK

lemma fails_listing_iff {lines : List Text} {exit : Text → τ → Option ℤ × τ} {cmd : Text} {t : τ} :
    Fails ((listingShell lines exit).popen cmd t).1 ↔ (exit cmd t).1 ≠ some 0 := by
  cases h : (exit cmd t).1 with
  | none => simp [Fails, listingShell, h]
  | some status => simp [Fails, listingShell, h]

/-- All three drivers refuse every listing with a line that cannot be parsed if and only if
the two that use the shell fail anyway: the command is too long, cannot be started, or exits
with a status other than 0. -/
theorem listings_refused_iff {net : Network ω} {lines : List Text} (hnet : Transfers net lines)
    (rsh sftp : Text → τ → Option ℤ × τ) (rshSess sftpSess : ShellSession) (dir : Text)
    (list : List ProtoFile) (c : Client ω) (t u : τ) :
    (Unparsable dir lines →
      (fetchCodes net rsh sftp rshSess sftpSess dir lines list c t u).Refused) ↔
    (Unparsable dir lines → (rsh (rshCommand rshSess (lsCommand dir)) t).1 ≠ some 0 ∧
      (bufsiz ≤ (sshCommand sftpSess (lsCommand dir)).length + 1 ∨
        (sftp (sshCommand sftpSess (lsCommand dir)) u).1 ≠ some 0)) := by
  apply imp_congr_right
  intro h
  have hftp : (fetchCodes net rsh sftp rshSess sftpSess dir lines list c t u).ftp ≠ .ok :=
    ftpFetch_unparsable hnet h list c
  have hrsh : (fetchCodes net rsh sftp rshSess sftpSess dir lines list c t u).rsh = SITE_OK ↔ _ :=
    rshFetchList_ok_iff (listingShell lines rsh) rshSess dir list t
  have hsftp : (fetchCodes net rsh sftp rshSess sftpSess dir lines list c t u).sftp = SITE_OK ↔ _ :=
    sftpFetchList_ok_iff (listingShell lines sftp) sftpSess dir list u
  rw [Codes.Refused, ne_eq _ SITE_OK, ne_eq _ SITE_OK, hrsh, hsftp, not_and_or, not_not, not_not,
    not_lt, fails_listing_iff, fails_listing_iff]
  exact and_iff_right hftp

/-- A server that lists one line, and that not as `ls` does. -/
def garbledNetwork : Network Unit where
  feLogin _ _ := pure none
  connect _ := pure true
  greeting := pure (.checked 220 [] (Eq.refl true))
  loginDir := pure (ascii "/home")
  answer line := pure
    (if (ascii "USER").isPrefixOf line then .checked 230 [] (Eq.refl true)
    else if (ascii "LIST").isPrefixOf line then .checked 150 [] (Eq.refl true)
    else .checked 200 [] (Eq.refl true))
  final := pure (.checked 250 [] (Eq.refl true))
  write := pure none
  readline := pure none
  mktime _ := 0
  dtpConnect _ _ := pure true
  listen := pure (some [127, 0, 0, 1, 4, 1])
  accept := pure true
  dtpWrite _ := pure none
  dtpRead := pure ([ascii "garbled"], .closed)
  dtpClose := pure true
  fopen _ := pure none
  fstat := pure true
  ferror := pure none
  fseek := pure true
  fcreate _ := pure true
  fwrite := pure none
  fclose := pure true

lemma garbledNetwork_transfers : Transfers garbledNetwork [ascii "garbled"] :=
  fun _ => ⟨List.prefix_refl _, fun _ => rfl⟩

def garbledClient : Client Unit where
  net := ()
  sess := startSession false false (ascii "u") (ascii "p") [⟨.ipv4, [127, 0, 0, 1]⟩]

def garbledSession : ShellSession where
  cmd := ascii "ssh"
  hostname := ascii "host"

/-- The fetches of the line, with commands that exit with the status 0. -/
def garbledCodes : Codes :=
  fetchCodes garbledNetwork (fun _ (t : Unit) => (some 0, t)) (fun _ t => (some 0, t))
    garbledSession garbledSession (ascii "/r") [ascii "garbled"] [] garbledClient () ()

theorem listings_refused_iff_garbled :
    (Unparsable (ascii "/r") [ascii "garbled"] → garbledCodes.Refused) ↔
    (Unparsable (ascii "/r") [ascii "garbled"] → some (0 : ℤ) ≠ some 0 ∧
      (bufsiz ≤ (sshCommand garbledSession (lsCommand (ascii "/r"))).length + 1 ∨
        some (0 : ℤ) ≠ some 0)) :=
  listings_refused_iff garbledNetwork_transfers (fun _ (t : Unit) => (some 0, t))
    (fun _ t => (some 0, t)) garbledSession garbledSession (ascii "/r") [] garbledClient () ()

/-- Only the FTP driver refuses the line. -/
theorem garbled_listing_accepted :
    Unparsable (ascii "/r") [ascii "garbled"] ∧
      garbledCodes = { ftp := .error, rsh := SITE_OK, sftp := SITE_OK } ∧
      ¬ (Unparsable (ascii "/r") [ascii "garbled"] → garbledCodes.Refused) := by
  have hbad : Unparsable (ascii "/r") [ascii "garbled"] := by decide
  have hcodes : garbledCodes = { ftp := .error, rsh := SITE_OK, sftp := SITE_OK } := by
    decide +kernel
  refine ⟨hbad, hcodes, fun h => ?_⟩
  rw [hcodes] at h
  exact (h hbad).2.1 rfl

end Sitecopy.ListingDrivers
