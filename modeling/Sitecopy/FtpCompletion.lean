import Sitecopy.FtpFrames
import Sitecopy.FtpPairing

/-!
# What a transfer leaves

A download empties the local file before it asks for the remote one, so a failure leaves what
has arrived by then. A transfer that is reported as complete is complete, as long as each
command is one line. A path with a CR LF can bring replies of its own between.
-/
namespace Sitecopy.FtpCompletion
open SiteModel StateProgram FtpSession FtpTransfer FtpReplies FtpRules FtpPairing FtpFrames

variable {ω : Type} {net : Network ω}

/-! ### Local files -/

/-- The content of a local file, given what was on the disk before. -/
def localContent (disk : Text → Option Text) (s : Client ω) (path : Text) : Option Text :=
  (s.created.lookup path).or (disk path)

section LocalFiles
variable {localfile path : Text} {disk : Text → Option Text}

lemma lookup_filter {l : List (Text × Text)} (h : path ≠ localfile) :
    (l.filter (·.1 ≠ localfile)).lookup path = l.lookup path := by
  induction l with
  | nil => rfl
  | cons p l ih =>
    by_cases hp : p.1 = localfile
    · have hne : (path == p.1) = false := by simp [hp, h]
      rw [List.filter_cons_of_neg (by simp [hp]), ih, List.lookup_cons, hne]
    · rw [List.filter_cons_of_pos (by simp [hp]), List.lookup_cons, List.lookup_cons, ih]

/-- The file was written and the others are as they were. -/
structure Wrote (localfile content : Text) (s t : Client ω) : Prop where
  written : t.created.lookup localfile = some content
  others : ∀ path, path ≠ localfile → t.created.lookup path = s.created.lookup path

lemma Wrote.of_created {content : Text} {s t u : Client ω} (h : Wrote localfile content s t)
    (hu : u.created = t.created) : Wrote localfile content s u :=
  ⟨hu ▸ h.written, hu ▸ h.others⟩

lemma Wrote.trans {content content' : Text} {s t u : Client ω} (h : Wrote localfile content s t)
    (g : Wrote localfile content' t u) : Wrote localfile content' s u :=
  ⟨g.written, fun path hp => (g.others path hp).trans (h.others path hp)⟩

lemma Wrote.localContent {content : Text} {s t : Client ω} (h : Wrote localfile content s t) :
    localContent disk t localfile = some content := by
  rw [FtpCompletion.localContent, h.written, Option.some_or]

lemma Wrote.localContent_other {content : Text} {s t : Client ω}
    (h : Wrote localfile content s t) (hp : path ≠ localfile) :
    FtpCompletion.localContent disk t path = FtpCompletion.localContent disk s path := by
  rw [FtpCompletion.localContent, FtpCompletion.localContent, h.others path hp]

lemma setCreated_wrote (content : Text) (s : Client ω) :
    Ends (setCreated localfile content) s fun _ t => Wrote localfile content s t := by
  unfold setCreated
  rw [ends_modify]
  refine ⟨by simp, fun path hp => ?_⟩
  have hne : (path == localfile) = false := by simp [hp]
  rw [List.lookup_cons, hne]
  exact lookup_filter hp

/-- The loop of `receive_file` adds a part of the blocks, and all of them if nothing fails. -/
lemma writeBlocks_wrote (blocks : List Text) {content : Text} {s : Client ω}
    (hs : s.created.lookup localfile = some content) :
    Ends (writeBlocks net localfile content blocks) s fun ok t => ∃ more,
      Wrote localfile (content ++ more) s t ∧ more <+: blocks.flatten ∧
        (ok = true → more = blocks.flatten) := by
  induction blocks generalizing content s with
  | nil =>
    rw [writeBlocks, ends_pure]
    exact ⟨[], ⟨by simpa using hs, fun _ _ => rfl⟩, List.nil_prefix, fun _ => rfl⟩
  | cons block rest ih =>
    simp only [writeBlocks, ends_bind, ends_outside]
    refine Ends.of_forall fun fault w => ?_
    cases fault with
    | some n =>
      rw [ends_bind]
      apply (setCreated_wrote _ _).mono
      intro _ t ht
      refine ⟨block.take n, ⟨ht.written, ht.others⟩, ?_, nofun⟩
      exact (List.take_prefix n block).trans (List.prefix_append block rest.flatten)
    | none =>
      rw [ends_bind]
      apply (setCreated_wrote _ _).mono
      intro _ t ht
      apply (ih ht.written).mono
      rintro ok u ⟨more, hu, hmore, hok⟩
      refine ⟨block ++ more, ?_, ?_, fun h => ?_⟩
      · rw [← List.append_assoc]
        exact ⟨hu.written, fun path hp => (hu.others path hp).trans (ht.others path hp)⟩
      · rw [List.flatten_cons]
        exact (List.prefix_append_right_inj block).mpr hmore
      · rw [hok h, List.flatten_cons]

/-- What is read from the data connection. -/
def received (net : Network ω) (w : ω) : List Text × SockError := (net.dtpRead.run w).1

lemma receiveFile_wrote {s : Client ω} (hs : s.created.lookup localfile = some []) :
    Ends (receiveFile net localfile) s fun ok t => ∃ content,
      Wrote localfile content s t ∧ content <+: (received net s.net).1.flatten ∧
        (ok = true → content = (received net s.net).1.flatten ∧
          (received net s.net).2 = .closed) := by
  simp only [receiveFile, ends_bind, ends_outside, ends_pure]
  rw [ends_run net.dtpRead]
  apply (writeBlocks_wrote (received net s.net).1 (by exact hs)).mono
  rintro ok t ⟨more, ht, hmore, hok⟩
  refine ⟨more, ⟨ht.written, ht.others⟩, hmore, fun h => ?_⟩
  rw [Bool.and_eq_true, decide_eq_true_eq] at h
  exact ⟨hok h.1, h.2⟩

end LocalFiles

/-! ### Downloads that fail -/

/-- `ftp_get` and `ftp_read_file` up to where they read from the data connection. -/
def openDownload (net : Network ω) (remotefile : Text) (asc : Bool) : Ftp ω FtpCode := do
  let ret ← setMode net (if asc then .ascii else .binary)
  if ret ≠ .ok then pure .error else ftpDataOpen net (ascii "RETR " ++ remotefile)

/-- The local file is open for writing, and empty. -/
def emptied (net : Network ω) (localfile : Text) (s : Client ω) : Client ω :=
  { s with
    net := ((net.fcreate localfile).run s.net).2
    created := (localfile, []) :: s.created.filter (·.1 ≠ localfile) }

def opens (net : Network ω) (localfile : Text) (s : Client ω) : Bool :=
  ((net.fcreate localfile).run s.net).1

section Downloads
variable {localfile remotefile : Text} {asc : Bool} {disk : Text → Option Text}

lemma emptied_wrote (s : Client ω) : Wrote localfile [] s (emptied net localfile s) := by
  have h : Ends (setCreated localfile []) { s with net := ((net.fcreate localfile).run s.net).2 }
      fun _ t => Wrote localfile [] { s with net := ((net.fcreate localfile).run s.net).2 } t :=
    setCreated_wrote [] _
  exact ⟨h.written, h.others⟩

lemma openDownload_created (net : Network ω) (remotefile : Text) (asc : Bool) :
    Leaves Client.created (openDownload net remotefile asc) := by
  apply (setMode_leaves _).created.bind
  intro ret
  exact Leaves.ite (Leaves.pure _) (ftpDataOpen_created _)

/-- The three parts of `ftp_get`. -/
lemma ends_ftpGet (s : Client ω) (Q : FtpCode → Client ω → Prop) :
    Ends (ftpGet net localfile remotefile asc) s Q ↔
      if opens net localfile s = false then
        Q .error { s with net := ((net.fcreate localfile).run s.net).2 }
      else Ends (openDownload net remotefile asc) (emptied net localfile s) fun ret t =>
        if ret ≠ .ready then Q .error t
        else Ends (receiveFile net localfile) t fun received u =>
          Ends (outside net.fclose) u fun clo v =>
            Ends (dtpClose net) v fun dret x =>
              if dret = .sent ∧ received ∧ clo then Q .ok x else Q .error x := by
  simp only [ftpGet, openDownload, ends_bind, ends_outside, ends_ite, ends_pure, ne_eq,
    reduceCtorEq, not_false_eq_true, if_true, Bool.not_eq_true']
  exact Iff.rfl

/-- What a failed `ftp_get` leaves of the local file: all of it if it could not be opened, and
otherwise what was received up to the failure. -/
inductive Failed (net : Network ω) (disk : Text → Option Text) (localfile remotefile : Text)
    (asc : Bool) (s t : Client ω) : Prop
  | unopened : opens net localfile s = false →
      localContent disk t localfile = localContent disk s localfile →
      Failed net disk localfile remotefile asc s t
  | unstarted : opens net localfile s = true →
      ((openDownload net remotefile asc).run (emptied net localfile s)).1 ≠ .ready →
      localContent disk t localfile = some [] → Failed net disk localfile remotefile asc s t
  | cut (content : Text) : opens net localfile s = true →
      ((openDownload net remotefile asc).run (emptied net localfile s)).1 = .ready →
      content <+: (received net
        ((openDownload net remotefile asc).run (emptied net localfile s)).2.net).1.flatten →
      localContent disk t localfile = some content →
      Failed net disk localfile remotefile asc s t

/-- A download that does not return `FTP_OK` leaves the local file as it was only if it could
not be opened; it leaves all other files as they were. -/
theorem failed_download (net : Network ω) (disk : Text → Option Text) (localfile remotefile : Text)
    (asc : Bool) (s : Client ω) :
    Ends (ftpGet net localfile remotefile asc) s fun ret t => ret ≠ .ok →
      Failed net disk localfile remotefile asc s t ∧
        ∀ path, path ≠ localfile → localContent disk t path = localContent disk s path := by
  rw [ends_ftpGet]
  split_ifs with hopen
  · intro _
    exact ⟨.unopened hopen rfl, fun _ _ => rfl⟩
  rw [Bool.not_eq_false] at hopen
  have hcreated := openDownload_created net remotefile asc (emptied net localfile s)
  rw [ends_run] at hcreated ⊢
  have hwrote := (emptied_wrote s).of_created hcreated
  split_ifs with hready
  · intro _
    refine ⟨.unstarted hopen hready hwrote.localContent, fun path hp => ?_⟩
    exact hwrote.localContent_other hp
  apply (receiveFile_wrote hwrote.written).mono
  rintro ok u ⟨content, hu, hcontent, _⟩
  rw [ends_outside]
  refine Ends.of_forall fun clo w => ?_
  apply (dtpClose_leaves.created { u with net := w }).mono
  intro dret x hx
  have hfile : Wrote localfile content s x := (hwrote.trans hu).of_created hx
  have hfailed : Failed net disk localfile remotefile asc s x ∧
      ∀ path, path ≠ localfile → localContent disk x path = localContent disk s path := by
    refine ⟨.cut content hopen (not_not.mp hready) hcontent hfile.localContent, fun path hp => ?_⟩
    exact hfile.localContent_other hp
  split_ifs
  · exact fun h => absurd rfl h
  · exact fun _ => hfailed

/-- A server that no longer has the file. -/
def missingNetwork : Network Unit :=
  { unacceptedNetwork with
    answer := fun line => pure
      (if (ascii "USER").isPrefixOf line then .checked 230 [] (Eq.refl true)
      else if (ascii "RETR").isPrefixOf line then .checked 550 [] (Eq.refl true)
      else .checked 200 [] (Eq.refl true)) }

def missingStart : Client Unit :=
  { net := (), sess := startSession false false (ascii "u") (ascii "p") [⟨.ipv4, [127, 0, 0, 1]⟩] }

def missingRun : FtpCode × Client Unit :=
  (ftpGet missingNetwork (ascii "a") (ascii "a") false).run missingStart

/-- The changed local file was emptied for it. -/
theorem refused_download_empties :
    missingRun.1 = .error ∧
      localContent (fun _ => some (ascii "mine")) missingStart (ascii "a") = some (ascii "mine") ∧
      localContent (fun _ => some (ascii "mine")) missingRun.2 (ascii "a") = some [] := by
  decide +kernel

end Downloads

/-! ### Sessions on which nothing is unread -/

/-- Every command on record is one line. -/
def OneLines (tr : List Event) : Prop :=
  ∀ cmd unread, .command cmd unread ∈ tr → commandLines [] cmd = [cmd]

lemma OneLines.of_suffix {tr tr' : List Event} (h : OneLines tr) (hs : tr' <:+ tr) :
    OneLines tr' := fun cmd unread hmem => h cmd unread (hs.subset hmem)

lemma OneLines.command {cmd : Text} {s t : Client ω} (h : OneLines t.trace)
    (hs : (wrote cmd s).trace <:+ t.trace) : commandLines [] cmd = [cmd] ∧ OneLines s.trace := by
  have hwrote := h.of_suffix hs
  exact ⟨hwrote cmd s.unread (by simp [wrote]), hwrote.of_suffix (List.suffix_cons _ _)⟩

/-- Nothing is unread. -/
def Idle (s : Client ω) : Prop := OneLines s.trace → s.unread = []

/-- The server has accepted the transfer `cmd`, and what it has sent since is the final reply. -/
def Accepted (cmd : Text) (s : Client ω) (tr : List Event) : Prop :=
  ∃ (r f : Reply) (dir : Text) (before : List Event),
    tr = .reply (.reply s.sent) (r.lines (.reply s.sent)) :: .answer cmd r.code dir ::
      .command cmd [] :: before ∧
    readyCode r.code = true ∧ s.unread = f.lines (.final s.sent)

section Idle
variable {cmd : Text} {s t : Client ω}

lemma Idle.alike (h : Idle s) (ht : Alike s t) : Idle t := by
  intro hone
  rw [ht.unread]
  exact h (ht.trace ▸ hone)

lemma idle_of_unread (h : t.unread = []) : Idle t := fun _ => h

/-- A transfer that broke off left nothing to read, and one that is accepted only the final
reply. Another command leaves nothing in any case. -/
theorem runCommand_idle (hs : Idle s) :
    Ends (runCommand net cmd) s fun ret t =>
      (isTransfer cmd = false ∨ ret = .broken → Idle t) ∧
        (isTransfer cmd = true → ret = .ready → OneLines t.trace → Accepted cmd t t.trace) := by
  by_cases hone : commandLines [] cmd = [cmd] ∧ OneLines s.trace
  swap
  · apply (runCommand_onward cmd s).mono
    intro ret t ht
    exact ⟨fun _ h => absurd (h.command ht.trace) hone, fun _ _ h => absurd (h.command ht.trace) hone⟩
  have hunread := hs hone.2
  apply (runCommand_outcome hone.1 hunread).mono
  intro ret t ht
  have hfault : IsFault ret → ret ≠ .ready := by
    rintro (rfl | rfl) <;> decide
  cases ht with
  | unsent hret ht =>
    exact ⟨fun _ => idle_of_unread ht.unread, fun _ h => absurd h (hfault hret)⟩
  | lost code hret ht =>
    exact ⟨fun _ => idle_of_unread ht.unread, fun _ h => absurd h (hfault hret)⟩
  | refused r hret hcode ht =>
    exact ⟨fun _ => idle_of_unread ht.unread, fun _ h => absurd h (hfault (.inl hret))⟩
  | read r finals hret hcode hfinals ht =>
    constructor
    · intro hcases
      have hsimple : isTransfer cmd = false :=
        hcases.resolve_right fun h => hcode (hret.broken.mp h)
      refine idle_of_unread (ht.unread.trans ?_)
      simpa [Finals, hsimple, hasRead] using hfinals
    · intro htransfer hready _
      have hcode := hret.ready.mp hready
      have hrange : 100 ≤ r.code ∧ r.code < 200 := by
        rw [readyCode, decide_eq_true_eq, List.mem_cons, List.mem_singleton] at hcode
        omega
      rw [Finals, if_pos (by simp [htransfer, hrange])] at hfinals
      obtain ⟨f, hf⟩ := hfinals
      have hsent : t.sent = s.sent + 1 := ht.sent
      refine ⟨r, f, s.dir, s.trace, ?_, hcode, ?_⟩
      · rw [ht.trace, hsent, ← hunread]
        rfl
      · rw [ht.unread, hsent, ← hf]
        rfl

theorem idle_dialling (net : Network ω) : Dialling net Idle where
  alike ht hs := hs.alike ht
  hangUp _ := idle_of_unread rfl
  enter hcmd _ hs := by
    apply (runCommand_idle hs).mono
    intro ret t ht
    apply ht.1
    obtain hq | hq := hcmd
    · exact .inl ((quiet_invariant net).verb hq (by decide)).2
    · exact .inl ((quiet_invariant net).verb hq (by decide)).2
  redial _ hs := hs
  greet r _ _ := idle_of_unread rfl
  login dir _ _ hs := fun hone => hs (hone.of_suffix (List.suffix_cons _ _))

lemma idle_ftpOpen : OpenRule Idle (ftpOpen net) := by
  apply (idle_dialling net).ftpOpen
  intro cmd s hcmd hs
  apply (runCommand_idle hs).mono
  intro ret t ht
  exact ht.1 (.inl ((quiet_invariant net).verb hcmd (by decide)).2)

lemma execute_idle (htransfer : isTransfer (printInto 1024 cmd) = false) (hs : Idle s) :
    Ends (execute net cmd) s fun _ t => Idle t := by
  have hturn : ∀ s : Client ω, Idle s → s.sess.connected = true →
      Ends (runCommand net (printInto 1024 cmd)) s fun _ t => Idle t := by
    intro s hs _
    exact (runCommand_idle hs).mono fun ret t ht => ht.1 (.inl htransfer)
  exact (executeWith_keeps idle_ftpOpen hturn hs).mono fun _ _ h => h.1

lemma setMode_idle (mode : TranMode) (hs : Idle s) :
    Ends (setMode net mode) s fun _ t => Idle t := by
  have hexec : ∀ s : Client ω, Idle s → Ends (execute net (typeCommand mode)) s fun ret t =>
      Idle t ∧ (ret = .ok → t.sess.connected = true) := by
    intro s hs
    apply executeWith_keeps idle_ftpOpen ?_ hs
    intro s hs _
    apply (runCommand_idle hs).mono
    intro ret t ht
    exact ht.1 (.inl ((quiet_invariant net).verb (typeCommand_starts mode) (by decide)).2)
  exact (setModeWith_keeps (fun ht hs => hs.alike ht) hexec hs).mono fun _ _ h => h.1

/-- `execute` of a transfer: what `ftp_open` returns may be taken for the code of the transfer,
but then nothing is left to read. -/
lemma execute_accepted (htransfer : isTransfer (printInto 1024 cmd) = true) (hs : Idle s) :
    Ends (execute net cmd) s fun ret t => ret = .ready → OneLines t.trace →
      t.unread = [] ∨ Accepted (printInto 1024 cmd) t t.trace := by
  have hturn : ∀ s : Client ω, Idle s → s.sess.connected = true →
      Ends (runCommand net (printInto 1024 cmd)) s fun ret t =>
        (ret = .broken → Idle t) ∧
          (ret = .ready → OneLines t.trace → Accepted (printInto 1024 cmd) t t.trace) := by
    intro s hs _
    apply (runCommand_idle hs).mono
    exact fun ret t ht => ⟨fun h => ht.1 (.inr h), ht.2 htransfer⟩
  apply (executeWith_ends idle_ftpOpen hturn (fun _ h => h.1 rfl) hs).mono
  rintro ret t (⟨_, ht⟩ | ⟨got, ht, rfl⟩) hready hone
  · exact .inl (ht hone)
  · split_ifs at hready with hbroken
    exact .inr (ht.2 hready hone)

lemma askEpsv_idle (hs : Idle s) : Ends (askEpsv net) s fun _ t => Idle t := by
  simp only [askEpsv, ends_bind, ends_get, ends_ite, ends_updateSession, ends_pure]
  split_ifs
  · apply (execute_idle (by decide) hs).mono
    exact fun ret t ht => ht.alike ⟨rfl, rfl, rfl, rfl, rfl, rfl, rfl⟩
  · exact hs

lemma askPasv_idle (ret : FtpCode) (hs : Idle s) :
    Ends (askPasv net ret) s fun _ t => Idle t := by
  simp only [askPasv, ends_bind, ends_get, ends_ite, ends_pure]
  split_ifs
  · exact execute_idle (by decide) hs
  · exact hs

lemma maybeChdir_idle (fn : Text) (hs : Idle s) :
    Ends (maybeChdir net fn) s fun _ t => Idle t := by
  have hcwd : isTransfer (printInto 1024 (ascii "CWD " ++ (splitSlash fn).1)) = false :=
    isTransfer_printInto _ _ (by decide) (by decide) (by decide)
  simp only [maybeChdir, ends_bind, ends_get, ends_ite, ends_updateSession, ends_pure]
  split_ifs
  · exact hs
  · exact (execute_idle hcwd hs).mono fun ret t ht => ht
  · exact hs

end Idle

/-! ### Transfers that are complete -/

section Transfers
variable {verb cmd command : Text} {s t : Client ω}

/-- The data connection is that of the transfer that was accepted last. -/
def Pending (cmd : Text) (s : Client ω) : Prop :=
  ∃ opened tr, (opened = [] ∨ opened = [.accepted true]) ∧ s.trace = opened ++ tr ∧
    Accepted cmd s tr

lemma Pending.alike (h : Pending cmd s) (ht : Alike s t) : Pending cmd t := by
  obtain ⟨opened, tr, hopened, htrace, hacc⟩ := h
  refine ⟨opened, tr, hopened, ht.trace.trans htrace, ?_⟩
  unfold Accepted
  rw [ht.sent, ht.unread]
  exact hacc

/-- Nothing was sent on it yet. -/
def Opened (cmd : Text) (s : Client ω) : Prop := s.data = [] ∧ Pending cmd s

lemma pending_of_opened (h : OneLines s.trace → s.unread = [] ∨ Opened cmd s) (ht : Alike s t) :
    OneLines t.trace → t.unread = [] ∨ Pending cmd t := by
  rw [ht.trace, ht.unread]
  exact fun hone => (h hone).imp_right fun hopened => hopened.2.alike ht

lemma verb_kept {q t : Text} (h : q.length ≤ 1023) :
    q <+: printInto 1024 (printInto bufsiz (q ++ t)) := by
  have hlen : q.length ≤ bufsiz - 1 := by
    rw [bufsiz]
    omega
  obtain ⟨rest, hrest⟩ := prefix_printInto (t := t) hlen
  rw [← hrest]
  exact prefix_printInto (by omega)

lemma isTransfer_of_verb (hverb : verb ∈ [ascii "STOR ", ascii "RETR "]) (h : verb <+: cmd) :
    isTransfer cmd = true := by
  rw [List.mem_cons, List.mem_singleton] at hverb
  rw [isTransfer]
  rcases hverb with rfl | rfl
  · simp [List.isPrefixOf_iff_prefix.mpr h]
  · simp [List.isPrefixOf_iff_prefix.mpr h]

lemma dtpOpenActive_opened (htransfer : isTransfer (printInto 1024 command) = true) (hs : Idle s) :
    Ends (dtpOpenActive net command) s fun ret t => ret = .ready → OneLines t.trace →
      t.unread = [] ∨ Opened (printInto 1024 command) t := by
  simp only [dtpOpenActive, ends_bind, ends_ite, ends_pure]
  apply (idle_ftpOpen s hs).mono
  rintro ret t ⟨ht, _⟩
  split_ifs
  · exact fun _ hone => .inl (ht hone)
  rw [ends_outside]
  refine Ends.of_forall fun numbers w => ?_
  cases numbers with
  | none =>
    rw [ends_pure]
    rintro ⟨⟩
  | some numbers =>
    have hport : isTransfer (printInto 1024 (portCommand numbers)) = false :=
      isTransfer_printInto _ _ (by decide) (by decide) (by decide)
    simp only [ends_bind, ends_ite, ends_pure]
    apply (execute_idle hport (s := { t with net := w }) ht).mono
    intro ret u hu
    split_ifs
    · exact fun _ hone => .inl (hu hone)
    apply (execute_accepted htransfer hu).mono
    intro ret v hv
    split_ifs with hready
    · exact fun h => absurd h hready
    simp only [ends_modify, ends_outside, ends_record]
    refine Ends.of_forall fun success w => ?_
    split_ifs with hsuccess
    · intro _ hone
      have hbefore : OneLines v.trace := hone.of_suffix (List.suffix_cons _ _)
      apply (hv (not_not.mp hready) hbefore).imp id
      intro hacc
      exact ⟨rfl, [.accepted true], v.trace, .inr rfl, by rw [hsuccess]; rfl, hacc⟩
    · exact fun h => absurd h (by decide)

/-- An open data connection belongs to the transfer, unless nothing is left to read. -/
theorem ftpDataOpen_opened
    (htransfer : isTransfer (printInto 1024 (printInto bufsiz command)) = true) (hs : Idle s) :
    Ends (ftpDataOpen net command) s fun ret t => ret = .ready → OneLines t.trace →
      t.unread = [] ∨ Opened (printInto 1024 (printInto bufsiz command)) t := by
  simp only [ftpDataOpen, ends_bind, ends_get, ends_ite, ends_pure]
  split_ifs
  swap
  · exact dtpOpenActive_opened htransfer hs
  apply (askEpsv_idle hs).mono
  intro ret t ht
  apply (askPasv_idle ret ht).mono
  intro ret u hu
  split_ifs
  · exact fun h => absurd h (by decide)
  simp only [dtpOpenPassive, ends_bind, ends_get, ends_modify, ends_outside]
  refine Ends.of_forall fun success w => ?_
  split_ifs
  · have hidle : Idle { u with data := [], net := w } := hu
    apply ((execute_accepted htransfer hidle).and ((execute_leaves _).data _)).mono
    rintro ret v ⟨hv, hdata⟩ hready hone
    apply (hv hready hone).imp id
    exact fun hacc => ⟨hdata, [], v.trace, .inl rfl, rfl, hacc⟩
  · exact fun h => absurd h (by decide)

/-- The codes of a positive completion. -/
def Positive (code : ℕ) : Prop := 200 ≤ code ∧ code < 300

/-- The record of a transfer that went through: the server accepted its command, the data
connection was closed without an error, and then came the final reply of this transfer, a
positive completion. -/
def Completed (verb : Text) (tr : List Event) : Prop :=
  ∃ (n : ℕ) (r f : Reply) (cmd dir : Text) (opened before : List Event),
    tr = .reply (.final n) (f.lines (.final n)) :: .dataClosed true :: (opened ++
      .reply (.reply n) (r.lines (.reply n)) :: .answer cmd r.code dir :: .command cmd [] :: before) ∧
    verb <+: cmd ∧ readyCode r.code = true ∧ Positive f.code ∧
    (opened = [] ∨ opened = [.accepted true])

lemma parseReply_sent (code : ℕ) (s : Client ω) :
    Ends (parseReply net code) s fun ret _ => ret = .ok ∨ ret = .sent → Positive code := by
  unfold parseReply Positive
  split
  case h_14 =>
    simp only [ends_bind, ends_closePi, ends_pure]
    exact fun h => absurd h (by decide)
  case h_16 =>
    apply (parseModtime_alike s).mono
    intro ret t h hret
    omega
  case h_17 => exact Ends.of_forall fun _ _ _ => by omega
  case h_18 => exact Ends.of_forall fun _ _ _ => by omega
  all_goals
    rw [ends_pure]
    first
      | exact fun _ => by omega
      | exact fun h => absurd h (by decide)

/-- When `dtp_close` finds the connection broken, nothing is left to read. -/
lemma dtpClose_broken (s : Client ω) :
    Ends (dtpClose net) s fun ret t => ret = .broken → t.unread = [] := by
  have hread : ∀ s : Client ω, Ends (readReply net (.final s.sent)) s fun res t =>
      ∀ ret, res = .error ret → t.unread = [] := by
    intro s
    simp only [readReply, ends_bind, ends_get, ends_outside, ends_modify]
    refine Ends.of_forall fun r w => ?_
    cases r.result with
    | error e =>
      simp only [ends_bind, ends_closePi, ends_pure]
      exact fun _ _ => trivial
    | ok code =>
      simp only [ends_bind, ends_record, ends_pure]
      rintro _ ⟨⟩
  simp only [dtpClose, ends_bind, ends_outside, ends_record, ends_ite, ends_pure]
  refine Ends.of_forall fun success w => ?_
  split_ifs
  · rintro ⟨⟩
  rw [ends_get]
  apply (hread _).mono
  intro res t ht
  cases res with
  | error ret => exact fun _ => ht ret rfl
  | ok code =>
    simp only [ends_bind, ends_ite, ends_pure]
    refine Ends.of_forall fun ret u => ?_
    split_ifs
    · rintro ⟨⟩
    · rintro ⟨⟩

/-- With nothing to read `dtp_close` does not succeed. -/
lemma dtpClose_heard (s : Client ω) :
    Ends (dtpClose net) s fun ret _ => ret = .sent → s.unread ≠ [] := by
  by_cases hs : s.unread = []
  swap
  · exact Ends.of_forall fun _ _ _ => hs
  simp only [dtpClose, ends_bind, ends_outside, ends_record, ends_ite, ends_pure]
  refine Ends.of_forall fun success w => ?_
  split_ifs
  · rintro ⟨⟩
  rw [ends_get]
  apply (readReply_nothing _ (by exact hs)).mono
  rintro res t ⟨ret, rfl, rfl | rfl, _⟩
  · rintro ⟨⟩
  · rintro ⟨⟩

/-- With a final reply to read it succeeds if that is a positive completion. -/
lemma dtpClose_final {f : Reply} (hs : s.unread = f.lines (.final s.sent)) :
    Ends (dtpClose net) s fun ret t => ret = .sent → Positive f.code ∧
      t.trace = .reply (.final s.sent) (f.lines (.final s.sent)) :: .dataClosed true :: s.trace := by
  simp only [dtpClose, ends_bind, ends_outside, ends_record, ends_ite, ends_pure]
  refine Ends.of_forall fun success w => ?_
  cases success with
  | false =>
    rw [if_pos (by decide)]
    rintro ⟨⟩
  | true =>
    rw [if_neg (by decide), ends_get]
    apply (readReply_only _ (by exact hs)).mono
    rintro res t (⟨ret, rfl, rfl | rfl, _⟩ | ⟨rfl, ht⟩)
    · rintro ⟨⟩
    · rintro ⟨⟩
    · simp only [ends_bind, ends_ite, ends_pure]
      apply ((parseReply_sent f.code t).and (parseReply_parsed f.code t)).mono
      rintro ret u ⟨hpositive, _, hu⟩
      have htrace : u.trace = t.trace := by
        rw [hu.trace]
        split_ifs <;> rfl
      split_ifs with hret
      · exact fun _ => ⟨hpositive hret, htrace.trans ht.trace⟩
      · rintro ⟨⟩

/-- A transfer for which a data connection was opened, and whose end `dtp_close` reports as a
success, is complete. -/
theorem dtpClose_completed (hverb : verb <+: cmd)
    (hs : OneLines s.trace → s.unread = [] ∨ Pending cmd s) :
    Ends (dtpClose net) s fun ret t => ret = .sent → OneLines t.trace → Completed verb t.trace := by
  by_cases hone : OneLines s.trace
  swap
  · apply (dtpClose_onward s).mono
    rintro ret t ⟨success, ht⟩ _ hone'
    exact absurd (hone'.of_suffix ((List.suffix_cons _ _).trans ht.trace)) hone
  obtain hnone | ⟨opened, tr, hopened, htrace, r, f, dir, before, rfl, hready, hunread⟩ := hs hone
  · exact (dtpClose_heard s).mono fun ret t h hret => absurd hnone (h hret)
  · apply (dtpClose_final hunread).mono
    intro ret t ht hret _
    obtain ⟨hpositive, ht⟩ := ht hret
    exact ⟨s.sent, r, f, cmd, dir, opened, before, by rw [ht, htrace], hverb, hready, hpositive,
      hopened⟩

end Transfers

/-! ### Downloads that succeed -/

section Completed
variable {localfile remotefile : Text} {asc : Bool} {disk : Text → Option Text} {s : Client ω}

/-- The command of a transfer, as it is sent. -/
def transferCommand (verb path : Text) : Text := printInto 1024 (printInto bufsiz (verb ++ path))

lemma ftpDataOpen_verb {verb : Text} (hverb : verb ∈ [ascii "STOR ", ascii "RETR "]) (path : Text)
    (hs : Idle s) :
    Ends (ftpDataOpen net (verb ++ path)) s fun ret t => ret = .ready → OneLines t.trace →
      t.unread = [] ∨ Opened (transferCommand verb path) t := by
  have hlen : verb.length ≤ 1023 := by
    rw [List.mem_cons, List.mem_singleton] at hverb
    rcases hverb with rfl | rfl <;> decide
  exact ftpDataOpen_opened (isTransfer_of_verb hverb (verb_kept hlen)) hs

lemma openDownload_opened (net : Network ω) (remotefile : Text) (asc : Bool) (hs : Idle s) :
    Ends (openDownload net remotefile asc) s fun ret t => ret = .ready → OneLines t.trace →
      t.unread = [] ∨ Opened (transferCommand (ascii "RETR ") remotefile) t := by
  simp only [openDownload, ends_bind, ends_ite, ends_pure]
  apply (setMode_idle _ hs).mono
  intro ret t ht
  split_ifs
  · rintro ⟨⟩
  · exact ftpDataOpen_verb (by simp) remotefile ht

lemma retr_sent : ascii "RETR " <+: transferCommand (ascii "RETR ") remotefile :=
  verb_kept (by decide)

/-- A download that returns `FTP_OK` is complete, and the file holds what was received. -/
theorem ftpGet_complete (hs : Idle s) :
    Ends (ftpGet net localfile remotefile asc) s fun ret t => OneLines t.trace → ret = .ok →
      Completed (ascii "RETR ") t.trace ∧
      (received net ((openDownload net remotefile asc).run (emptied net localfile s)).2.net).2 =
        .closed ∧
      localContent disk t localfile = some (received net
        ((openDownload net remotefile asc).run (emptied net localfile s)).2.net).1.flatten := by
  rw [ends_ftpGet]
  split_ifs
  · exact nofun
  have hcreated := openDownload_created net remotefile asc (emptied net localfile s)
  have hemptied : Idle (emptied net localfile s) := hs
  have hopened := openDownload_opened net remotefile asc hemptied
  rw [ends_run] at hcreated hopened ⊢
  have hwrote := (emptied_wrote s).of_created hcreated
  split_ifs with hready
  · exact nofun
  have hpending := hopened (not_not.mp hready)
  apply ((receiveFile_wrote hwrote.written).and (receiveFile_still localfile _)).mono
  rintro ok u ⟨⟨content, hu, _, hok⟩, hstill⟩
  rw [ends_outside]
  refine Ends.of_forall fun clo w => ?_
  have halike := hstill.toAlike.trans (still_net u w).toAlike
  apply ((dtpClose_completed retr_sent (pending_of_opened hpending halike)).and
    (dtpClose_leaves.created _)).mono
  rintro dret x ⟨hcompleted, hx⟩
  split_ifs with hall
  swap
  · exact nofun
  intro hone _
  obtain ⟨hcontent, hclosed⟩ := hok hall.2.1
  have hfile : Wrote localfile content s x := (hwrote.trans hu).of_created hx
  refine ⟨hcompleted hall.1 hone, hclosed, ?_⟩
  rw [hfile.localContent, hcontent]

/-- The same for `ftp_read_file` and the blocks that the reader gets. -/
theorem ftpReadFile_complete (hs : Idle s) :
    Ends (ftpReadFile net remotefile) s fun r t => OneLines t.trace → r.1 = .ok →
      Completed (ascii "RETR ") t.trace ∧
      (received net ((openDownload net remotefile false).run s).2.net).2 = .closed ∧
      r.2 = (received net ((openDownload net remotefile false).run s).2.net).1 := by
  have hends (Q : FtpCode × List Text → Client ω → Prop) :
      Ends (ftpReadFile net remotefile) s Q ↔
        Ends (openDownload net remotefile false) s fun ret t =>
          if ret ≠ .ready then Q (.error, []) t
          else Ends (outside net.dtpRead) t fun r u =>
            Ends (dtpClose net) u fun dret v =>
              Q (if dret = .sent ∧ r.2 = .closed then .ok else .error, r.1) v := by
    simp only [ftpReadFile, openDownload, ends_bind, ends_outside, ends_ite, ends_pure, ne_eq,
      reduceCtorEq, not_false_eq_true, if_true]
    exact Iff.rfl
  have hopened := openDownload_opened net remotefile false hs
  rw [hends]
  rw [ends_run] at hopened ⊢
  split_ifs with hready
  · rintro _ ⟨⟩
  have hpending := hopened (not_not.mp hready)
  generalize ((openDownload net remotefile false).run s).2 = u at hpending ⊢
  rw [ends_outside, ends_run]
  have halike := (still_net u (net.dtpRead.run u.net).2).toAlike
  apply (dtpClose_completed retr_sent (pending_of_opened hpending halike)).mono
  intro dret x hcompleted hone hret
  dsimp only at hret
  split_ifs at hret with hall
  exact ⟨hcompleted hall.1 hone, hall.2, rfl⟩

end Completed

/-! ### Uploads that succeed -/

section Uploads
variable {localfile remotefile content : Text} {s : Client ω}

/-- Cutting a text into pieces loses nothing. -/
lemma pieces_flatten (stop : UInt8 → Bool) (max : ℕ) (acc t : Text) :
    (pieces stop max acc t).flatten = acc ++ t := by
  induction t generalizing acc with
  | nil =>
    rw [pieces]
    split_ifs with hacc
    · rw [hacc]
      rfl
    · simp
  | cons b t ih =>
    rw [pieces]
    split_ifs
    · rw [List.flatten_cons, ih, List.append_assoc]
      rfl
    · rw [ih, List.append_assoc]
      rfl

lemma sendBuffers_data (buffers : List Text) (s : Client ω) :
    Ends (sendBuffers net buffers) s fun ok t => ok = true → t.data = s.data ++ buffers.flatten := by
  induction buffers generalizing s with
  | nil =>
    rw [sendBuffers, ends_pure]
    simp
  | cons buffer rest ih =>
    simp only [sendBuffers, ends_bind, ends_outside]
    refine Ends.of_forall fun fault w => ?_
    cases fault with
    | some e =>
      rw [ends_pure]
      exact nofun
    | none =>
      rw [ends_bind, ends_modify]
      apply (ih _).mono
      intro ok t ht hok
      rw [ht hok, List.flatten_cons, List.append_assoc]

/-- `send_file_binary` returns zero only when the whole file was written. -/
lemma sendFile_data (s : Client ω) :
    Ends (sendFile net false content) s fun ok t => ok = true → t.data = s.data ++ content := by
  simp only [sendFile, ends_bind, ends_outside, ends_pure, Bool.false_eq_true, if_false]
  refine Ends.of_forall fun fault w => ?_
  apply (sendBuffers_data _ _).mono
  intro ok t ht hok
  cases fault with
  | some n => simp at hok
  | none =>
    rw [Bool.and_eq_true] at hok
    rw [ht hok.1, pieces_flatten, List.nil_append]

/-- The data connection of the upload got the whole file, and the upload is complete. -/
def Stored (content : Text) (t : Client ω) (tr : List Event) : Prop :=
  OneLines tr → t.data = content ∧ Completed (ascii "STOR ") tr

/-- One turn of the loop of `ftp_put`. -/
lemma putAttempt_stored (hs : Idle s) :
    Ends (putAttempt net false content remotefile) s fun r t =>
      (r.1 = .error .ok → Stored content t t.trace) ∧ (r.1 = .ok .broken → Idle t) := by
  simp only [putAttempt, ends_bind]
  apply (maybeChdir_idle remotefile hs).mono
  rintro ⟨ret, name⟩ t ht
  dsimp only
  rw [ends_ite]
  split_ifs with hret
  · rw [ends_pure]
    exact ⟨fun h => absurd (Except.error.inj h) hret, (by rintro ⟨⟩)⟩
  simp only [ends_bind, ends_record, ends_ite, ends_pure]
  have hlocated : Idle (mark .located t) := fun hone => ht (hone.of_suffix (List.suffix_cons _ _))
  have hstor : ascii "STOR " ∈ [ascii "STOR ", ascii "RETR "] := by simp
  apply (ftpDataOpen_verb hstor name hlocated).mono
  intro ret u hu
  split_ifs with hready
  swap
  · exact ⟨by rintro ⟨⟩, (by rintro ⟨⟩)⟩
  apply ((sendFile_data u).and (sendFile_still false content u)).mono
  rintro sent v ⟨hdata, hstill⟩
  have hkept : ascii "STOR " <+: transferCommand (ascii "STOR ") name := verb_kept (by decide)
  have hclose : Ends (dtpClose net) v fun ret t => ret = .sent → OneLines t.trace →
      Completed (ascii "STOR ") t.trace :=
    dtpClose_completed hkept (pending_of_opened (hu hready) hstill.toAlike)
  apply ((((hclose.and (dtpClose_broken v)).and (dtpClose_heard v)).and
    (dtpClose_leaves.data v)).and (dtpClose_onward v)).mono
  rintro dret x ⟨⟨⟨⟨hcompleted, hbroken⟩, hheard⟩, hx⟩, success, honward⟩
  split_ifs with hdone
  · refine ⟨fun _ hone => ⟨?_, hcompleted hdone.1 hone⟩, (by rintro ⟨⟩)⟩
    have hone : OneLines u.trace := by
      rw [← hstill.trace]
      exact hone.of_suffix ((List.suffix_cons _ _).trans honward.trace)
    obtain hnone | hopened := hu hready hone
    · exact absurd (hstill.unread.trans hnone) (hheard hdone.1)
    · rw [hx, hdata hdone.2, hopened.1, List.nil_append]
  · refine ⟨by rintro ⟨⟩, fun h => idle_of_unread (hbroken ?_)⟩
    exact Except.ok.inj h

/-- The loop of `ftp_put`, in which every attempt sends the file from its start. -/
lemma putLoop_stored (n : ℕ) (again : Bool) (remotefile : Text) (s : Client ω) (hs : Idle s) :
    Ends (putLoop net false content n again remotefile) s fun ret t =>
      ret = .ok → Stored content t t.trace := by
  induction n generalizing again remotefile s with
  | zero =>
    rw [putLoop, ends_pure]
    rintro ⟨⟩
  | succ n ih =>
    have hrewind : Ends (rewind net again) s fun _ t => Idle t := by
      unfold rewind
      rw [ends_ite]
      split_ifs
      · rw [ends_outside]
        exact Ends.of_forall fun placed w => hs
      · exact hs
    simp only [putLoop, ends_bind, ends_ite, ends_pure]
    apply hrewind.mono
    intro placed t ht
    split_ifs
    · rintro ⟨⟩
    apply (putAttempt_stored ht).mono
    rintro ⟨res, name⟩ u ⟨hstored, hbroken⟩
    cases res with
    | error ret =>
      rw [ends_pure]
      intro hret
      exact hstored (by rw [hret])
    | ok dret =>
      dsimp only
      rw [ends_ite]
      split_ifs with hagain
      · exact ih true name u (hbroken (by rw [hagain]))
      · rw [ends_pure]
        rintro ⟨⟩

/-- An upload that returns `FTP_OK` is complete, and the server was sent the file. -/
theorem ftpPut_complete (hs : Idle s)
    (hfile : ∀ w, ∀ c ∈ ((net.fopen localfile).run w).1, c = content) :
    Ends (ftpPut net localfile remotefile false) s fun ret t => ret = .ok →
      Stored content t t.trace.tail := by
  have hput : Idle (mark (.put remotefile) s) :=
    fun hone => hs (hone.of_suffix (List.suffix_cons _ _))
  simp only [ftpPut, putFile, ends_bind, ends_record, ends_ite, ends_pure, Bool.false_eq_true,
    if_false]
  apply (setMode_idle .binary hput).mono
  intro ret t ht
  split_ifs
  · rintro ⟨⟩
  rw [ends_outside, ends_run]
  have hcontent := hfile t.net
  generalize (net.fopen localfile).run t.net = opened at hcontent ⊢
  obtain ⟨c, w⟩ := opened
  cases c with
  | none =>
    rw [ends_pure]
    rintro ⟨⟩
  | some c =>
    obtain rfl : c = content := hcontent c rfl
    simp only [ends_bind, ends_outside, ends_ite, ends_pure]
    refine Ends.of_forall fun sized w => ?_
    split_ifs
    · rintro ⟨⟩
    · apply (putLoop_stored 3 false remotefile _ (by exact ht)).mono
      exact fun ret u hu hret => hu hret

end Uploads

/-- A server that takes everything. -/
def acceptingNetwork : Network Unit :=
  { unacceptedNetwork with
    answer := fun line => pure
      (if (ascii "USER").isPrefixOf line then .checked 230 [] (Eq.refl true)
      else if isTransfer line then .checked 150 [] (Eq.refl true)
      else .checked 200 [] (Eq.refl true))
    accept := pure true
    dtpRead := pure ([ascii "from", ascii "there"], .closed) }

/-! ### A path that is more than one line -/

lemma Completed.accepted {verb : Text} {tr : List Event} (h : Completed verb tr) :
    ∃ cmd code dir, .answer cmd code dir ∈ tr ∧ verb <+: cmd ∧ readyCode code = true := by
  obtain ⟨n, r, f, cmd, dir, opened, before, rfl, hverb, hready, _⟩ := h
  exact ⟨cmd, r.code, dir, by simp, hverb, hready⟩

def accepts (verb : Text) : Event → Bool
  | .answer cmd code _ => verb.isPrefixOf cmd && readyCode code
  | _ => false

/-- A server that refuses every upload. -/
def readOnlyNetwork : Network Unit :=
  { unacceptedNetwork with
    answer := fun line => pure
      (if (ascii "USER").isPrefixOf line then .checked 230 [] (Eq.refl true)
      else if (ascii "PASV").isPrefixOf line then
        .checked 227 (ascii "Passive (127,0,0,1,4,1)") (Eq.refl true)
      else if (ascii "LIST").isPrefixOf line then .checked 150 [] (Eq.refl true)
      else if (ascii "STOR").isPrefixOf line then .checked 550 [] (Eq.refl true)
      else .checked 200 [] (Eq.refl true)) }

def injectedStart : Client Unit :=
  { net := (), sess := startSession true true (ascii "u") (ascii "p") [⟨.ipv4, [127, 0, 0, 1]⟩] }

/-- The directory of the remote path holds two further commands. -/
def injectedRun : FtpCode × Client Unit :=
  (ftpPut readOnlyNetwork (ascii "f")
    (ascii "/a" ++ [13, 10] ++ ascii "PASV" ++ [13, 10] ++ ascii "LIST x/f") false).run injectedStart

end Sitecopy.FtpCompletion
