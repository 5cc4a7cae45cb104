import Sitecopy.FtpRules

/-!
# Invariants across FTP operations

The rules for data connections, for `ftp_put` with its two phases, before and after
`maybe_chdir`, and for runs of any operations.
-/
namespace Sitecopy.FtpRules
open SiteModel SiteOperations Numerals StateProgram FtpSession FtpTransfer FtpReplies

variable {ω κ : Type} {net : Network ω}

/-! ### Data that is sent and received -/

/-- What was done concerns the data connection and local files only. -/
structure Still (s t : Client ω) : Prop extends Alike s t where
  mode : t.sess.mode = s.sess.mode

lemma Still.rfl {s : Client ω} : Still s s := ⟨Alike.rfl, .refl _⟩

lemma Still.trans {s t u : Client ω} (h : Still s t) (g : Still t u) : Still s u :=
  ⟨h.toAlike.trans g.toAlike, g.mode.trans h.mode⟩

lemma still_net (s : Client ω) (w : ω) : Still s { s with net := w } :=
  ⟨⟨rfl, rfl, rfl, rfl, rfl, rfl, rfl⟩, rfl⟩

lemma sendBuffers_still (buffers : List Text) (s : Client ω) :
    Ends (sendBuffers net buffers) s fun _ t => Still s t := by
  induction buffers generalizing s with
  | nil => exact Still.rfl
  | cons buffer rest ih =>
    simp only [sendBuffers, ends_bind, ends_outside]
    refine Ends.of_forall fun fault w => ?_
    cases fault with
    | some e => exact still_net s w
    | none =>
      simp only [ends_bind, ends_modify]
      have hs : Still s { s with net := w, data := s.data ++ buffer } :=
        ⟨⟨rfl, rfl, rfl, rfl, rfl, rfl, rfl⟩, rfl⟩
      exact (ih _).mono fun _ t ht => hs.trans ht

lemma sendFile_still (asc : Bool) (content : Text) (s : Client ω) :
    Ends (sendFile net asc content) s fun _ t => Still s t := by
  simp only [sendFile, ends_bind, ends_outside, ends_pure]
  refine Ends.of_forall fun fault w => ?_
  exact (sendBuffers_still _ _).mono fun _ t ht => (still_net s w).trans ht

lemma setCreated_still (localfile content : Text) (s : Client ω) :
    Ends (setCreated localfile content) s fun _ t => Still s t :=
  ⟨⟨rfl, rfl, rfl, rfl, rfl, rfl, rfl⟩, rfl⟩

lemma writeBlocks_still (localfile content : Text) (blocks : List Text) (s : Client ω) :
    Ends (writeBlocks net localfile content blocks) s fun _ t => Still s t := by
  induction blocks generalizing content s with
  | nil => exact Still.rfl
  | cons block rest ih =>
    simp only [writeBlocks, ends_bind, ends_outside]
    refine Ends.of_forall fun fault w => ?_
    have hw := still_net s w
    cases fault with
    | some n => exact (setCreated_still _ _ _).mono fun _ t ht => hw.trans ht
    | none =>
      rw [ends_bind]
      refine (setCreated_still _ _ _).mono fun _ t ht => ?_
      exact (ih _ t).mono fun _ u hu => (hw.trans ht).trans hu

lemma receiveFile_still (localfile : Text) (s : Client ω) :
    Ends (receiveFile net localfile) s fun _ t => Still s t := by
  simp only [receiveFile, ends_bind, ends_outside, ends_pure]
  refine Ends.of_forall fun r w => ?_
  exact (writeBlocks_still localfile _ _ _).mono fun _ t ht => (still_net s w).trans ht

/-! ### The end of a transfer -/

/-- How `dtp_close` ends when nothing but a final reply can be unread. -/
inductive CloseOutcome (s t : Client ω) : Prop
  | skipped (ht : Alike (mark (.dataClosed false) s) t)
  | lost (ht : Alike (hungUp (mark (.dataClosed true) s)) t)
  | refused (f : Reply) (ht : Alike (hungUp (hasRead (.final s.sent) (f.lines (.final s.sent)) []
      (mark (.dataClosed true) s))) t)
  | read (f : Reply) (ht : Alike (hasRead (.final s.sent) (f.lines (.final s.sent)) []
      (mark (.dataClosed true) s)) t)

lemma dtpClose_parsed {Q : Client ω → Prop} (code : ℕ) {s : Client ω}
    (h : Ends (parseReply net code) s fun _ t => Q t) :
    Ends (do
      let ret ← parseReply net code
      if ret = .ok ∨ ret = .sent then pure .sent else pure .error : Ftp ω FtpCode) s
      fun _ t => Q t := by
  simpa only [ends_bind, ends_ite, ends_pure, ite_self] using h

theorem dtpClose_outcome {s : Client ω}
    (hs : s.unread = [] ∨ ∃ f : Reply, s.unread = f.lines (.final s.sent)) :
    Ends (dtpClose net) s fun _ t => CloseOutcome s t := by
  simp only [dtpClose, ends_bind, ends_outside, ends_record]
  refine Ends.of_forall fun success w => ?_
  cases success with
  | false => exact .skipped ⟨rfl, rfl, rfl, rfl, rfl, rfl, rfl⟩
  | true =>
    simp only [Bool.not_true, Bool.false_eq_true, if_false, ends_bind, ends_get]
    obtain hnone | ⟨f, hf⟩ := hs
    · refine (readReply_nothing _ (by exact hnone)).mono fun res t ht => ?_
      obtain ⟨ret, rfl, -, ht⟩ := ht
      exact .lost ⟨ht.unread, ht.dir, ht.sent, ht.trace, ht.connected, ht.cwd, ht.useCwd⟩
    · refine (readReply_only _ (by exact hf)).mono fun res t ht => ?_
      obtain ⟨ret, rfl, -, ht⟩ | ⟨rfl, ht⟩ := ht
      · exact .lost ⟨ht.unread, ht.dir, ht.sent, ht.trace, ht.connected, ht.cwd, ht.useCwd⟩
      · refine dtpClose_parsed f.code ((parseReply_parsed f.code t).mono fun _ u hu => ?_)
        have hu := hu.2
        have ht : Alike (hasRead (.final s.sent) (f.lines (.final s.sent)) []
            (mark (.dataClosed true) s)) t :=
          ⟨ht.unread, ht.dir, ht.sent, ht.trace, ht.connected, ht.cwd, ht.useCwd⟩
        split_ifs at hu
        · exact .refused f ⟨hu.unread, hu.dir.trans ht.dir, hu.sent.trans ht.sent,
            hu.trace.trans ht.trace, hu.connected, hu.cwd.trans ht.cwd, hu.useCwd.trans ht.useCwd⟩
        · exact .read f (ht.trans hu)

/-- `dtp_close` on any connection. -/
theorem dtpClose_onward (s : Client ω) :
    Ends (dtpClose net) s fun _ t => ∃ success, Onward (mark (.dataClosed success) s) t := by
  simp only [dtpClose, ends_bind, ends_outside, ends_record]
  refine Ends.of_forall fun success w => ?_
  rw [ends_ite]
  split_ifs
  · exact ⟨success, List.suffix_refl _, id, rfl, rfl⟩
  simp only [ends_bind, ends_get]
  refine (readReply_onward _ _).mono fun res t ht => ?_
  have ht : Onward (mark (.dataClosed success) s) t := ⟨ht.trace, ht.connected, ht.cwd, ht.useCwd⟩
  cases res with
  | error ret => exact ⟨success, ht⟩
  | ok code =>
    exact dtpClose_parsed code ((parseReply_onward code t).mono fun _ u hu => ⟨success, ht.trans hu⟩)

/-- `dtp_close` puts the closing of the socket on record, and then what is said. -/
theorem dtpClose_said (s : Client ω) :
    Ends (dtpClose net) s fun _ t => ∃ success, Said (mark (.dataClosed success) s) t := by
  simp only [dtpClose, ends_bind, ends_outside, ends_record]
  refine Ends.of_forall fun success w => ?_
  rw [ends_ite]
  split_ifs
  · exact ⟨success, .of_trace rfl⟩
  simp only [ends_bind, ends_get]
  refine (readReply_said _ _).mono fun res t ht => ?_
  have ht : Said (mark (.dataClosed success) s) t := ht
  cases res with
  | error ret => exact ⟨success, ht⟩
  | ok code => exact dtpClose_parsed code ((parseReply_said code t).mono fun _ u hu => ⟨success, ht.trans hu⟩)

/-! ### Opening the data connection -/

section Rules
variable {sends : Text → Prop} {want : TranMode} {M I N T : Client ω → Prop}

/-- A data connection is opened from `I`; when it is negotiated `N` holds, and `T` once the
server has accepted the transfer. -/
structure DataRules (net : Network ω) (command : Text) (I N T : Client ω → Prop) : Prop where
  still : ∀ {s t}, Still s t → I s → I t
  still_negotiated : ∀ {s t}, Still s t → N s → N t
  still_due : ∀ {s t}, Still s t → T s → T t
  due : ∀ {s}, I s → T s
  ftpOpen : OpenRule I (ftpOpen net)
  port : ∀ {s} numbers, I s →
    Ends (execute net (portCommand numbers)) s fun ret t => I t ∧ (ret = .ok → N t)
  passive : ∀ {s}, ∀ cmd ∈ [ascii "EPSV", ascii "PASV"], I s →
    Ends (execute net cmd) s fun ret t => I t ∧ (ret = .passive → N t)
  transfer : ∀ {s}, N s → Ends (execute net (printInto bufsiz command)) s fun ret t =>
    if ret = .ready then T t else I t
  accepted : ∀ {s}, T s → T (mark (.accepted true) s)
  refused : ∀ {s}, T s → I (mark (.accepted false) s)

lemma DataRules.unready {command : Text} (rules : DataRules net command I N T) {s : Client ω}
    (hs : I s) (ret : FtpCode) : if ret = .ready then T s else I s := by
  split_ifs
  · exact rules.due hs
  · exact hs

theorem DataRules.dtpOpenActive {command : Text} (rules : DataRules net command I N T)
    {s : Client ω} (hs : I s) :
    Ends (dtpOpenActive net (printInto bufsiz command)) s fun ret t =>
      if ret = .ready then T t else I t := by
  simp only [FtpTransfer.dtpOpenActive, ends_bind, ends_ite, ends_pure]
  refine (rules.ftpOpen s hs).mono fun ret t ht => ?_
  by_cases hret : ret = .ok
  swap
  · rw [if_pos hret]
    exact rules.unready ht.1 ret
  rw [if_neg (not_not.mpr hret)]
  simp only [ends_outside]
  refine Ends.of_forall fun numbers w => ?_
  cases numbers with
  | none => exact rules.still (still_net t w) ht.1
  | some numbers =>
    simp only [ends_bind, ends_ite, ends_pure]
    refine (rules.port numbers (rules.still (still_net t w) ht.1)).mono fun ret u hu => ?_
    by_cases hret : ret = .ok
    swap
    · rw [if_pos hret]
      exact rules.unready hu.1 ret
    rw [if_neg (not_not.mpr hret)]
    refine (rules.transfer (hu.2 hret)).mono fun ret v hv => ?_
    by_cases hready : ret = .ready
    swap
    · rw [if_pos hready]
      simpa [hready] using hv
    rw [if_pos hready] at hv
    rw [if_neg (not_not.mpr hready)]
    simp only [ends_modify, ends_outside, ends_record]
    refine Ends.of_forall fun success w => ?_
    have hv : T { v with data := [], net := w } :=
      rules.still_due (s := v) ⟨⟨rfl, rfl, rfl, rfl, rfl, rfl, rfl⟩, rfl⟩ hv
    cases success with
    | true => exact rules.accepted hv
    | false => exact rules.refused hv

lemma DataRules.askEpsv {command : Text} (rules : DataRules net command I N T) {s : Client ω}
    (hs : I s) : Ends (askEpsv net) s fun ret t => I t ∧ (ret = .passive → N t) := by
  simp only [FtpTransfer.askEpsv, ends_bind, ends_get, ends_ite, ends_updateSession, ends_pure]
  split_ifs
  · refine (rules.passive (ascii "EPSV") (by simp) hs).mono fun ret t ht => ?_
    have hstill (r : Rfc2428Mode) : Still t { t with sess := { t.sess with rfc2428 := r } } :=
      ⟨⟨rfl, rfl, rfl, rfl, rfl, rfl, rfl⟩, rfl⟩
    exact ⟨rules.still (hstill _) ht.1, fun hret => rules.still_negotiated (hstill _) (ht.2 hret)⟩
  · exact ⟨hs, (by rintro ⟨⟩)⟩

lemma DataRules.askPasv {command : Text} (rules : DataRules net command I N T) {ret : FtpCode}
    {s : Client ω} (hs : I s ∧ (ret = .passive → N s)) :
    Ends (askPasv net ret) s fun ret t => I t ∧ (ret = .passive → N t) := by
  simp only [FtpTransfer.askPasv, ends_bind, ends_get, ends_ite, ends_pure]
  split_ifs
  · exact rules.passive (ascii "PASV") (by simp) hs.1
  · exact hs

/-- `ftp_data_open`. -/
theorem DataRules.ftpDataOpen {command : Text} (rules : DataRules net command I N T)
    {s : Client ω} (hs : I s) :
    Ends (ftpDataOpen net command) s fun ret t => if ret = .ready then T t else I t := by
  simp only [FtpTransfer.ftpDataOpen, ends_bind, ends_get]
  rw [ends_ite]
  split_ifs
  swap
  · exact rules.dtpOpenActive hs
  rw [ends_bind]
  refine (rules.askEpsv hs).mono fun ret t ht => ?_
  rw [ends_bind]
  refine (rules.askPasv ht).mono fun ret u hu => ?_
  rw [ends_ite]
  split_ifs with hret
  · exact hu.1
  simp only [ends_bind, dtpOpenPassive, ends_get, ends_modify, ends_outside]
  refine Ends.of_forall fun success w => ?_
  have hstill : Still u { u with data := [], net := w } :=
    ⟨⟨rfl, rfl, rfl, rfl, rfl, rfl, rfl⟩, rfl⟩
  rw [ends_ite]
  split_ifs
  · exact rules.transfer (rules.still_negotiated hstill (hu.2 (not_not.mp hret)))
  · exact rules.still hstill hu.1

/-! ### Operations other than uploads -/

/-- The mode that `set_mode` is called with. -/
def request : Op → Option TranMode
  | .put _ _ asc | .putCond _ _ asc _ | .get _ _ asc => some (if asc then .ascii else .binary)
  | .readFile _ => some .binary
  | _ => none

/-- The call of `ftp_put`. -/
def upload : Op → Option (Text × Text × Bool)
  | .put localfile remotefile asc | .putCond localfile remotefile asc _ =>
    some (localfile, remotefile, asc)
  | _ => none

/-- The commands of an operation that hold a path, apart from those of `ftp_put`. -/
def ownCommands : Op → List Text
  | .open | .finish | .put .. => []
  | .putCond _ remotefile _ _ => [ascii "MDTM " ++ remotefile]
  | .get _ remotefile _ | .readFile remotefile => [ascii "RETR " ++ remotefile]
  | .fetch startdir => [ascii "LIST -la " ++ startdir]
  | .fetchModtimes rootdir files =>
    (files.filter (·.type = .file)).map fun f => ascii "MDTM " ++ rootdir ++ f.filename
  | .mkdir dir => [ascii "MKD " ++ dir]
  | .move src dst => [ascii "RNFR " ++ src, ascii "RNTO " ++ dst]
  | .delete filename => [ascii "DELE " ++ filename]
  | .rmdir filename => [ascii "RMD " ++ filename]
  | .chmod filename mode =>
    [ascii "SITE CHMOD " ++ padZeros 3 (printNat 8 (mode &&& 511).toNat) ++ [32] ++ filename]
  | .getModtime filename => [ascii "MDTM " ++ filename]

/-- What stands before the path in these commands. -/
def verbs : List Text :=
  [ascii "MDTM ", ascii "RETR ", ascii "LIST -la ", ascii "MKD ", ascii "RNFR ", ascii "RNTO ",
    ascii "DELE ", ascii "RMD ", ascii "SITE CHMOD "]

lemma ownCommands_verb {op : Op} {cmd : Text} (h : cmd ∈ ownCommands op) :
    ∃ q ∈ verbs, ∃ t, cmd = q ++ t := by
  cases op
  case fetchModtimes rootdir files =>
    obtain ⟨f, -, rfl⟩ := List.mem_map.mp h
    exact ⟨ascii "MDTM ", by simp [verbs], _, List.append_assoc ..⟩
  case chmod filename mode =>
    obtain rfl := List.mem_singleton.mp h
    exact ⟨ascii "SITE CHMOD ", by simp [verbs], _, by rw [List.append_assoc, List.append_assoc]⟩
  case move src dst =>
    simp only [ownCommands, List.mem_cons, List.not_mem_nil, or_false] at h
    rcases h with rfl | rfl
    · exact ⟨ascii "RNFR ", by simp [verbs], src, rfl⟩
    · exact ⟨ascii "RNTO ", by simp [verbs], dst, rfl⟩
  all_goals
    simp only [ownCommands, List.mem_cons, List.not_mem_nil, or_false] at h
  all_goals
    subst h
    exact ⟨_, by simp [verbs], _, rfl⟩

/-- Between the steps of an operation `I` holds. `M` holds once the transfer mode is `want`,
and `T` while a transfer is under way. -/
structure OpRules (net : Network ω) (sends : Text → Prop) (want : TranMode)
    (M I T : Client ω → Prop) : Prop where
  still : ∀ {s t}, Still s t → I s → I t
  still_due : ∀ {s t}, Still s t → T s → T t
  ftpOpen : OpenRule I (ftpOpen net)
  execute : ∀ {cmd s}, sends (printInto 1024 cmd) → isTransfer (printInto 1024 cmd) = false → I s →
    Ends (execute net cmd) s fun _ t => I t
  setMode : ∀ {s}, I s → Ends (setMode net want) s fun ret t => I t ∧ (ret = .ok → M t)
  retrieve : ∀ {remotefile s}, sends (printInto 1024 (ascii "RETR " ++ remotefile)) → M s →
    Ends (ftpDataOpen net (ascii "RETR " ++ remotefile)) s fun ret t =>
      if ret = .ready then T t else I t
  list : ∀ {dir s}, sends (printInto 1024 (ascii "LIST -la " ++ dir)) → I s →
    Ends (ftpDataOpen net (ascii "LIST -la " ++ dir)) s fun ret t =>
      if ret = .ready then T t else I t
  close : ∀ {s}, T s → Ends (dtpClose net) s fun _ t => I t
  finish : ∀ {s}, I s → Ends (ftpFinish net) s fun _ t => I t

lemma OpRules.simple (rules : OpRules net sends want M I T) {q t : Text} {s : Client ω}
    (hcmd : sends (printInto 1024 (q ++ t)))
    (hq : ∀ v ∈ [ascii "STOR ", ascii "RETR ", ascii "LIST "], ¬ v <+: q ∧ ¬ q <+: v) (hs : I s) :
    Ends (FtpSession.execute net (q ++ t)) s fun _ t => I t :=
  rules.execute hcmd (isTransfer_printInto _ _ (hq _ (by simp)) (hq _ (by simp)) (hq _ (by simp))) hs

lemma OpRules.getModtime (rules : OpRules net sends want M I T) {root filename : Text}
    {s : Client ω} (hcmd : sends (printInto 1024 (ascii "MDTM " ++ root ++ filename))) (hs : I s) :
    Ends (getModtime net root filename) s fun _ t => I t := by
  simp only [FtpTransfer.getModtime, ends_bind, ends_pure, List.append_assoc] at hcmd ⊢
  exact rules.simple hcmd (by decide) hs

lemma OpRules.ftpFetchModtimes (rules : OpRules net sends want M I T) (rootdir : Text)
    (files : List ProtoFile)
    (hcmds : ∀ f ∈ files, f.type = .file →
      sends (printInto 1024 (ascii "MDTM " ++ rootdir ++ f.filename))) {s : Client ω} (hs : I s) :
    Ends (ftpFetchModtimes net rootdir files) s fun _ t => I t := by
  induction files generalizing s with
  | nil => exact hs
  | cons file rest ih =>
    have ih {s : Client ω} (hs : I s) := ih (fun f hf => hcmds f (List.mem_cons_of_mem _ hf)) hs
    simp only [FtpTransfer.ftpFetchModtimes, ends_ite, ends_bind, ends_pure, ends_get]
    split_ifs with hfile
    · exact ih hs
    · have hcmd := hcmds file (List.mem_cons_self ..) (not_not.mp hfile)
      refine (rules.getModtime hcmd hs).mono fun ret t ht => ?_
      split_ifs
      · exact ht
      · exact ih ht

lemma OpRules.ftpGet (rules : OpRules net sends want M I T) (localfile : Text) {remotefile : Text}
    (hcmd : sends (printInto 1024 (ascii "RETR " ++ remotefile))) {asc : Bool}
    (hasc : (if asc then TranMode.ascii else TranMode.binary) = want) {s : Client ω} (hs : I s) :
    Ends (ftpGet net localfile remotefile asc) s fun _ t => I t := by
  simp only [FtpTransfer.ftpGet, ends_bind, ends_outside, ends_ite, ends_pure, ite_self, hasc]
  refine Ends.of_forall fun created w => ?_
  split_ifs
  · exact rules.still (still_net s w) hs
  refine (setCreated_still _ _ _).mono fun _ t ht => ?_
  refine (rules.setMode (rules.still ((still_net s w).trans ht) hs)).mono fun ret u hu => ?_
  split_ifs with hmode
  · exact hu.1
  refine (rules.retrieve hcmd (hu.2 (not_not.mp hmode))).mono fun ret v hv => ?_
  split_ifs with hret
  · simpa [hret] using hv
  rw [if_pos (not_not.mp hret)] at hv
  refine (receiveFile_still localfile v).mono fun received x hx => ?_
  refine Ends.of_forall fun clo w => ?_
  exact rules.close (rules.still_due (hx.trans (still_net x w)) hv)

lemma OpRules.ftpReadFile (rules : OpRules net sends .binary M I T) {remotefile : Text}
    (hcmd : sends (printInto 1024 (ascii "RETR " ++ remotefile))) {s : Client ω} (hs : I s) :
    Ends (ftpReadFile net remotefile) s fun _ t => I t := by
  simp only [FtpTransfer.ftpReadFile, ends_bind, ends_outside, ends_ite, ends_pure]
  refine (rules.setMode hs).mono fun ret t ht => ?_
  split_ifs with hmode
  · exact ht.1
  refine (rules.retrieve hcmd (ht.2 (not_not.mp hmode))).mono fun ret u hu => ?_
  split_ifs with hret
  · simpa [hret] using hu
  rw [if_pos (not_not.mp hret)] at hu
  refine Ends.of_forall fun blocks w => ?_
  exact rules.close (rules.still_due (still_net u w) hu)

lemma OpRules.ftpFetch (rules : OpRules net sends want M I T) (ls : LsParser κ) {startdir : Text}
    (hcmd : sends (printInto 1024 (ascii "LIST -la " ++ startdir))) (list : List ProtoFile)
    {s : Client ω} (hs : I s) : Ends (ftpFetch net ls startdir list) s fun _ t => I t := by
  simp only [FtpTransfer.ftpFetch, ends_bind, ends_outside, ends_ite, ends_pure]
  refine (rules.list hcmd hs).mono fun ret t ht => ?_
  split_ifs with hret
  · simpa [hret] using ht
  rw [if_pos (not_not.mp hret)] at ht
  refine Ends.of_forall fun lines w => ?_
  exact rules.close (rules.still_due (still_net t w) ht)

/-- Every operation, given how it uploads. -/
theorem OpRules.runOp (rules : OpRules net sends want M I T) (ls : LsParser κ) (op : Op)
    (hsends : ∀ cmd ∈ ownCommands op, sends (printInto 1024 cmd))
    (hwant : ∀ mode ∈ request op, mode = want)
    (hput : ∀ call ∈ upload op, ∀ s, I s →
      Ends (ftpPut net call.1 call.2.1 call.2.2) s fun _ t => I t) {s : Client ω} (hs : I s) :
    Ends (runOp net ls op) s fun _ t => I t := by
  cases op with
  | «open» => exact (rules.ftpOpen s hs).mono fun _ _ h => h.1
  | finish => exact rules.finish hs
  | put localfile remotefile asc => exact hput (localfile, remotefile, asc) rfl s hs
  | putCond localfile remotefile asc mtime =>
    simp only [FtpTransfer.runOp, ftpPutCond, ends_bind, ends_ite, ends_pure, ends_get]
    have hcmd : sends (printInto 1024 (ascii "MDTM " ++ remotefile ++ [])) := by
      rw [List.append_nil]
      exact hsends _ (by simp [ownCommands])
    refine (rules.getModtime hcmd hs).mono fun ret t ht => ?_
    split_ifs
    · exact ht
    · exact ht
    · exact hput (localfile, remotefile, asc) rfl t ht
  | get localfile remotefile asc =>
    exact rules.ftpGet localfile (hsends _ (by simp [ownCommands])) (hwant _ rfl) hs
  | readFile remotefile =>
    obtain rfl := hwant _ rfl
    exact rules.ftpReadFile (hsends _ (by simp [ownCommands])) hs
  | fetch startdir => exact rules.ftpFetch ls (hsends _ (by simp [ownCommands])) [] hs
  | fetchModtimes rootdir files =>
    refine rules.ftpFetchModtimes rootdir files (fun f hf hfile => hsends _ ?_) hs
    exact List.mem_map.mpr ⟨f, List.mem_filter.mpr ⟨hf, by simpa using hfile⟩, rfl⟩
  | mkdir dir => exact rules.simple (hsends _ (by simp [ownCommands])) (by decide) hs
  | move src dst =>
    simp only [FtpTransfer.runOp, ftpMove, ends_bind, ends_ite, ends_pure]
    refine (rules.simple (hsends _ (by simp [ownCommands])) (by decide) hs).mono fun ret t ht => ?_
    split_ifs
    · exact rules.simple (hsends _ (by simp [ownCommands])) (by decide) ht
    · exact ht
  | delete filename => exact rules.simple (hsends _ (by simp [ownCommands])) (by decide) hs
  | rmdir filename => exact rules.simple (hsends _ (by simp [ownCommands])) (by decide) hs
  | chmod filename mode =>
    have hcmd := hsends _ (List.mem_singleton.mpr rfl)
    simp only [FtpTransfer.runOp, ftpChmod, List.append_assoc] at hcmd ⊢
    exact rules.simple hcmd (by decide) hs
  | getModtime filename =>
    simp only [FtpTransfer.runOp, ftpGetModtime, ends_map, ends_bind, ends_get, ends_pure]
    refine rules.getModtime ?_ hs
    rw [List.append_nil]
    exact hsends _ (by simp [ownCommands])

/-! ### Uploads -/

/-- `maybe_chdir` from `P`: when it succeeds, `A` holds of the name to store under. -/
def ChdirRule (net : Network ω) (P I : Client ω → Prop) (A : Text → Prop) (fn : Text) : Prop :=
  ∀ s, P s → Ends (maybeChdir net fn) s fun r t =>
    if r.1 = .ok then A r.2 ∧ I (mark .located t) else P t

/-- `I` holds in the loop of `ftp_put` and `T` while the file is stored. -/
structure StoreRules (net : Network ω) (A : Text → Prop) (I T : Client ω → Prop) : Prop where
  still : ∀ {s t}, Still s t → I s → I t
  still_due : ∀ {s t}, Still s t → T s → T t
  store : ∀ {fn s}, A fn → I s → Ends (ftpDataOpen net (ascii "STOR " ++ fn)) s fun ret t =>
    if ret = .ready then T t else I t
  close : ∀ {s}, T s → Ends (dtpClose net) s fun _ t => I t
  again : ∀ fn, A fn → ChdirRule net I I A fn

section Put
variable {A : Text → Prop} {P P' J : Client ω → Prop} {fn : Text}

lemma StoreRules.putAttempt (rules : StoreRules net A I T) (hchdir : ChdirRule net P I A fn)
    (asc : Bool) (content : Text) {s : Client ω} (hs : P s) :
    Ends (putAttempt net asc content fn) s fun r t =>
      match r.1 with
      | .error _ => P t ∨ I t
      | .ok _ => A r.2 ∧ I t := by
  simp only [FtpTransfer.putAttempt, ends_bind]
  refine (hchdir s hs).mono fun r t ht => ?_
  by_cases hret : r.1 = .ok
  swap
  · rw [if_neg hret] at ht
    rw [if_pos hret]
    exact .inl ht
  rw [if_pos hret] at ht
  rw [if_neg (not_not.mpr hret)]
  simp only [ends_bind, ends_record]
  refine (rules.store ht.1 ht.2).mono fun ret u hu => ?_
  by_cases hready : ret = .ready
  swap
  · rw [if_neg hready] at hu
    rw [if_neg hready]
    exact ⟨ht.1, hu⟩
  rw [if_pos hready] at hu
  rw [if_pos hready]
  simp only [ends_bind]
  refine (sendFile_still asc content u).mono fun sent v hv => ?_
  refine (rules.close (rules.still_due hv hu)).mono fun dret x hx => ?_
  rw [ends_ite]
  split_ifs
  · exact .inr hx
  · exact ⟨ht.1, hx⟩

lemma StoreRules.putLoop (rules : StoreRules net A I T)
    (hnet : ∀ s w, P s → P { s with net := w }) (hchdir : ChdirRule net P I A fn) (asc : Bool)
    (content : Text) (n : ℕ) (again : Bool) {s : Client ω} (hs : P s) :
    Ends (putLoop net asc content n again fn) s fun _ t => P t ∨ I t := by
  induction n generalizing P fn again s with
  | zero => exact .inl hs
  | succ n ih =>
    have hplaced : Ends (rewind net again) s fun _ t => P t := by
      rw [rewind, ends_ite]
      split_ifs
      · rw [ends_outside]
        exact Ends.of_forall fun _ w => hnet s w hs
      · exact hs
    simp only [FtpTransfer.putLoop, ends_bind]
    refine hplaced.mono fun placed t ht => ?_
    rw [ends_ite]
    split_ifs
    · exact .inl ht
    rw [ends_bind]
    refine (rules.putAttempt hchdir asc content ht).mono fun r u hu => ?_
    obtain ⟨res, fn'⟩ := r
    cases res with
    | error ret => exact hu
    | ok dret =>
      rw [ends_ite]
      split_ifs
      · refine (ih (P := I) (fun s w h => rules.still (still_net s w) h) (rules.again fn' hu.1) true
          hu.2).mono fun _ _ h => ?_
        exact .inr (h.elim id id)
      · exact .inr hu.2

/-- `ftp_put`: `P` holds until the mode is set, `P'` from then on until `maybe_chdir` has
succeeded, and `J` between operations. -/
theorem StoreRules.ftpPut (rules : StoreRules net A I T)
    (hnet : ∀ s w, P' s → P' { s with net := w }) {remotefile : Text}
    (hchdir : ChdirRule net P' I A remotefile) {asc : Bool}
    (hmode : ∀ s, P s → Ends (setMode net (if asc then .ascii else .binary)) s fun ret t =>
      if ret = .ok then P' t else P t)
    (hput : ∀ s, J s → P (mark (.put remotefile) s)) (hunset : ∀ s, P s → J (mark .putDone s))
    (hunstored : ∀ s, P' s → J (mark .putDone s)) (hdone : ∀ s, I s → J (mark .putDone s))
    (localfile : Text) {s : Client ω} (hs : J s) :
    Ends (ftpPut net localfile remotefile asc) s fun _ t => J t := by
  have hbody (s : Client ω) (hs : P s) :
      Ends (putFile net localfile remotefile asc) s fun _ t => J (mark .putDone t) := by
    simp only [putFile, ends_bind]
    refine (hmode s hs).mono fun ret t ht => ?_
    rw [ends_ite]
    split_ifs with hret
    · rw [if_neg hret] at ht
      exact hunset t ht
    rw [if_pos (not_not.mp hret)] at ht
    simp only [ends_bind, ends_outside]
    refine Ends.of_forall fun content w => ?_
    cases content with
    | none => exact hunstored _ (hnet t w ht)
    | some content =>
      simp only [ends_bind, ends_outside]
      refine Ends.of_forall fun success w' => ?_
      have ht := hnet _ w' (hnet t w ht)
      rw [ends_ite]
      split_ifs
      · exact hunstored _ ht
      · exact (rules.putLoop hnet hchdir asc content 3 false ht).mono fun _ u hu =>
          hu.elim (hunstored u) (hdone u)
  simp only [FtpTransfer.ftpPut, ends_bind, ends_record, ends_pure]
  exact hbody _ (hput s hs)

end Put

/-! ### Rules from an invariant -/

lemma Invariant.still (inv : Invariant net sends I T) {s t : Client ω} (hst : Still s t)
    (hs : I s) : I t := inv.alike hst.toAlike hs

lemma Invariant.still_due (inv : Invariant net sends I T) {s t : Client ω} (hst : Still s t)
    (hs : T s) : T t := inv.alike_due hst.toAlike hs

/-- A transfer command leaves its final reply to come only when it is accepted. -/
lemma Invariant.transfer (inv : Invariant net sends I T) {cmd : Text}
    (hcmd : sends (printInto 1024 cmd)) {s : Client ω} (hs : I s) :
    Ends (FtpSession.execute net cmd) s fun ret t => if ret = .ready then T t else I t := by
  refine (inv.execute hcmd hs).mono fun ret t h => ?_
  by_cases hret : ret = .ready
  · rw [if_pos hret]
    split_ifs at h
    · exact h
    · exact inv.due h
  · rw [if_neg hret]
    simpa [hret] using h

lemma printInto_printInto (m n : ℕ) (t : Text) (h : m ≤ n) :
    printInto m (printInto n t) = printInto m t := by
  rw [printInto, printInto, printInto, List.take_take, min_eq_left (Nat.sub_le_sub_right h 1)]

lemma Invariant.dataRules (inv : Invariant net sends I T) {command : Text}
    (hcmd : sends (printInto 1024 command)) : DataRules net command I I T where
  still := inv.still
  still_negotiated := inv.still
  still_due := inv.still_due
  due := inv.due
  ftpOpen := inv.ftpOpen
  port numbers hs :=
    (inv.simple (inv.plain (plain_printInto _ _ (by decide) (by decide)))
      (isTransfer_printInto _ _ (by decide) (by decide) (by decide)) hs).mono
        fun _ _ ht => ⟨ht, fun _ => ht⟩
  passive cmd hmem hs := by
    have hplain : Plain (printInto 1024 cmd) ∧ isTransfer (printInto 1024 cmd) = false := by
      simp only [List.mem_cons, List.not_mem_nil, or_false] at hmem
      rcases hmem with rfl | rfl <;> exact ⟨⟨by decide, by decide⟩, by decide⟩
    exact (inv.simple (inv.plain hplain.1) hplain.2 hs).mono fun _ _ ht => ⟨ht, fun _ => ht⟩
  transfer hs := inv.transfer (by rwa [printInto_printInto _ _ _ (by decide)]) hs
  accepted := inv.accepted
  refused := inv.refused

lemma Invariant.ftpFinish (inv : Invariant net sends I T) {s : Client ω} (hs : I s) :
    Ends (ftpFinish net) s fun _ t => I t := by
  simp only [FtpTransfer.ftpFinish, ends_bind, ends_get, ends_ite, ends_pure, ends_closePi]
  split_ifs with hconnected
  · have hquit : Plain (ascii "QUIT") := ⟨by decide, by decide⟩
    refine (inv.simpleCommand (inv.plain hquit) (by decide) hs).mono fun ret t ht => ?_
    exact inv.hangUp ht
  · exact hs

theorem Invariant.opRules (inv : Invariant net sends I T) (want : TranMode) :
    OpRules net sends want I I T where
  still := inv.still
  still_due := inv.still_due
  ftpOpen := inv.ftpOpen
  execute hcmd htransfer hs := inv.simple hcmd htransfer hs
  setMode hs := (inv.setMode want hs).mono fun _ _ ht => ⟨ht, fun _ => ht⟩
  retrieve hcmd hs := (inv.dataRules hcmd).ftpDataOpen hs
  list hcmd hs := (inv.dataRules hcmd).ftpDataOpen hs
  close := inv.close
  finish := inv.ftpFinish

/-- `ftp_put` under two invariants, one before and one after `maybe_chdir` has succeeded. -/
theorem ftpPut_ends {sendsP : Text → Prop} {J P U : Client ω → Prop} {A : Text → Prop}
    (before : Invariant net sendsP P U) (after : Invariant net sends I T)
    (hstor : ∀ fn, A fn → sends (printInto 1024 (ascii "STOR " ++ fn))) {remotefile : Text}
    (hchdir : ChdirRule net P I A remotefile) (hagain : ∀ fn, A fn → ChdirRule net I I A fn)
    (hput : ∀ s, J s → P (mark (.put remotefile) s)) (hdoneP : ∀ s, P s → J (mark .putDone s))
    (hdone : ∀ s, I s → J (mark .putDone s)) (localfile : Text) (asc : Bool) {s : Client ω}
    (hs : J s) : Ends (ftpPut net localfile remotefile asc) s fun _ t => J t := by
  have rules : StoreRules net A I T :=
    { still := after.still
      still_due := after.still_due
      store := fun hfn hs => (after.dataRules (hstor _ hfn)).ftpDataOpen hs
      close := after.close
      again := hagain }
  refine rules.ftpPut (fun s w h => before.still (still_net s w) h) hchdir (fun s hs => ?_) hput
    hdoneP hdoneP hdone localfile hs
  refine (before.setMode _ hs).mono fun ret t ht => ?_
  split_ifs <;> exact ht

lemma plain_ownCommands {op : Op} {cmd : Text} (h : cmd ∈ ownCommands op) :
    Plain (printInto 1024 cmd) := by
  obtain ⟨q, hq, t, rfl⟩ := ownCommands_verb h
  have hverbs : ∀ q ∈ verbs, (¬ ascii "CWD " <+: q ∧ ¬ q <+: ascii "CWD ") ∧
      (¬ ascii "STOR " <+: q ∧ ¬ q <+: ascii "STOR ") := by decide
  exact plain_printInto _ _ (hverbs q hq).1 (hverbs q hq).2

/-- A run of operations keeps the invariant when uploads do. -/
theorem Invariant.runOps (inv : Invariant net sends I T) (ls : LsParser κ)
    (hput : ∀ localfile remotefile asc s, I s →
      Ends (ftpPut net localfile remotefile asc) s fun _ t => I t) (ops : List Op) {s : Client ω}
    (hs : I s) : Ends (runOps net ls ops) s fun _ t => I t := by
  induction ops generalizing s with
  | nil => exact hs
  | cons op ops ih =>
    simp only [FtpTransfer.runOps, ends_bind, ends_pure]
    have hsends (cmd : Text) (h : cmd ∈ ownCommands op) : sends (printInto 1024 cmd) :=
      inv.plain (plain_ownCommands h)
    have hwant : ∀ mode ∈ request op, mode = (request op).getD .binary := by
      intro mode hmode
      rw [Option.mem_def.mp hmode]
      rfl
    refine ((inv.opRules _).runOp ls op hsends hwant (fun call _ s hs => hput _ _ _ s hs) hs).mono
      fun _ t ht => ih ht

end Rules

end Sitecopy.FtpRules
