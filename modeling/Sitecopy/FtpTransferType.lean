import Sitecopy.FtpNegotiation

/-!
# The transfer type

The client caches the type that it last set and restores it when it logs in again. A file
is transferred in the type that the caller asked for, unless the server did not take the
last `TYPE` of the session.
-/
namespace Sitecopy.FtpTransferType
open SiteModel SiteOperations StateProgram FtpSession FtpTransfer FtpReplies FtpRules
  FtpCommandLines FtpPairing FtpNegotiation RunTrace

variable {ω κ : Type} {net : Network ω}

/-! ### The type in force -/

def isType (line : Text) : Bool := (ascii "TYPE ").isPrefixOf line

/-- A file is stored or retrieved. -/
def isFile (line : Text) : Bool := (ascii "STOR ").isPrefixOf line || (ascii "RETR ").isPrefixOf line

/-- The last `TYPE` that the server has accepted since the login. -/
def inForce : List Event → Option Text
  | [] => none
  | .login _ :: _ => none
  | .answer line code _ :: tr => if isType line && okCode code then some line else inForce tr
  | _ :: tr => inForce tr

/-- The last `TYPE` since the login, if the server has accepted it, and it was a command of
its own that was sent when nothing was unread. -/
def settled : List Event → Option Text
  | [] => none
  | .login _ :: _ => none
  | .answer line code _ :: tr =>
    if isType line then
      if okCode code = true ∧ tr.head? = some (.command line []) then some line else none
    else settled tr
  | _ :: tr => settled tr

theorem inForce_settled {tr : List Event} {line : Text} (h : settled tr = some line) :
    inForce tr = some line := by
  induction tr with
  | nil => exact absurd h (by simp [settled])
  | cons e tr ih =>
    cases e with
    | login dir => exact absurd h (by simp [settled])
    | answer l code dir =>
      simp only [settled, inForce] at h ⊢
      by_cases htype : isType l = true
      · rw [if_pos htype] at h
        split_ifs at h with hok
        simpa [htype, hok.1] using h
      · rw [if_neg htype] at h
        simpa [htype] using ih h
    | _ => exact ih h

/-- The next answer is that to the first line of a command. -/
def afterCommand : List Event → Bool
  | .command .. :: _ => true
  | _ => false

/-- A file that is asked for in type `want` is accepted in this type. -/
def InType (want : Option TranMode) (tr : List Event) : Event → Prop
  | .answer line code _ => ∀ mode ∈ want, afterCommand tr = true → isFile line = true →
      readyCode code = true → inForce tr = some (typeCommand mode)
  | _ => True

instance (want : Option TranMode) (tr : List Event) (e : Event) : Decidable (InType want tr e) :=
  match e with
  | .answer line code _ => inferInstanceAs (Decidable (∀ mode ∈ want, afterCommand tr = true →
      isFile line = true → readyCode code = true → inForce tr = some (typeCommand mode)))
  | .command .. | .reply .. | .login _ | .accepted _ | .dataClosed _ | .put _ | .located
  | .putDone => .isTrue trivial

/-! ### What leaves the cached mode alone -/

section Mode
variable (s : Client ω)

lemma readReply_mode (taker : Origin) :
    Ends (readReply net taker) s fun _ t => t.sess.mode = s.sess.mode := by
  simp only [readReply, ends_bind, ends_get, ends_outside, ends_modify]
  refine Ends.of_forall fun res w => ?_
  cases res.result with
  | error e => exact rfl
  | ok code => exact rfl

lemma parseReply_mode (code : ℕ) :
    Ends (parseReply net code) s fun _ t => t.sess.mode = s.sess.mode := by
  have hmodtime : Ends (parseModtime net) s fun _ t => t.sess.mode = s.sess.mode := by
    simp only [parseModtime, ends_bind, ends_updateSession, ends_get]
    rw [ends_ite]
    split_ifs
    · exact rfl
    · split <;> exact rfl
  have hpasv (reply : Text) : Ends (parsePasvReply reply) s fun _ t => t.sess.mode = s.sess.mode := by
    unfold parsePasvReply
    split
    · exact rfl
    · split <;> exact rfl
  have hepsv (reply : Text) : Ends (parseEpasvReply reply) s fun _ t => t.sess.mode = s.sess.mode := by
    unfold parseEpasvReply
    simp only [ends_ite]
    split_ifs <;> exact rfl
  unfold parseReply
  split
  case h_16 => exact hmodtime
  case h_17 => exact hpasv _
  case h_18 => exact hepsv _
  all_goals exact rfl

lemma runCommand_mode (cmd : Text) :
    Ends (runCommand net cmd) s fun _ t => t.sess.mode = s.sess.mode := by
  simp only [runCommand, writeCommand, ends_bind, ends_modify, ends_outside]
  refine Ends.of_forall fun fault w => ?_
  cases fault with
  | some e => exact rfl
  | none =>
    simp only [ends_bind, ends_pure]
    refine (serveAll_sess _ _).mono fun _ t ht => ?_
    rw [ends_get]
    refine (readReply_mode t _).mono fun res u hu => ?_
    have hu : u.sess.mode = s.sess.mode := by rw [hu, ht]
    cases res with
    | error ret => exact hu
    | ok code => exact (parseReply_mode u code).mono fun _ v hv => hv.trans hu

lemma sendLogin_mode (username password : Text) :
    Ends (sendLogin net username password) s fun _ t => t.sess.mode = s.sess.mode := by
  simp only [sendLogin, ends_bind, ends_updateSession, ends_ite, ends_pure]
  refine (runCommand_mode _ _).mono fun ret t ht => ?_
  split_ifs
  · exact (runCommand_mode t _).mono fun _ u hu => hu.trans ht
  · exact ht

lemma authenticate_mode : Ends (authenticate net) s fun _ t => t.sess.mode = s.sess.mode := by
  simp only [authenticate, ends_bind, ends_get, ends_ite, ends_outside]
  split_ifs
  · refine Ends.of_forall fun login w => ?_
    cases login with
    | none => exact rfl
    | some login => exact sendLogin_mode _ login.1 login.2
  · exact sendLogin_mode s _ _

lemma connectPi_mode (addresses : List InetAddr) :
    Ends (connectPi net addresses) s fun _ t => t.sess.mode = s.sess.mode := by
  induction addresses generalizing s with
  | nil => exact rfl
  | cons ia rest ih =>
    simp only [connectPi, ends_bind, ends_outside, ends_updateSession]
    refine Ends.of_forall fun success w => ?_
    rw [ends_ite]
    split_ifs
    · exact rfl
    · exact (ih _).mono fun _ t ht => ht

lemma dial_mode : Ends (dial net) s fun _ t => t.sess.mode = s.sess.mode := by
  simp only [dial, ends_bind, ends_updateSession, ends_get, ends_ite, ends_pure]
  refine (connectPi_mode _ _).mono fun success t ht => ?_
  have ht : t.sess.mode = s.sess.mode := ht
  split_ifs
  · exact ht
  simp only [ends_outside, ends_modify]
  refine Ends.of_forall fun hello w => ?_
  refine (readReply_mode _ _).mono fun res u hu => ?_
  have hu : u.sess.mode = s.sess.mode := hu.trans ht
  cases res with
  | error e => exact hu
  | ok code =>
    rw [ends_bind]
    refine (parseReply_mode u code).mono fun ret v hv => ?_
    have hv := hv.trans hu
    rw [ends_ite]
    split_ifs
    · exact hv
    rw [ends_bind]
    refine (authenticate_mode v).mono fun ret x hx => ?_
    have hx := hx.trans hv
    rw [ends_ite]
    split_ifs
    · simp only [ends_bind, ends_get]
      split_ifs <;> exact hx
    · simp only [ends_bind, ends_outside, ends_modify, ends_pure]
      exact Ends.of_forall fun dir w => hx

lemma dtpClose_mode : Ends (dtpClose net) s fun _ t => t.sess.mode = s.sess.mode := by
  simp only [dtpClose, ends_bind, ends_outside, ends_record]
  refine Ends.of_forall fun success w => ?_
  rw [ends_ite]
  split_ifs
  · exact rfl
  simp only [ends_bind, ends_get]
  refine (readReply_mode _ _).mono fun res t ht => ?_
  have ht : t.sess.mode = s.sess.mode := ht
  cases res with
  | error ret => exact ht
  | ok code => exact dtpClose_parsed code ((parseReply_mode t code).mono fun _ u hu => hu.trans ht)

end Mode

/-! ### The first answer to a command -/

lemma commandLines_head (line t : Text) :
    ∃ first rest, commandLines line t = first :: rest ∧ first <+: line ++ t := by
  fun_induction commandLines line t with
  | case1 line => exact ⟨_, _, rfl, by simp⟩
  | case2 line b => exact ⟨_, _, rfl, List.prefix_refl _⟩
  | case3 line b c rest h => exact ⟨_, _, rfl, List.prefix_append _ _⟩
  | case4 line b c rest h ih =>
    obtain ⟨first, more, hlines, hstarts⟩ := ih
    exact ⟨first, more, hlines, by simpa using hstarts⟩

lemma head_starts {cmd line : Text} (h : (commandLines [] cmd).head? = some line) : line <+: cmd := by
  obtain ⟨first, rest, hlines, hstarts⟩ := commandLines_head [] cmd
  rw [hlines] at h
  obtain rfl : first = line := by simpa using h
  exact hstarts

/-- The command was not sent, or the first line of it was answered first. -/
def Heard (cmd : Text) (s t : Client ω) : Prop :=
  t.sess.connected = false ∧ t.trace = (wrote cmd s).trace ∨
    ∃ line code dir more, (commandLines [] cmd).head? = some line ∧
      t.trace = more ++ .answer line code dir :: (wrote cmd s).trace ∧ ∀ e ∈ more, Talk e

lemma serve_trace (line : Text) (s : Client ω) :
    Ends (serve net line) s fun _ t => ∃ code dir, t.trace = .answer line code dir :: s.trace := by
  simp only [serve, ends_bind, ends_outside, ends_modify, ends_ite, ends_pure]
  refine Ends.of_forall fun r w => ?_
  split_ifs
  · exact Ends.of_forall fun f w => ⟨_, _, rfl⟩
  · exact ⟨_, _, rfl⟩

theorem runCommand_heard (cmd : Text) (s : Client ω) :
    Ends (runCommand net cmd) s fun _ t => Heard cmd s t := by
  simp only [runCommand, writeCommand, ends_bind, ends_modify, ends_outside]
  refine Ends.of_forall fun fault w => ?_
  cases fault with
  | some e =>
    simp only [ends_pure, ends_bind, ends_closePi]
    exact .inl ⟨rfl, rfl⟩
  | none =>
    obtain ⟨line, rest, hlines, -⟩ := commandLines_head [] cmd
    simp only [ends_bind, ends_pure, hlines, serveAll]
    refine (serve_trace line _).mono fun _ t ht => ?_
    obtain ⟨code, dir, ht⟩ := ht
    have hheard {u : Client ω} (hu : Said t u) : Heard cmd s u := by
      obtain ⟨more, hmore, htalk⟩ := hu
      exact .inr ⟨line, code, dir, more, by rw [hlines]; rfl, by rw [hmore, ht]; rfl, htalk⟩
    refine (serveAll_said rest t).mono fun _ u hu => ?_
    rw [ends_get]
    refine (readReply_said u _).mono fun res v hv => ?_
    cases res with
    | error ret => exact hheard (hu.trans hv)
    | ok code => exact (parseReply_said code v).mono fun _ x hx => hheard ((hu.trans hv).trans hx)

lemma afterCommand_talk {more tr : List Event} (htr : afterCommand tr = false)
    (hmore : ∀ e ∈ more, Talk e) : afterCommand (more ++ tr) = false := by
  cases more with
  | nil => exact htr
  | cons e more =>
    have htalk := hmore e (List.mem_cons_self ..)
    cases e with
    | command cmd unread => exact absurd htalk id
    | _ => rfl

/-- Further answers settle nothing: they are not the first ones after a command. -/
lemma settled_talk {more tr : List Event} (htr : afterCommand tr = false)
    (hmore : ∀ e ∈ more, Talk e) : ∀ c ∈ settled (more ++ tr), c ∈ settled tr := by
  induction more with
  | nil => exact fun c hc => hc
  | cons e more ih =>
    have hmore' (e : Event) (he : e ∈ more) := hmore e (List.mem_cons_of_mem _ he)
    have htalk := hmore e (List.mem_cons_self ..)
    cases e with
    | reply origin lines => exact ih hmore'
    | answer l code dir =>
      intro c hc
      have hhead : (more ++ tr).head? ≠ some (.command l []) := by
        intro hhead
        have hafter := afterCommand_talk htr hmore'
        obtain ⟨rest, hrest⟩ := List.head?_eq_some_iff.mp hhead
        rw [hrest] at hafter
        exact absurd hafter (by simp [afterCommand])
      rw [List.cons_append, settled] at hc
      split_ifs at hc with htype hok
      · exact absurd hok.2 hhead
      · exact absurd hc (by simp)
      · exact ih hmore' c hc
    | _ => exact absurd htalk id

lemma isType_of_starts {line cmd : Text} (hline : line <+: cmd) (h : isType line = true) :
    ascii "TYPE " <+: cmd := (List.isPrefixOf_iff_prefix.mp h).trans hline

lemma isFile_of_starts {line cmd : Text} (hline : line <+: cmd) (h : isFile line = true) :
    isFile cmd = true := by
  simp only [isFile, Bool.or_eq_true, List.isPrefixOf_iff_prefix] at h ⊢
  exact h.imp (·.trans hline) (·.trans hline)

/-- A command other than `TYPE` settles nothing. -/
lemma settled_heard {cmd : Text} {s t : Client ω} (hcmd : ¬ ascii "TYPE " <+: cmd)
    (h : Heard cmd s t) : ∀ c ∈ settled t.trace, c ∈ settled s.trace := by
  obtain ⟨-, ht⟩ | ⟨line, code, dir, more, hline, ht, hmore⟩ := h
  · rw [ht]
    exact fun c hc => hc
  · rw [ht]
    intro c hc
    have hc := settled_talk rfl hmore c hc
    have htype : isType line = false := by
      rw [Bool.eq_false_iff]
      exact fun h => hcmd (isType_of_starts (head_starts hline) h)
    rw [settled, if_neg (by simp [htype])] at hc
    exact hc

/-! ### What the client knows -/

section Kept
variable {start : List Event} {want : TranMode} {set : Bool}

/-- From `start` on, files are transferred in type `want` when the last `TYPE` is settled. -/
def Kept (start : List Event) (want : TranMode) (tr : List Event) (e : Event) : Prop :=
  start <:+ tr → (settled tr).isSome = true → InType (some want) tr e

lemma kept_event {tr : List Event} {e : Event} (h : ∀ line code dir, e ≠ .answer line code dir) :
    Kept start want tr e := by
  cases e with
  | answer line code dir => exact absurd rfl (h line code dir)
  | _ => exact fun _ _ => trivial

lemma kept_talk {tr : List Event} {e : Event} (htr : afterCommand tr = false) :
    Kept start want tr e := by
  intro _ _
  cases e with
  | answer line code dir =>
    intro mode _ hafter
    exact absurd hafter (by simp [htr])
  | _ => exact trivial

lemma steps_talk {more tr : List Event} (htr : afterCommand tr = false) (hmore : ∀ e ∈ more, Talk e)
    (hs : Steps (Kept start want) tr) : Steps (Kept start want) (more ++ tr) := by
  induction more with
  | nil => exact hs
  | cons e more ih =>
    have hmore' (e : Event) (he : e ∈ more) := hmore e (List.mem_cons_of_mem _ he)
    exact ⟨kept_talk (afterCommand_talk htr hmore'), ih hmore'⟩

/-- Only the first answer to a command has to be looked at. -/
lemma steps_heard {cmd : Text} {s t : Client ω} (h : Heard cmd s t)
    (hs : Steps (Kept start want) s.trace)
    (hanswer : isFile cmd = true → ∀ line code dir,
      Kept start want (wrote cmd s).trace (.answer line code dir)) :
    Steps (Kept start want) t.trace := by
  have hwrote : Steps (Kept start want) (wrote cmd s).trace := ⟨kept_event nofun, hs⟩
  obtain ⟨-, ht⟩ | ⟨line, code, dir, more, hline, ht, hmore⟩ := h
  · rw [ht]
    exact hwrote
  rw [ht]
  refine steps_talk rfl hmore ⟨?_, hwrote⟩
  by_cases hfile : isFile line = true
  · exact hanswer (isFile_of_starts (head_starts hline) hfile) line code dir
  · intro _ _ mode _ _ hf
    exact absurd hf hfile

/-- No `TYPE` is settled on the connection. -/
structure Unset (start : List Event) (want : TranMode) (s : Client ω) : Prop where
  steps : Steps (Kept start want) s.trace
  unset : s.sess.connected = true → settled s.trace = none

/-- The cached mode is the settled one. When `set` holds it is `want`, unless it could not be
restored. -/
structure Typed (start : List Event) (want : TranMode) (set : Bool) (s : Client ω) : Prop where
  steps : Steps (Kept start want) s.trace
  known : s.sess.connected = true → s.sess.mode ≠ .unknown →
    ∀ c ∈ settled s.trace, c = typeCommand s.sess.mode
  asked : set = true → s.sess.mode = want ∨
    s.sess.mode = .unknown ∧ (s.sess.connected = true → settled s.trace = none)

lemma Typed.still {s t : Client ω} (h : Typed start want set s) (ht : Still s t) :
    Typed start want set t := by
  refine ⟨ht.trace ▸ h.steps, ?_, ?_⟩
  · rw [ht.connected, ht.mode, ht.trace]
    exact h.known
  · rw [ht.connected, ht.mode, ht.trace]
    exact h.asked

lemma Typed.between {s : Client ω} (h : Typed start want set s) : Typed start want false s :=
  ⟨h.steps, h.known, nofun⟩

lemma Typed.mark {s : Client ω} (h : Typed start want set s) {e : Event}
    (he : ∀ line code dir, e ≠ .answer line code dir)
    (hsettled : settled (e :: s.trace) = settled s.trace) : Typed start want set (mark e s) := by
  refine ⟨⟨kept_event he, h.steps⟩, ?_, ?_⟩
  · intro hc hmode c hmem
    exact h.known hc hmode c (hsettled ▸ hmem)
  · intro hset
    refine (h.asked hset).imp_right fun hu => ⟨hu.1, fun hc => ?_⟩
    exact hsettled.trans (hu.2 hc)

/-- Commands other than `TYPE`. -/
lemma typed_command (hwant : want ≠ .unknown) {cmd : Text} {s : Client ω}
    (hs : Typed start want set s) (hcmd : ¬ ascii "TYPE " <+: cmd)
    (hfile : isFile cmd = true → set = true ∧ s.sess.connected = true) :
    Ends (runCommand net cmd) s fun _ t => Typed start want set t := by
  refine (((runCommand_heard cmd s).and (runCommand_mode s cmd)).and
    (runCommand_onward cmd s)).mono fun _ t ht => ?_
  obtain ⟨⟨hheard, hmode⟩, honward⟩ := ht
  have hconnected (hc : t.sess.connected = true) : s.sess.connected = true := honward.connected hc
  have hsub := settled_heard hcmd hheard
  refine ⟨steps_heard hheard hs.steps ?_, ?_, ?_⟩
  · intro hf line code dir _ hsome mode hmem _ _ _
    obtain rfl : want = mode := by simpa using hmem
    obtain ⟨hset, hc⟩ := hfile hf
    obtain ⟨c, hcs⟩ := Option.isSome_iff_exists.mp hsome
    have hcs' : settled s.trace = some c := hcs
    obtain hm | ⟨-, hnone⟩ := hs.asked hset
    · have hc' := hs.known hc (hm ▸ hwant) c hcs'
      rw [hm] at hc'
      rw [← hc']
      exact inForce_settled hcs
    · exact absurd (hnone hc) (by simp [hcs'])
  · intro hc hm c hmem
    rw [hmode] at hm ⊢
    exact hs.known (hconnected hc) hm c (hsub c hmem)
  · intro hset
    rw [hmode]
    refine (hs.asked hset).imp_right fun hu => ⟨hu.1, fun hc => ?_⟩
    refine Option.eq_none_iff_forall_not_mem.mpr fun c hmem => ?_
    exact absurd (hsub c hmem) (by simp [hu.2 (hconnected hc)])

lemma isFile_verb {q cmd : Text} (hq : q <+: cmd)
    (h : ∀ v ∈ [ascii "STOR ", ascii "RETR "], ¬ v <+: q ∧ ¬ q <+: v) : isFile cmd = false := by
  have hno := not_prefix_verb hq h
  rw [isFile, hno _ (by simp), hno _ (by simp)]
  rfl

/-! ### Logging in again -/

/-- A new login settles no `TYPE`. -/
theorem unset_dialling (net : Network ω) (start : List Event) (want : TranMode) :
    Dialling net (Unset start want) where
  alike hst hs := by
    refine ⟨hst.trace ▸ hs.steps, ?_⟩
    rw [hst.connected, hst.trace]
    exact hs.unset
  hangUp hs := ⟨hs.steps, nofun⟩
  enter {cmd s} hcmd hclosed hs := by
    refine ((runCommand_heard cmd s).and (runCommand_onward cmd s)).mono fun _ t ht => ⟨?_, ?_⟩
    · have hfile : isFile cmd = false := by
        obtain hq | hq := hcmd <;> exact isFile_verb hq (by decide)
      exact steps_heard ht.1 hs.steps fun hf => absurd hf (by simp [hfile])
    · intro hc
      have hopen : s.sess.connected = true := ht.2.connected hc
      exact absurd hopen (by simp [hclosed])
  redial _ hs := ⟨hs.steps, hs.unset⟩
  greet r hclosed hs :=
    ⟨⟨kept_event nofun, hs.steps⟩, fun hc => absurd hc (by simp [hasRead, hclosed])⟩
  login dir _ _ hs := ⟨⟨kept_event nofun, hs.steps⟩, fun _ => rfl⟩

/-- What `TYPE` leaves behind when the connection survives it. -/
structure Answered (start : List Event) (want mode : TranMode) (ret : FtpCode) (t : Client ω) :
    Prop where
  steps : Steps (Kept start want) t.trace
  known : t.sess.connected = true → ∀ c ∈ settled t.trace, c = typeCommand mode
  refused : ret ≠ .ok → t.sess.connected = true → settled t.trace = none
  broken : ret = .broken → t.sess.connected = false

lemma typeCommand_facts (mode : TranMode) :
    printInto 1024 (typeCommand mode) = typeCommand mode ∧ isType (typeCommand mode) = true ∧
      commandLines [] (typeCommand mode) = [typeCommand mode] := by
  cases mode <;> decide

/-- The reply to a `TYPE` that is sent when replies are unread settles nothing. -/
lemma settled_unread {cmd : Text} {s t : Client ω} (hcmd : commandLines [] cmd = [cmd])
    (htype : isType cmd = true) (hunread : s.unread ≠ []) (h : Heard cmd s t)
    (hc : t.sess.connected = true) : settled t.trace = none := by
  obtain ⟨hclosed, -⟩ | ⟨line, code, dir, more, hline, ht, hmore⟩ := h
  · exact absurd hc (by simp [hclosed])
  · refine Option.eq_none_iff_forall_not_mem.mpr fun c hmem => ?_
    rw [ht] at hmem
    have hmem := settled_talk rfl hmore c hmem
    obtain rfl : cmd = line := by simpa [hcmd] using hline
    rw [settled, if_pos htype] at hmem
    split_ifs at hmem with hok
    · exact hunread (by simpa [wrote] using hok.2)
    · exact absurd hmem (by simp)

/-- `TYPE` settles itself or nothing, and nothing when it is not taken. -/
lemma type_command (mode : TranMode) {s : Client ω} (hs : Steps (Kept start want) s.trace) :
    Ends (runCommand net (typeCommand mode)) s fun ret t => Answered start want mode ret t := by
  obtain ⟨hprint, htype, hone⟩ := typeCommand_facts mode
  have hfile : isFile (typeCommand mode) = false :=
    isFile_verb (List.isPrefixOf_iff_prefix.mp htype) (by decide)
  have hknown {t : Client ω} (hheard : Heard (typeCommand mode) s t)
      (hc : t.sess.connected = true) : ∀ c ∈ settled t.trace, c = typeCommand mode := by
    obtain ⟨hclosed, -⟩ | ⟨line, code, dir, more, hline, ht, hmore⟩ := hheard
    · exact absurd hc (by simp [hclosed])
    · intro c hmem
      rw [ht] at hmem
      have hmem := settled_talk rfl hmore c hmem
      obtain rfl : typeCommand mode = line := by simpa [hone] using hline
      rw [settled, if_pos htype] at hmem
      split_ifs at hmem with hok
      · exact (Option.some.inj hmem).symm
      · exact absurd hmem (by simp)
  have hsteps {t : Client ω} (hheard : Heard (typeCommand mode) s t) :
      Steps (Kept start want) t.trace :=
    steps_heard hheard hs fun hf => absurd hf (by simp [hfile])
  have hrefused : Ends (runCommand net (typeCommand mode)) s fun ret t =>
      Heard (typeCommand mode) s t →
        ret ≠ .ok → t.sess.connected = true → settled t.trace = none := by
    by_cases hunread : s.unread = []
    · refine (runCommand_outcome hone hunread).mono fun ret t ht _ hret hc => ?_
      cases ht with
      | unsent _ ht => exact absurd hc (by simp [ht.connected, hungUp])
      | lost _ _ ht => exact absurd hc (by simp [ht.connected, hungUp])
      | refused _ _ _ ht => exact absurd hc (by simp [ht.connected, hungUp])
      | read r finals hparsed _ _ ht =>
        have hcode : okCode r.code = false := by
          rw [Bool.eq_false_iff]
          exact fun h => hret (hparsed.ok.mpr h)
        rw [ht.trace]
        simp [hasRead, answered, settled, htype, hcode]
    · exact Ends.of_forall fun ret t hheard _ hc => settled_unread hone htype hunread hheard hc
  refine (((runCommand_heard _ s).and hrefused).and (runCommand_closed _ s)).mono fun ret t ht => ?_
  exact ⟨hsteps ht.1.1, hknown ht.1.1, ht.1.2 ht.1.1, ht.2⟩

/-- Logging in when there is no mode to restore. -/
lemma open_unset (n : ℕ) {s : Client ω} (hs : Unset start want s ∧ s.sess.mode = .unknown) :
    Ends (openDepth net n) s fun ret t =>
      (Unset start want t ∧ t.sess.mode = .unknown) ∧ (ret = .ok → t.sess.connected = true) := by
  have hopen (restore : TranMode → Ftp ω FtpCode) : Ends (openWith net restore) s fun ret t =>
      (Unset start want t ∧ t.sess.mode = .unknown) ∧ (ret = .ok → t.sess.connected = true) := by
    simp only [openWith, ends_bind, ends_get, ends_ite, ends_pure]
    split_ifs with hc
    · exact ⟨hs, fun _ => hc⟩
    refine (((unset_dialling net start want).dial hs.1 (Bool.eq_false_iff.mpr hc)).and
      (dial_mode s)).mono fun ret t ht => ?_
    have hmode : t.sess.mode = .unknown := ht.2.trans hs.2
    split_ifs with hret hknown
    · exact ⟨⟨ht.1.1, hmode⟩, fun h => absurd h hret⟩
    · exact absurd hmode hknown
    · exact ⟨⟨ht.1.1, hmode⟩, fun _ => ht.1.2 (not_not.mp hret)⟩
  cases n <;> exact hopen _

/-- What `set_mode` leaves behind on the way into a session. -/
structure Restored (start : List Event) (want mode : TranMode) (ret : FtpCode) (t : Client ω) :
    Prop where
  steps : Steps (Kept start want) t.trace
  ok : ret = .ok → t.sess.connected = true ∧ t.sess.mode = mode ∧
    ∀ c ∈ settled t.trace, c = typeCommand mode
  failed : ret ≠ .ok → t.sess.mode = .unknown ∧ (t.sess.connected = true → settled t.trace = none)

lemma restore_mode (n : ℕ) {mode : TranMode} (hmode : mode ≠ .unknown) {s : Client ω}
    (hs : Unset start want s ∧ s.sess.mode = .unknown) :
    Ends (setModeWith (executeWith net (openDepth net n)) mode) s fun ret t =>
      Restored start want mode ret t := by
  have hne : s.sess.mode ≠ mode := by
    rw [hs.2]
    exact hmode.symm
  simp only [setModeWith_eq, ends_bind, ends_get, ends_ite, ends_pure, ends_updateSession, if_neg hne]
  refine (executeWith_cases
    (I := fun t => Unset start want t ∧ t.sess.mode = .unknown)
    (O := fun t => (Unset start want t ∧ t.sess.mode = .unknown) ∧ t.sess.connected = true)
    (F := fun _ t => Unset start want t ∧ t.sess.mode = .unknown)
    (Q := fun ret t => (Answered start want mode ret t ∧ t.sess.mode = .unknown) ∧
      (ret = .ok → t.sess.connected = true)) (fun s hs => ?_) (fun s hs => ?_) (fun t ht => ?_)
    hs).mono fun ret t h => ?_
  · refine (open_unset n hs).mono fun ret t ht => ?_
    split_ifs with hret
    · exact ⟨ht.1, ht.2 hret⟩
    · exact ht.1
  · rw [(typeCommand_facts mode).1]
    refine (((type_command mode hs.1.1.steps).and (runCommand_mode s _)).and
      (runCommand_connected _ s)).mono fun ret t ht => ?_
    exact ⟨⟨ht.1.1, ht.1.2.trans hs.1.2⟩, fun hret => (ht.2 hret).trans hs.2⟩
  · exact ⟨⟨ht.1.1.steps, fun hc => absurd hc (by simp [ht.1.1.broken rfl])⟩, ht.1.2⟩
  · obtain ⟨hret, ht⟩ | ⟨got, ht, rfl⟩ := h
    · rw [if_neg hret]
      exact ⟨ht.1.steps, fun h => absurd h hret, fun _ => ⟨rfl, ht.1.unset⟩⟩
    · by_cases hok : got = .ok
      · subst hok
        have hc := ht.2 rfl
        exact ⟨ht.1.1.steps, fun _ => ⟨hc, rfl, ht.1.1.known hc⟩, fun h => absurd rfl h⟩
      · have hfail : (if got = .broken then FtpCode.error else got) ≠ .ok := by
          split_ifs
          · decide
          · exact hok
        rw [if_neg hfail]
        exact ⟨ht.1.1.steps, fun h => absurd h hfail, fun _ => ⟨rfl, ht.1.1.refused hok⟩⟩

/-- `ftp_open` keeps the cached mode settled, or forgets it. -/
theorem typed_open (set : Bool) : OpenRule (Typed start want set) (ftpOpen net) := by
  intro s hs
  rw [ftpOpen, openDepth]
  simp only [openWith, ends_bind, ends_get, ends_ite, ends_pure]
  split_ifs with hc
  · exact ⟨hs, fun _ => hc⟩
  have hunset : Unset start want s := ⟨hs.steps, fun h => absurd h hc⟩
  refine (((unset_dialling net start want).dial hunset (Bool.eq_false_iff.mpr hc)).and
    (dial_mode s)).mono fun ret t ht => ?_
  have hnone : ∀ m : TranMode, t.sess.connected = true → ∀ c ∈ settled t.trace, c = typeCommand m :=
    fun m hc c hmem => absurd hmem (by simp [ht.1.1.unset hc])
  have hasked : set = true → t.sess.mode = want ∨
      t.sess.mode = .unknown ∧ (t.sess.connected = true → settled t.trace = none) := by
    intro hset
    rw [ht.2]
    exact (hs.asked hset).imp_right fun h => ⟨h.1, ht.1.1.unset⟩
  have hdialled : Typed start want set t := ⟨ht.1.1.steps, fun hc _ => hnone _ hc, hasked⟩
  split_ifs with hret hmode
  · exact ⟨hdialled, fun h => absurd h hret⟩
  · simp only [ends_updateSession]
    have hforgot : Unset start want { t with sess := { t.sess with mode := .unknown } } :=
      ⟨ht.1.1.steps, ht.1.1.unset⟩
    refine (restore_mode 0 hmode ⟨hforgot, rfl⟩).mono fun ret u hu => ?_
    refine ⟨⟨hu.steps, fun hc hknown c hmem => ?_, fun hset => ?_⟩, fun h => (hu.ok h).1⟩
    · by_cases hret : ret = .ok
      · obtain ⟨-, hm, hsettled⟩ := hu.ok hret
        rw [hm]
        exact hsettled c hmem
      · exact absurd (hu.failed hret).1 hknown
    · by_cases hret : ret = .ok
      · refine .inl ?_
        rw [(hu.ok hret).2.1]
        exact (hasked hset).resolve_right fun h => hmode h.1
      · exact .inr (hu.failed hret)
  · exact ⟨hdialled, fun _ => ht.1.2 (not_not.mp hret)⟩

/-- `set_mode` from between operations. -/
lemma typed_setMode {s : Client ω} (hs : Typed start want false s) :
    Ends (setMode net want) s fun ret t =>
      Typed start want false t ∧ (ret = .ok → Typed start want true t) := by
  simp only [setMode, setModeWith_eq, ends_bind, ends_get, ends_ite, ends_pure, ends_updateSession]
  by_cases hmode : s.sess.mode = want
  · rw [if_pos hmode]
    exact ⟨hs, fun _ => ⟨hs.steps, hs.known, fun _ => .inl hmode⟩⟩
  rw [if_neg hmode]
  refine (executeWith_cases
    (O := fun t => Typed start want false t ∧ t.sess.connected = true)
    (F := fun _ => Typed start want false)
    (Q := Answered start want want) (fun s hs => ?_) (fun s hs => ?_) (fun t ht => ?_)
    hs).mono fun ret t h => ?_
  · refine (typed_open false s hs).mono fun ret t ht => ?_
    split_ifs with hret
    · exact ⟨ht.1, ht.2 hret⟩
    · exact ht.1
  · rw [(typeCommand_facts want).1]
    exact type_command want hs.1.steps
  · exact ⟨ht.steps, fun hc => absurd hc (by simp [ht.broken rfl]), (by rintro ⟨⟩)⟩
  · have hforgot {ret : FtpCode} (hret : ret ≠ .ok) (hsteps : Steps (Kept start want) t.trace) :
        Typed start want false { t with sess := { t.sess with
          mode := if ret = .ok then want else .unknown } } := by
      rw [if_neg hret]
      exact ⟨hsteps, fun _ h => absurd rfl h, (by rintro ⟨⟩)⟩
    obtain ⟨hret, ht⟩ | ⟨got, ht, rfl⟩ := h
    · exact ⟨hforgot hret ht.steps, fun h => absurd h hret⟩
    · by_cases hok : got = .ok
      · subst hok
        have htyped : Typed start want true { t with sess := { t.sess with mode := want } } :=
          ⟨ht.steps, fun hc _ => ht.known hc, fun _ => .inl rfl⟩
        exact ⟨htyped.between, fun _ => htyped⟩
      · have hfail : (if got = .broken then FtpCode.error else got) ≠ .ok := by
          split_ifs
          · decide
          · exact hok
        exact ⟨hforgot hfail ht.steps, fun h => absurd h hfail⟩

/-! ### Operations -/

section Operations
variable (hwant : want ≠ .unknown)
include hwant

lemma typed_execute {cmd : Text} (hcmd : ¬ ascii "TYPE " <+: printInto 1024 cmd)
    (hfile : isFile (printInto 1024 cmd) = true → set = true) {s : Client ω}
    (hs : Typed start want set s) :
    Ends (execute net cmd) s fun _ t => Typed start want set t := by
  refine (executeWith_keeps (typed_open set) (fun s hs hc => ?_) hs).mono fun _ _ h => h.1
  exact typed_command hwant hs hcmd fun hf => ⟨hfile hf, hc⟩

lemma typed_verb {q t : Text} (htype : ¬ ascii "TYPE " <+: q ∧ ¬ q <+: ascii "TYPE ")
    (hq : ∀ v ∈ [ascii "STOR ", ascii "RETR "], ¬ v <+: q ∧ ¬ q <+: v) (hlen : q.length ≤ 1023)
    {s : Client ω} (hs : Typed start want set s) :
    Ends (execute net (q ++ t)) s fun _ t => Typed start want set t := by
  have hfile : isFile (printInto 1024 (q ++ t)) = false := isFile_verb (prefix_printInto hlen) hq
  exact typed_execute hwant (not_prefix_printInto htype 1024 t)
    (fun hf => absurd hf (by simp [hfile])) hs

lemma typed_dataRules (net : Network ω) {command : Text}
    (hcmd : ¬ ascii "TYPE " <+: printInto 1024 command)
    (hfile : isFile (printInto 1024 command) = true → set = true) :
    DataRules net command (Typed start want set) (Typed start want set) (Typed start want set) where
  still hst hs := hs.still hst
  still_negotiated hst hs := hs.still hst
  still_due hst hs := hs.still hst
  due := id
  ftpOpen := typed_open set
  port numbers hs :=
    (typed_verb hwant (by decide) (by decide) (by decide) hs).mono fun _ _ ht => ⟨ht, fun _ => ht⟩
  passive {s} cmd hmem hs := by
    have hcmd : ¬ ascii "TYPE " <+: printInto 1024 cmd ∧ isFile (printInto 1024 cmd) = false := by
      simp only [List.mem_cons, List.not_mem_nil, or_false] at hmem
      rcases hmem with rfl | rfl <;> decide
    exact (typed_execute hwant hcmd.1 (fun hf => absurd hf (by simp [hcmd.2])) hs).mono
      fun _ _ ht => ⟨ht, fun _ => ht⟩
  transfer hs := by
    have hprint := printInto_printInto 1024 bufsiz command (by decide)
    refine (typed_execute hwant (by rwa [hprint]) (by rwa [hprint]) hs).mono fun ret t ht => ?_
    rwa [ite_self]
  accepted hs := hs.mark nofun rfl
  refused hs := hs.mark nofun rfl

omit hwant in
lemma typed_close {s : Client ω} (hs : Typed start want set s) :
    Ends (dtpClose net) s fun _ t => Typed start want set t := by
  refine (((dtpClose_said s).and (dtpClose_onward s)).and (dtpClose_mode s)).mono fun _ t ht => ?_
  obtain ⟨⟨⟨success, more, htrace, hmore⟩, _, honward⟩, hmode⟩ := ht
  have hmark : Typed start want set (FtpRules.mark (.dataClosed success) s) := hs.mark nofun rfl
  have hsub : ∀ c ∈ settled t.trace, c ∈ settled s.trace := by
    rw [htrace]
    exact settled_talk rfl hmore
  refine ⟨?_, fun hc hm c hmem => ?_, fun hset => ?_⟩
  · rw [htrace]
    exact steps_talk rfl hmore hmark.steps
  · rw [hmode] at hm ⊢
    exact hs.known (honward.connected hc) hm c (hsub c hmem)
  · rw [hmode]
    refine (hs.asked hset).imp_right fun hu => ⟨hu.1, fun hc => ?_⟩
    refine Option.eq_none_iff_forall_not_mem.mpr fun c hmem => ?_
    exact absurd (hsub c hmem) (by simp [hu.2 (honward.connected hc)])

lemma typed_finish {s : Client ω} (hs : Typed start want false s) :
    Ends (ftpFinish net) s fun _ t => Typed start want false t := by
  simp only [ftpFinish, ends_bind, ends_get, ends_ite, ends_pure, ends_closePi]
  split_ifs
  · refine (typed_command hwant hs (by decide) (fun h => absurd h (by decide))).mono
      fun _ t ht => ?_
    exact ⟨ht.steps, (by rintro ⟨⟩), (by rintro ⟨⟩)⟩
  · exact hs

/-- The commands that `ftp_open` does not use itself. -/
def Untyped (cmd : Text) : Prop := ¬ ascii "TYPE " <+: cmd

theorem typed_opRules (net : Network ω) :
    OpRules net Untyped want (Typed start want true) (Typed start want false)
      (Typed start want false) where
  still hst hs := hs.still hst
  still_due hst hs := hs.still hst
  ftpOpen := typed_open false
  execute {cmd s} hcmd htransfer hs := by
    refine typed_execute hwant hcmd (fun hf => ?_) hs
    rw [isTransfer, Bool.or_eq_false_iff] at htransfer
    exact absurd (hf.symm.trans htransfer.1) (by decide)
  setMode := typed_setMode
  retrieve hcmd hs := by
    refine ((typed_dataRules hwant net hcmd fun _ => rfl).ftpDataOpen hs).mono fun ret t ht => ?_
    split_ifs at ht ⊢ <;> exact ht.between
  list {dir s} hcmd hs := by
    have hfile : isFile (printInto 1024 (ascii "LIST -la " ++ dir)) = false :=
      isFile_verb (prefix_printInto (by decide)) (by decide)
    exact (typed_dataRules hwant net hcmd fun hf => absurd hf (by simp [hfile])).ftpDataOpen hs
  close := typed_close
  finish := typed_finish hwant

lemma typed_maybeChdir (fn : Text) :
    ChdirRule net (Typed start want set) (Typed start want set) (fun _ => True) fn := by
  intro s hs
  have hlocated {t : Client ω} (ht : Typed start want set t) :
      Typed start want set (FtpRules.mark .located t) := ht.mark nofun rfl
  simp only [maybeChdir, ends_bind, ends_get]
  rw [ends_ite]
  split_ifs
  · exact ⟨trivial, hlocated hs⟩
  · simp only [ends_bind, ends_updateSession, ends_pure]
    refine (typed_verb hwant (by decide) (by decide) (by decide) hs).mono fun ret t ht => ?_
    have hcached (cwd : Text) : Typed start want set { t with sess := { t.sess with cwd } } :=
      ⟨ht.steps, ht.known, ht.asked⟩
    split_ifs
    · exact ⟨trivial, hlocated (hcached _)⟩
    · exact hcached _
  · exact ⟨trivial, hlocated hs⟩

lemma typed_ftpPut (localfile remotefile : Text) {asc : Bool}
    (hasc : (if asc then TranMode.ascii else TranMode.binary) = want) {s : Client ω}
    (hs : Typed start want false s) :
    Ends (ftpPut net localfile remotefile asc) s fun _ t => Typed start want false t := by
  have rules : StoreRules net (fun _ => True) (Typed start want true) (Typed start want true) :=
    { still := fun hst hs => hs.still hst
      still_due := fun hst hs => hs.still hst
      store := fun _ hs => (typed_dataRules hwant net (not_prefix_printInto (by decide) 1024 _)
        fun _ => rfl).ftpDataOpen hs
      close := typed_close
      again := fun fn _ => typed_maybeChdir hwant fn }
  refine rules.ftpPut
    (fun s w h => h.still (still_net s w)) (typed_maybeChdir hwant remotefile) (fun s hs => ?_)
    (fun _ h => h.mark nofun rfl) (fun _ h => h.mark nofun rfl)
    (fun _ h => h.between.mark nofun rfl) (fun _ h => h.between.mark nofun rfl) localfile hs
  rw [hasc]
  refine (typed_setMode hs).mono fun ret t ht => ?_
  split_ifs with hret
  · exact ht.2 hret
  · exact ht.1

theorem typed_runOp (ls : LsParser κ) (op : Op) (hop : ∀ mode ∈ request op, mode = want)
    {s : Client ω} (hs : Typed start want false s) :
    Ends (runOp net ls op) s fun _ t => Typed start want false t := by
  refine (typed_opRules hwant net).runOp ls op (fun cmd hcmd => ?_) hop (fun call hcall s hs => ?_) hs
  · obtain ⟨q, hq, t, rfl⟩ := ownCommands_verb hcmd
    have hverbs : ∀ q ∈ verbs, ¬ ascii "TYPE " <+: q ∧ ¬ q <+: ascii "TYPE " := by decide
    exact not_prefix_printInto (hverbs q hq) 1024 t
  · refine typed_ftpPut hwant call.1 call.2.1 (hop _ ?_) hs
    cases op <;> simp [upload] at hcall
    all_goals
      subst hcall
      rfl

end Operations

end Kept

/-! ### Runs -/

/-- Between operations the cached mode is the settled one. -/
def Coherent (s : Client ω) : Prop :=
  s.sess.connected = true → s.sess.mode ≠ .unknown →
    ∀ c ∈ settled s.trace, c = typeCommand s.sess.mode

/-- The mode of an operation, and any mode for the others. -/
def wanted (op : Op) : TranMode := (request op).getD .binary

lemma wanted_request {op : Op} : ∀ mode ∈ request op, mode = wanted op := by
  intro mode hmode
  rw [wanted, Option.mem_def.mp hmode]
  rfl

lemma wanted_known (op : Op) : wanted op ≠ .unknown := by
  have hask (asc : Bool) : (if asc then TranMode.ascii else TranMode.binary) ≠ .unknown := by
    cases asc <;> decide
  cases op <;> first | exact hask _ | exact nofun

lemma Coherent.typed {s : Client ω} (h : Coherent s) (want : TranMode) :
    Typed s.trace want false s :=
  ⟨steps_before (List.suffix_refl _), h, nofun⟩

/-- One operation from between operations. -/
lemma Coherent.runOp (ls : LsParser κ) (op : Op) {s : Client ω} (h : Coherent s) :
    Ends (runOp net ls op) s fun _ t => Typed s.trace (wanted op) false t :=
  typed_runOp (wanted_known op) ls op wanted_request (h.typed _)

lemma Coherent.runOps (ls : LsParser κ) (ops : List Op) {s : Client ω} (h : Coherent s) :
    Ends (runOps net ls ops) s fun _ t => Coherent t := by
  induction ops generalizing s with
  | nil => exact h
  | cons op ops ih =>
    simp only [FtpTransfer.runOps, ends_bind, ends_pure]
    exact (h.runOp ls op).mono fun _ t ht => ih ht.known

/-- The client after a run of operations from the start. -/
def afterOps (net : Network ω) (ls : LsParser κ) (ops : List Op) (w : ω) (usePassive useCwd : Bool)
    (username password : Text) (piAddr : List InetAddr) : Client ω :=
  ((runOps net ls ops).run
    { net := w, sess := startSession usePassive useCwd username password piAddr }).2

/-- After any run, an operation transfers its file in the type it was asked to, whenever the
last `TYPE` since the login was accepted and sent when nothing was unread. -/
theorem transfers_in_type (net : Network ω) (ls : LsParser κ) (ops : List Op) (op : Op) (w : ω)
    (usePassive useCwd : Bool) (username password : Text) (piAddr : List InetAddr) :
    let s := afterOps net ls ops w usePassive useCwd username password piAddr
    Steps (fun tr e => s.trace <:+ tr → (settled tr).isSome = true → InType (request op) tr e)
      ((runOp net ls op).run s).2.trace := by
  intro s
  have hstart : Coherent (ω := ω)
      { net := w, sess := startSession usePassive useCwd username password piAddr } :=
    fun hc => absurd hc (by simp [startSession])
  have hs : Coherent s := hstart.runOps ls ops
  have hop : Typed s.trace (wanted op) false ((runOp net ls op).run s).2 := hs.runOp ls op
  refine hop.steps.mono fun tr e h hstart hsome => ?_
  cases e with
  | answer line code dir =>
    intro mode hmode
    obtain rfl := wanted_request mode hmode
    exact h hstart hsome _ rfl
  | _ => exact trivial

/-! ### A type that is not restored -/

/-- A server over IPv6 that does not know `EPSV`, and refuses `TYPE` after the connection was
lost at the eighth read. -/
def forgetfulNetwork : Network ℕ where
  feLogin _ _ := pure none
  connect _ := pure true
  greeting := pure (.checked 220 [] (Eq.refl true))
  loginDir := pure (ascii "/home")
  answer line := do
    let n ← get
    pure (if (ascii "USER").isPrefixOf line then .checked 230 [] (Eq.refl true)
      else if (ascii "TYPE").isPrefixOf line then
        if n < 8 then .checked 200 [] (Eq.refl true)
        else .checked 504 [] (Eq.refl true)
      else if (ascii "PASV").isPrefixOf line then
        .checked 227 (ascii "(127,0,0,1,4,1)") (Eq.refl true)
      else if (ascii "STOR").isPrefixOf line then .checked 150 [] (Eq.refl true)
      else .checked 500 [] (Eq.refl true))
  final := pure (.checked 226 [] (Eq.refl true))
  write := pure none
  readline := do
    let n ← get
    set (n + 1)
    pure (if n = 7 then some .closed else none)
  mktime _ := 0
  dtpConnect _ _ := pure true
  listen := pure none
  accept := pure true
  dtpWrite _ := pure none
  dtpRead := pure ([], .closed)
  dtpClose := pure true
  fopen _ := pure (some (ascii "data"))
  fstat := pure true
  ferror := pure none
  fseek := pure true
  fcreate _ := pure true
  fwrite := pure none
  fclose := pure true

def forgottenRun : List FtpCode × Client ℕ :=
  (runOps forgetfulNetwork emptyListing
    [.put (ascii "a") (ascii "a") false, .put (ascii "b") (ascii "b") false]).run
    { net := 0
      sess := startSession true false (ascii "u") (ascii "p") [⟨.ipv6, List.replicate 16 0⟩] }

/-- `EPSV` fails because the mode cannot be restored, `PASV` succeeds without it, and the second
file is stored in the type of a new login, and reported as a success. -/
theorem stored_in_default_type :
    forgottenRun.1 = [.ok, .ok] ∧
      ¬ Steps (InType (some .binary)) forgottenRun.2.trace := by
  decide +kernel

end Sitecopy.FtpTransferType
