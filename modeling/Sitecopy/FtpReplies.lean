import Sitecopy.FtpTransfer

/-!
# What a command does

Reading consumes exactly one well-formed reply, and `run_command` has three outcomes:
the command was not sent, its reply was lost with the connection, or it was read.
-/
namespace Sitecopy.FtpReplies
open SiteModel SiteOperations Numerals StateProgram FtpSession FtpTransfer

variable {ω : Type} {net : Network ω}

section Primitives
variable {α : Type} (s : Client ω)

@[simp] theorem ends_outside (m : StateM ω α) (Q : α → Client ω → Prop) :
    Ends (outside m) s Q ↔ Ends m s.net fun a w => Q a { s with net := w } := Iff.rfl

@[simp] theorem ends_updateSession (f : Session → Session) (Q : PUnit → Client ω → Prop) :
    Ends (updateSession f) s Q ↔ Q ⟨⟩ { s with sess := f s.sess } := Iff.rfl

@[simp] theorem ends_record (e : Event) (Q : PUnit → Client ω → Prop) :
    Ends (record e) s Q ↔ Q ⟨⟩ { s with trace := e :: s.trace } := Iff.rfl

@[simp] theorem ends_closePi (Q : PUnit → Client ω → Prop) :
    Ends closePi s Q ↔
      Q ⟨⟩ { s with sess := { s.sess with connected := false }, unread := [] } := Iff.rfl

end Primitives

/-- The states agree in all that the properties of a run are about. -/
structure Alike (s t : Client ω) : Prop where
  unread : t.unread = s.unread
  dir : t.dir = s.dir
  sent : t.sent = s.sent
  trace : t.trace = s.trace
  connected : t.sess.connected = s.sess.connected
  cwd : t.sess.cwd = s.sess.cwd
  useCwd : t.sess.useCwd = s.sess.useCwd

lemma Alike.rfl {s : Client ω} : Alike s s := ⟨.refl _, .refl _, .refl _, .refl _, .refl _, .refl _, .refl _⟩

lemma Alike.trans {s t u : Client ω} (h : Alike s t) (g : Alike t u) : Alike s u :=
  ⟨g.unread.trans h.unread, g.dir.trans h.dir, g.sent.trans h.sent, g.trace.trans h.trace,
    g.connected.trans h.connected, g.cwd.trans h.cwd, g.useCwd.trans h.useCwd⟩

/-- What every step between logins respects. -/
structure Onward (s t : Client ω) : Prop where
  trace : s.trace <:+ t.trace
  connected : t.sess.connected = true → s.sess.connected = true
  cwd : t.sess.cwd = s.sess.cwd
  useCwd : t.sess.useCwd = s.sess.useCwd

lemma Onward.rfl {s : Client ω} : Onward s s := ⟨List.suffix_refl _, id, .refl _, .refl _⟩

lemma Onward.trans {s t u : Client ω} (h : Onward s t) (g : Onward t u) : Onward s u :=
  ⟨h.trace.trans g.trace, h.connected ∘ g.connected, g.cwd.trans h.cwd, g.useCwd.trans h.useCwd⟩

lemma Alike.onward {s t : Client ω} (h : Alike s t) : Onward s t :=
  ⟨h.trace ▸ List.suffix_refl _, fun ht => h.connected ▸ ht, h.cwd, h.useCwd⟩

/-! ### Framing of replies -/

section Framing
variable {code : ℕ} {b : UInt8} {rest : Text}

lemma codeDigits_isDigit (hcode : code < 1000) : ∀ d ∈ codeDigits code, isDigit 10 d = true := by
  intro d hd
  simp only [codeDigits, List.mem_cons, List.not_mem_nil, or_false] at hd
  rcases hd with rfl | rfl | rfl <;> simp [isDigit, UInt8.toNat_ofNat'] <;> omega

lemma scanDigits_codeDigits (hcode : code < 1000) (hb : isDigit 10 b = false) :
    scanDigits 10 (codeDigits code ++ b :: rest) = code := by
  have htake : (codeDigits code ++ b :: rest).takeWhile (isDigit 10) = codeDigits code := by
    rw [List.takeWhile_append_of_pos (codeDigits_isDigit hcode), List.takeWhile_cons, hb]
    simp
  rw [scanDigits, htake]
  simp only [codeDigits, List.foldl_cons, List.foldl_nil, UInt8.toNat_ofNat']
  omega

lemma lineCode_codeDigits (hcode : code < 1000) (hb : isDigit 10 b = false) (hrest : rest ≠ []) :
    lineCode (codeDigits code ++ b :: rest) = some code := by
  have hlen : 0 < rest.length := List.length_pos_iff.mpr hrest
  have htake : (codeDigits code ++ b :: rest).take 3 = codeDigits code := rfl
  rw [lineCode, htake, scanDigits_codeDigits hcode hb, if_pos]
  refine ⟨?_, List.all_eq_true.mpr (codeDigits_isDigit hcode)⟩
  simp only [List.length_append, List.length_cons]
  have : (codeDigits code).length = 3 := rfl
  omega

/-- A line that the loop takes for the end of the reply does start with the code. -/
lemma codeDigits_starts {t : Text} (ht : lineCode t = some code) (h3 : t.getD 3 0 = 32) :
    codeDigits code ++ [32] <+: t := by
  rw [lineCode] at ht
  split_ifs at ht with hlen
  match t, hlen with
  | a :: b :: c :: d :: e :: rest, ⟨_, hall⟩ =>
    obtain rfl : d = 32 := by simpa using h3
    simp only [List.take_succ_cons, List.take_zero, List.all_cons, List.all_nil, Bool.and_true,
      Bool.and_eq_true] at hall
    obtain ⟨ha, hb, hc⟩ := hall
    have h32 : isDigit 10 32 = false := by decide
    have hcode : scanDigits 10 (a :: b :: c :: 32 :: e :: rest) = code := by simpa using ht
    simp only [scanDigits, List.takeWhile_cons, ha, hb, hc, h32, if_true, Bool.false_eq_true, if_false,
      List.foldl_cons, List.foldl_nil] at hcode
    have hdigit : ∀ x : UInt8, isDigit 10 x = true → 48 ≤ x.toNat ∧ x.toNat < 58 := by
      intro x hx
      simpa [isDigit] using hx
    have ha' := hdigit a ha
    have hb' := hdigit b hb
    have hc' := hdigit c hc
    have hofNat : ∀ (x : UInt8) (n : ℕ), n = x.toNat → UInt8.ofNat n = x := by
      rintro x _ rfl
      exact UInt8.ofNat_toNat
    have hdigits : codeDigits code = [a, b, c] := by
      rw [codeDigits, hofNat a _ (by omega), hofNat b _ (by omega), hofNat c _ (by omega)]
    rw [hdigits]
    exact ⟨e :: rest, rfl⟩

end Framing

section Reply
variable (r : Reply)

/-- The last line closes the reply, whatever was read of it before. -/
lemma replyStep_last (before multiline : ℕ) (hm : multiline = 0 ∨ multiline = r.code) :
    replyStep r.last before multiline = (r.code, 0) := by
  have hline : lineCode r.last = some r.code := by
    rw [Reply.last, List.append_assoc]
    exact lineCode_codeDigits r.three_digits.2 (by decide) (by simp)
  have h3 : r.last.getD 3 0 = 32 := rfl
  rw [replyStep, hline]
  simp only [h3]
  rcases hm with rfl | rfl
  · have h0 : ¬ 0 = r.code := by have := r.three_digits.1; omega
    simp [h0]
  · simp

lemma replyStep_first {t : Text} (ht : t ∈ r.more.head?) : replyStep t 0 0 = (r.code, r.code) := by
  obtain ⟨rest, hrest⟩ := r.opened t ht
  obtain ⟨body, hbody, -⟩ := r.one_line_each t (List.mem_of_mem_head? ht)
  have hne : rest ≠ [] := by
    rintro rfl
    have hlast := congrArg List.getLast? (hrest.trans hbody)
    rw [List.append_nil, List.getLast?_append, List.getLast?_append] at hlast
    simp at hlast
  have h3 : t.getD 3 0 = 45 := by rw [← hrest]; rfl
  have hline : lineCode t = some r.code := by
    rw [← hrest, List.append_assoc]
    exact lineCode_codeDigits r.three_digits.2 (by decide) hne
  rw [replyStep, hline]
  exact if_pos ⟨rfl, h3⟩

lemma replyStep_between {t : Text} (ht : t ∈ r.more.tail) (before : ℕ) :
    (replyStep t before r.code).2 = r.code := by
  have h0 : r.code ≠ 0 := by have := r.three_digits.1; omega
  rw [replyStep]
  cases hline : lineCode t with
  | none => rfl
  | some c =>
    simp only [h0, false_and, if_false]
    split_ifs with hend
    · obtain ⟨rfl, h3⟩ := hend
      exact absurd (codeDigits_starts hline h3) (r.between t ht)
    · rfl

end Reply

/-- How a reading of a reply with `lines` ends. -/
def Framed (code : ℕ) (lines rest : List Line) (res : Reading) : Prop :=
  (∃ e, res.result = .error e) ∨
    res.result = .ok code ∧ res.taken = lines ∧ res.unread = rest

lemma readLines_between (r : Reply) (origin : Origin) (rest : List Line) :
    ∀ (mid : List Text), (∀ t ∈ mid, t ∈ r.more.tail) → ∀ taken before rbuf (w : ω),
      Ends (readLines net ((mid ++ [r.last]).map (Line.mk origin) ++ rest) taken before r.code rbuf) w
        fun res _ => Framed r.code (taken ++ (mid ++ [r.last]).map (Line.mk origin)) rest res := by
  intro mid
  induction mid with
  | nil =>
    intro _ taken before rbuf w
    simp only [List.nil_append, List.map_cons, List.map_nil, List.cons_append, readLines, ends_bind]
    refine Ends.of_forall fun fault w => ?_
    cases fault with
    | some e => exact .inl ⟨e, rfl⟩
    | none =>
      simp only [replyStep_last r before r.code (.inr rfl), if_true, ends_pure]
      exact .inr ⟨rfl, rfl, rfl⟩
  | cons t mid ih =>
    intro hmid taken before rbuf w
    have h0 : r.code ≠ 0 := by have := r.three_digits.1; omega
    have hstep := replyStep_between r (hmid t (List.mem_cons_self ..)) before
    simp only [List.cons_append, List.map_cons, readLines, ends_bind]
    refine Ends.of_forall fun fault w => ?_
    cases fault with
    | some e => exact .inl ⟨e, rfl⟩
    | none =>
      simp only [hstep, h0, if_false]
      refine (ih (fun t ht => hmid t (List.mem_cons_of_mem _ ht)) _ _ _ _).mono fun res _ h => ?_
      simpa using h

/-- Reading takes exactly the lines of one reply, unless the connection fails. -/
theorem readLines_reply (r : Reply) (origin : Origin) (rest : List Line) (rbuf : Text) (w : ω) :
    Ends (readLines net (r.lines origin ++ rest) [] 0 0 rbuf) w
      fun res _ => Framed r.code (r.lines origin) rest res := by
  rw [Reply.lines]
  cases hmore : r.more with
  | nil =>
    simp only [List.nil_append, List.map_cons, List.map_nil, List.cons_append, readLines, ends_bind]
    refine Ends.of_forall fun fault w => ?_
    cases fault with
    | some e => exact .inl ⟨e, rfl⟩
    | none =>
      simp only [replyStep_last r 0 0 (.inl rfl), if_true, ends_pure]
      exact .inr ⟨rfl, rfl, rfl⟩
  | cons first mid =>
    have h0 : r.code ≠ 0 := by have := r.three_digits.1; omega
    have hfirst := replyStep_first r (t := first) (by simp [hmore])
    simp only [List.cons_append, List.map_cons, readLines, ends_bind]
    refine Ends.of_forall fun fault w => ?_
    cases fault with
    | some e => exact .inl ⟨e, rfl⟩
    | none =>
      simp only [hfirst, h0, if_false]
      refine (readLines_between r origin rest mid ?_ _ _ _ _).mono fun res _ h => h
      intro t ht
      simpa [hmore] using ht

/-! ### Reading and parsing a reply -/

/-- The client has closed the control connection. -/
def hungUp (s : Client ω) : Client ω :=
  { s with sess := { s.sess with connected := false }, unread := [] }

/-- The client has read `lines` as the reply of `origin`, and `rest` is left. -/
def hasRead (origin : Origin) (lines rest : List Line) (s : Client ω) : Client ω :=
  { s with unread := rest, trace := .reply origin lines :: s.trace }

/-- The codes that stand for a failure of the control connection. -/
def IsFault (ret : FtpCode) : Prop := ret = .broken ∨ ret = .error

lemma isFault_ite (b : Bool) : IsFault (if b then .broken else .error) := by
  cases b
  · exact .inr rfl
  · exact .inl rfl

/-- `read_reply` when one reply is the next thing on the connection. -/
theorem readReply_reply {s : Client ω} {r : Reply} {origin : Origin} {rest : List Line}
    (taker : Origin) (hs : s.unread = r.lines origin ++ rest) :
    Ends (readReply net taker) s fun res t =>
      (∃ ret, res = .error ret ∧ IsFault ret ∧ Alike (hungUp s) t) ∨
        res = .ok r.code ∧ Alike (hasRead taker (r.lines origin) rest s) t := by
  simp only [readReply, ends_bind, ends_get, ends_outside, ends_modify, hs]
  refine (readLines_reply r origin rest s.sess.rbuf s.net).mono fun res w h => ?_
  obtain ⟨e, he⟩ | ⟨hcode, htaken, hrest⟩ := h
  · simp only [he, ends_bind, ends_closePi, ends_pure]
    exact .inl ⟨_, rfl, isFault_ite _, ⟨rfl, rfl, rfl, rfl, rfl, rfl, rfl⟩⟩
  · simp only [hcode, ends_bind, ends_record, ends_pure]
    exact .inr ⟨trivial, ⟨hrest, rfl, rfl, by rw [hasRead, htaken], rfl, rfl, rfl⟩⟩

/-- `read_reply` when one reply is all there is. -/
theorem readReply_only {s : Client ω} {r : Reply} {origin : Origin} (taker : Origin)
    (hs : s.unread = r.lines origin) :
    Ends (readReply net taker) s fun res t =>
      (∃ ret, res = .error ret ∧ IsFault ret ∧ Alike (hungUp s) t) ∨
        res = .ok r.code ∧ Alike (hasRead taker (r.lines origin) [] s) t :=
  readReply_reply taker (by rw [hs, List.append_nil])

/-- `read_reply` when nothing is to come. -/
theorem readReply_nothing {s : Client ω} (taker : Origin) (hs : s.unread = []) :
    Ends (readReply net taker) s fun res t =>
      ∃ ret, res = .error ret ∧ IsFault ret ∧ Alike (hungUp s) t := by
  simp only [readReply, ends_bind, ends_get, ends_outside, ends_modify, hs, readLines, ends_pure]
  refine Ends.of_forall fun fault w => ?_
  exact ⟨_, rfl, isFault_ite _, ⟨rfl, rfl, rfl, rfl, rfl, rfl, rfl⟩⟩

/-- `read_reply` on any connection. -/
theorem readReply_onward (s : Client ω) (taker : Origin) :
    Ends (readReply net taker) s fun _ t => Onward s t := by
  simp only [readReply, ends_bind, ends_get, ends_outside, ends_modify]
  refine Ends.of_forall fun res w => ?_
  cases res.result with
  | error e =>
    simp only [ends_bind, ends_closePi, ends_pure]
    exact ⟨List.suffix_refl _, (by rintro ⟨⟩), rfl, rfl⟩
  | ok code =>
    simp only [ends_bind, ends_record, ends_pure]
    exact ⟨List.suffix_cons _ _, id, rfl, rfl⟩

lemma parseModtime_alike (s : Client ω) :
    Ends (parseModtime net) s fun ret t => (ret = .modtime ∨ ret = .error) ∧ Alike s t := by
  simp only [parseModtime, ends_bind, ends_updateSession, ends_get]
  rw [ends_ite]
  split_ifs
  · exact ⟨.inr rfl, ⟨rfl, rfl, rfl, rfl, rfl, rfl, rfl⟩⟩
  · split
    · exact ⟨.inl rfl, ⟨rfl, rfl, rfl, rfl, rfl, rfl, rfl⟩⟩
    · exact ⟨.inr rfl, ⟨rfl, rfl, rfl, rfl, rfl, rfl, rfl⟩⟩

lemma parsePasvReply_alike (reply : Text) (s : Client ω) :
    Ends (parsePasvReply reply) s fun ret t => (ret = .passive ∨ ret = .error) ∧ Alike s t := by
  unfold parsePasvReply
  split
  · exact ⟨.inr rfl, Alike.rfl⟩
  · split
    · exact ⟨.inl rfl, ⟨rfl, rfl, rfl, rfl, rfl, rfl, rfl⟩⟩
    · exact ⟨.inr rfl, Alike.rfl⟩

lemma parseEpasvReply_alike (reply : Text) (s : Client ω) :
    Ends (parseEpasvReply reply) s fun ret t => (ret = .passive ∨ ret = .error) ∧ Alike s t := by
  unfold parseEpasvReply
  simp only [ends_ite]
  split_ifs
  · exact ⟨.inr rfl, Alike.rfl⟩
  · exact ⟨.inr rfl, Alike.rfl⟩
  · exact ⟨.inl rfl, ⟨rfl, rfl, rfl, rfl, rfl, rfl, rfl⟩⟩

/-- What the codes of `parse_reply` tell about the reply. -/
structure Parsed (code : ℕ) (ret : FtpCode) : Prop where
  ok : ret = .ok ↔ okCode code = true
  ready : ret = .ready ↔ readyCode code = true
  broken : ret = .broken ↔ code = 421
  passive : ret = .passive → code = 227 ∨ code = 229

/-- `parse_reply` closes the connection on 421 and leaves it alone otherwise. -/
theorem parseReply_parsed (code : ℕ) (s : Client ω) :
    Ends (parseReply net code) s fun ret t =>
      Parsed code ret ∧ Alike (if code = 421 then hungUp s else s) t := by
  unfold parseReply
  split
  case h_14 =>
    simp only [ends_bind, ends_closePi, ends_pure]
    exact ⟨⟨by decide, by decide, by decide, by decide⟩, Alike.rfl⟩
  case h_16 =>
    refine (parseModtime_alike s).mono fun ret t h => ⟨?_, h.2⟩
    obtain rfl | rfl := h.1 <;> exact ⟨by decide, by decide, by decide, by decide⟩
  case h_17 =>
    simp only [ends_bind, ends_get]
    refine (parsePasvReply_alike _ s).mono fun ret t h => ⟨?_, h.2⟩
    obtain rfl | rfl := h.1 <;> exact ⟨by decide, by decide, by decide, by decide⟩
  case h_18 =>
    simp only [ends_bind, ends_get]
    refine (parseEpasvReply_alike _ s).mono fun ret t h => ⟨?_, h.2⟩
    obtain rfl | rfl := h.1 <;> exact ⟨by decide, by decide, by decide, by decide⟩
  case h_19 =>
    have h421 : code ≠ 421 := by assumption
    rw [ends_pure, if_neg h421]
    refine ⟨⟨?_, ?_, by simp [h421], (by rintro ⟨⟩)⟩, Alike.rfl⟩
    · simp_all [okCode]
    · simp_all [readyCode]
  all_goals
    rw [ends_pure]
    exact ⟨⟨by decide, by decide, by decide, by decide⟩, Alike.rfl⟩

/-! ### Outcomes of a command -/

lemma hungUp_onward (s : Client ω) : Onward s (hungUp s) := ⟨List.suffix_refl _, nofun, rfl, rfl⟩

theorem parseReply_onward (code : ℕ) (s : Client ω) :
    Ends (parseReply net code) s fun _ t => Onward s t := by
  refine (parseReply_parsed code s).mono fun ret t h => ?_
  have ht := h.2.onward
  split_ifs at ht
  · exact (hungUp_onward s).trans ht
  · exact ht

lemma serve_onward (line : Text) (s : Client ω) :
    Ends (serve net line) s fun _ t => Onward s t := by
  simp only [serve, ends_bind, ends_outside, ends_modify, ends_ite, ends_pure]
  refine Ends.of_forall fun r w => ?_
  split_ifs
  · exact Ends.of_forall fun f w => ⟨List.suffix_cons _ _, id, rfl, rfl⟩
  · exact ⟨List.suffix_cons _ _, id, rfl, rfl⟩

lemma serveAll_onward (lines : List Text) (s : Client ω) :
    Ends (serveAll net lines) s fun _ t => Onward s t := by
  induction lines generalizing s with
  | nil => exact Onward.rfl
  | cons line lines ih =>
    simp only [serveAll, ends_bind]
    exact (serve_onward line s).mono fun _ t h => (ih t).mono fun _ u => h.trans

/-- The command is on record. -/
def wrote (cmd : Text) (s : Client ω) : Client ω :=
  { s with trace := .command cmd s.unread :: s.trace }

lemma wrote_onward (cmd : Text) (s : Client ω) : Onward s (wrote cmd s) :=
  ⟨List.suffix_cons _ _, id, rfl, rfl⟩

/-- `run_command` on any connection. -/
theorem runCommand_onward (cmd : Text) (s : Client ω) :
    Ends (runCommand net cmd) s fun _ t => Onward (wrote cmd s) t := by
  simp only [runCommand, writeCommand, ends_bind, ends_modify, ends_outside]
  refine Ends.of_forall fun fault w => ?_
  cases fault with
  | some e =>
    simp only [ends_pure, ends_bind, ends_closePi]
    exact ⟨List.suffix_refl _, (by rintro ⟨⟩), rfl, rfl⟩
  | none =>
    simp only [ends_bind, ends_pure]
    refine (serveAll_onward _ _).mono fun _ t h => ?_
    have hst : Onward (wrote cmd s) t := ⟨h.trace, h.connected, h.cwd, h.useCwd⟩
    rw [ends_get]
    refine (readReply_onward t _).mono fun res u hu => ?_
    cases res with
    | error ret => exact hst.trans hu
    | ok code => exact (parseReply_onward code u).mono fun _ v hv => (hst.trans hu).trans hv

lemma serve_sess (line : Text) (s : Client ω) :
    Ends (serve net line) s fun _ t => t.sess = s.sess := by
  simp only [serve, ends_bind, ends_outside, ends_modify, ends_ite, ends_pure]
  refine Ends.of_forall fun r w => ?_
  split_ifs
  exact Ends.of_forall fun f w => trivial

lemma serveAll_sess (lines : List Text) (s : Client ω) :
    Ends (serveAll net lines) s fun _ t => t.sess = s.sess := by
  induction lines generalizing s with
  | nil => rfl
  | cons line lines ih =>
    simp only [serveAll, ends_bind]
    exact (serve_sess line s).mono fun _ t h => (ih t).mono fun _ u g => g.trans h

lemma readReply_connected (s : Client ω) (taker : Origin) :
    Ends (readReply net taker) s fun res t =>
      match res with
      | .error ret => IsFault ret
      | .ok _ => t.sess.connected = s.sess.connected := by
  simp only [readReply, ends_bind, ends_get, ends_outside, ends_modify]
  refine Ends.of_forall fun res w => ?_
  cases res.result with
  | error e => exact isFault_ite _
  | ok code => rfl

lemma readReply_closed (s : Client ω) (taker : Origin) :
    Ends (readReply net taker) s fun res t =>
      match res with
      | .error _ => t.sess.connected = false
      | .ok _ => True := by
  simp only [readReply, ends_bind, ends_get, ends_outside, ends_modify]
  refine Ends.of_forall fun res w => ?_
  cases res.result with
  | error e => exact rfl
  | ok code => exact trivial

/-- A command that succeeds leaves the connection open. -/
theorem runCommand_connected (cmd : Text) (s : Client ω) :
    Ends (runCommand net cmd) s fun ret t => ret = .ok → t.sess.connected = s.sess.connected := by
  simp only [runCommand, writeCommand, ends_bind, ends_modify, ends_outside]
  refine Ends.of_forall fun fault w => ?_
  cases fault with
  | some e =>
    simp only [ends_pure, ends_bind, ends_closePi]
    cases e <;> rintro ⟨⟩
  | none =>
    simp only [ends_bind, ends_pure]
    refine (serveAll_sess _ _).mono fun _ t ht => ?_
    rw [ends_get]
    refine (readReply_connected t _).mono fun res u hu => ?_
    cases res with
    | error ret =>
      rintro rfl
      exact absurd hu (by simp [IsFault])
    | ok code =>
      refine (parseReply_parsed code u).mono fun ret v hv hret => ?_
      have hcode : code ≠ 421 := by
        rintro rfl
        exact absurd (hv.1.ok.mp hret) (by decide)
      rw [if_neg hcode] at hv
      exact hv.2.connected.trans (hu.trans (by rw [ht]))

/-- A command that finds the connection broken closes it. -/
theorem runCommand_closed (cmd : Text) (s : Client ω) :
    Ends (runCommand net cmd) s fun ret t => ret = .broken → t.sess.connected = false := by
  simp only [runCommand, writeCommand, ends_bind, ends_modify, ends_outside]
  refine Ends.of_forall fun fault w => ?_
  cases fault with
  | some e =>
    simp only [ends_pure, ends_bind, ends_closePi]
    exact fun _ => trivial
  | none =>
    simp only [ends_bind, ends_pure]
    refine Ends.of_forall fun _ t => ?_
    rw [ends_get]
    refine (readReply_closed t _).mono fun res u hu => ?_
    cases res with
    | error ret => exact fun _ => hu
    | ok code =>
      refine (parseReply_parsed code u).mono fun ret v hv hret => ?_
      rw [if_pos (hv.1.broken.mp hret)] at hv
      exact hv.2.connected

/-! ### What is said after a command -/

/-- The server speaks, or the client listens. -/
def Talk : Event → Prop
  | .answer .. | .reply .. => True
  | _ => False

/-- Only answers and replies were added to the trace. -/
def Said (s t : Client ω) : Prop := ∃ more, t.trace = more ++ s.trace ∧ ∀ e ∈ more, Talk e

lemma Said.rfl {s : Client ω} : Said s s := ⟨[], .refl _, by simp⟩

lemma Said.trans {s t u : Client ω} (h : Said s t) (g : Said t u) : Said s u := by
  obtain ⟨more, ht, hmore⟩ := h
  obtain ⟨more', hu, hmore'⟩ := g
  refine ⟨more' ++ more, by rw [hu, ht, List.append_assoc], ?_⟩
  intro e he
  exact (List.mem_append.mp he).elim (hmore' e) (hmore e)

lemma Said.of_trace {s t : Client ω} (h : t.trace = s.trace) : Said s t := ⟨[], h, by simp⟩

lemma readReply_said (s : Client ω) (taker : Origin) :
    Ends (readReply net taker) s fun _ t => Said s t := by
  simp only [readReply, ends_bind, ends_get, ends_outside, ends_modify]
  refine Ends.of_forall fun res w => ?_
  cases res.result with
  | error e =>
    simp only [ends_bind, ends_closePi, ends_pure]
    exact .of_trace rfl
  | ok code =>
    simp only [ends_bind, ends_record, ends_pure]
    exact ⟨[.reply taker res.taken], rfl, by simp [Talk]⟩

lemma parseReply_said (code : ℕ) (s : Client ω) :
    Ends (parseReply net code) s fun _ t => Said s t := by
  refine (parseReply_parsed code s).mono fun ret t h => .of_trace ?_
  rw [h.2.trace]
  split_ifs <;> rfl

lemma serve_said (line : Text) (s : Client ω) : Ends (serve net line) s fun _ t => Said s t := by
  simp only [serve, ends_bind, ends_outside, ends_modify, ends_ite, ends_pure]
  refine Ends.of_forall fun r w => ?_
  have hanswer (t : Client ω) (ht : t.trace = .answer line r.code s.dir :: s.trace) : Said s t :=
    ⟨[.answer line r.code s.dir], ht, by simp [Talk]⟩
  split_ifs
  · exact Ends.of_forall fun f w => hanswer _ rfl
  · exact hanswer _ rfl

lemma serveAll_said (lines : List Text) (s : Client ω) :
    Ends (serveAll net lines) s fun _ t => Said s t := by
  induction lines generalizing s with
  | nil => exact Said.rfl
  | cons line lines ih =>
    simp only [serveAll, ends_bind]
    exact (serve_said line s).mono fun _ t h => (ih t).mono fun _ u => h.trans

/-- `run_command` puts its command on record, and then what is said. -/
theorem runCommand_said (cmd : Text) (s : Client ω) :
    Ends (runCommand net cmd) s fun _ t => Said (wrote cmd s) t := by
  simp only [runCommand, writeCommand, ends_bind, ends_modify, ends_outside]
  refine Ends.of_forall fun fault w => ?_
  cases fault with
  | some e =>
    simp only [ends_pure, ends_bind, ends_closePi]
    exact .of_trace rfl
  | none =>
    simp only [ends_bind, ends_pure]
    refine (serveAll_said _ _).mono fun _ t h => ?_
    have hst : Said (wrote cmd s) t := h
    rw [ends_get]
    refine (readReply_said t _).mono fun res u hu => ?_
    cases res with
    | error ret => exact hst.trans hu
    | ok code => exact (parseReply_said code u).mono fun _ v hv => (hst.trans hu).trans hv

/-- The further lines that the server sends after the reply to a command. -/
def Finals (cmd : Text) (code n : ℕ) (finals : List Line) : Prop :=
  if isTransfer cmd && 100 ≤ code && code < 200 then ∃ f : Reply, finals = f.lines (.final n)
  else finals = []

/-- The server has answered the command. -/
def answered (cmd : Text) (code : ℕ) (s : Client ω) : Client ω :=
  { s with
    sent := s.sent + 1
    dir := dirAfter cmd code s.dir
    trace := .answer cmd code s.dir :: s.trace }

/-- How `run_command` ends when its command is one line and nothing was unread. -/
inductive Outcome (cmd : Text) (s : Client ω) (ret : FtpCode) (t : Client ω) : Prop
  | unsent (hret : IsFault ret) (ht : Alike (hungUp (wrote cmd s)) t)
  | lost (code : ℕ) (hret : IsFault ret) (ht : Alike (hungUp (answered cmd code (wrote cmd s))) t)
  | refused (r : Reply) (hret : ret = .broken) (hcode : r.code = 421)
      (ht : Alike (hungUp (hasRead (.reply (s.sent + 1)) (r.lines (.reply (s.sent + 1))) []
        (answered cmd r.code (wrote cmd s)))) t)
  | read (r : Reply) (finals : List Line) (hret : Parsed r.code ret) (hcode : r.code ≠ 421)
      (hfinals : Finals cmd r.code (s.sent + 1) finals)
      (ht : Alike (hasRead (.reply (s.sent + 1)) (r.lines (.reply (s.sent + 1))) finals
        (answered cmd r.code (wrote cmd s))) t)

lemma serve_answered (cmd : Text) (s : Client ω) (hs : s.unread = []) :
    Ends (serve net cmd) s fun _ t => ∃ (r : Reply) (finals : List Line),
      Finals cmd r.code (s.sent + 1) finals ∧
      t.unread = r.lines (.reply (s.sent + 1)) ++ finals ∧
      Alike { answered cmd r.code s with unread := t.unread } t := by
  simp only [serve, ends_bind, ends_outside, ends_modify, ends_ite, ends_pure, hs, List.nil_append]
  refine Ends.of_forall fun r w => ?_
  split_ifs with htransfer
  · refine Ends.of_forall fun f w => ⟨r, f.lines (.final (s.sent + 1)), ?_, rfl, ?_⟩
    · rw [Finals, if_pos htransfer]
      exact ⟨f, rfl⟩
    · exact ⟨rfl, rfl, rfl, rfl, rfl, rfl, rfl⟩
  · refine ⟨r, [], ?_, (List.append_nil _).symm, ?_⟩
    · rw [Finals, if_neg htransfer]
    · exact ⟨rfl, rfl, rfl, rfl, rfl, rfl, rfl⟩

/-- `run_command` for a command of one line when nothing was unread. -/
theorem runCommand_outcome {cmd : Text} {s : Client ω} (hcmd : commandLines [] cmd = [cmd])
    (hs : s.unread = []) : Ends (runCommand net cmd) s (Outcome cmd s) := by
  simp only [runCommand, writeCommand, ends_bind, ends_modify, ends_outside]
  refine Ends.of_forall fun fault w => ?_
  cases fault with
  | some e =>
    simp only [ends_pure, ends_bind, ends_closePi]
    exact .unsent (isFault_ite _) ⟨rfl, rfl, rfl, rfl, rfl, rfl, rfl⟩
  | none =>
    simp only [ends_bind, ends_pure, hcmd, serveAll]
    refine (serve_answered cmd _ (by exact hs)).mono fun _ t h => ?_
    obtain ⟨r, finals, hfinals, hunread, ht⟩ := h
    rw [ends_get, ht.sent]
    refine (readReply_reply (.reply (s.sent + 1)) hunread).mono fun res u hu => ?_
    obtain ⟨ret, rfl, hret, hu⟩ | ⟨rfl, hu⟩ := hu
    · exact .lost r.code hret ⟨hu.unread, hu.dir.trans ht.dir, hu.sent.trans ht.sent,
        hu.trace.trans ht.trace, hu.connected, hu.cwd.trans ht.cwd, hu.useCwd.trans ht.useCwd⟩
    · have htrace : u.trace = .reply (.reply (s.sent + 1)) (r.lines (.reply (s.sent + 1))) ::
          .answer cmd r.code s.dir :: .command cmd s.unread :: s.trace := by
        rw [hu.trace, hasRead, ht.trace]
        rfl
      have hua : Alike (hasRead (.reply (s.sent + 1)) (r.lines (.reply (s.sent + 1))) finals
          (answered cmd r.code (wrote cmd s))) u :=
        ⟨hu.unread, hu.dir.trans ht.dir, hu.sent.trans ht.sent, htrace,
          hu.connected.trans ht.connected, hu.cwd.trans ht.cwd, hu.useCwd.trans ht.useCwd⟩
      refine (parseReply_parsed r.code u).mono fun ret v hv => ?_
      obtain ⟨hret, hv⟩ := hv
      split_ifs at hv with hcode
      · refine .refused r (hret.broken.mpr hcode) hcode ?_
        exact ⟨hv.unread, hv.dir.trans hua.dir, hv.sent.trans hua.sent, hv.trace.trans hua.trace,
          hv.connected, hv.cwd.trans hua.cwd, hv.useCwd.trans hua.useCwd⟩
      · exact .read r finals hret hcode hfinals (hua.trans hv)

end Sitecopy.FtpReplies
