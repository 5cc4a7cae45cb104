import Sitecopy.RcfileLines

/-!
# Values in an rcfile

The manual page lets a value be quoted, or have its special characters escaped. The lexer
knows escapes between quotes only: a backslash in a value without quotes is part of the value.
-/
namespace Sitecopy.RcfileValues
open SiteModel Numerals BufferedLines Rcfile

/-! ### Writing a value -/

inductive Form
  | quoted
  | escaped
  deriving DecidableEq, Repr

/-- The characters that get a backslash. -/
def Form.special : Form → UInt8 → Bool
  | .quoted, c => c = quote || c = backslash
  | .escaped, c => isSpace c || c = hash || c = quote || c = backslash

def Form.escape (f : Form) (v : Text) : Text :=
  v.flatMap fun c => if f.special c then [backslash, c] else [c]

def Form.write (f : Form) (v : Text) : Text :=
  match f with
  | .quoted => quote :: f.escape v ++ [quote]
  | .escaped => f.escape v

/-- A key and its values, with a space before each value. -/
def lineWith (key : Text) (values : List (Form × Text)) : Text :=
  key ++ values.flatMap fun w => 32 :: w.1.write w.2

/-- No character that a value without quotes would need a backslash for. -/
def Plain (v : Text) : Prop := ∀ c ∈ v, Form.escaped.special c = false

section Escape
variable {f : Form} {c : UInt8} {v : Text}

@[simp] lemma escape_nil : f.escape [] = [] := rfl

lemma escape_cons (f : Form) (c : UInt8) (v : Text) :
    f.escape (c :: v) = (if f.special c then [backslash, c] else [c]) ++ f.escape v := rfl

lemma escape_plain (h : Plain v) : Form.escaped.escape v = v := by
  induction v with
  | nil => rfl
  | cons c v ih =>
    rw [escape_cons, h c List.mem_cons_self, ih fun d hd => h d (List.mem_cons_of_mem _ hd)]
    rfl

lemma escape_length (f : Form) (v : Text) : v.length ≤ (f.escape v).length := by
  induction v with
  | nil => simp
  | cons c v ih =>
    rw [escape_cons, List.length_append, List.length_cons]
    split_ifs
    · simp only [List.length_cons, List.length_nil]
      omega
    · simp only [List.length_cons, List.length_nil]
      omega

/-- A value that needs a backslash is written longer than it is. -/
lemma escape_longer (h : ¬ Plain v) : v.length < (Form.escaped.escape v).length := by
  induction v with
  | nil => exact absurd (fun c hc => absurd hc List.not_mem_nil) h
  | cons c v ih =>
    rw [escape_cons, List.length_append, List.length_cons]
    by_cases hc : Form.escaped.special c = true
    · have hle := escape_length .escaped v
      rw [if_pos hc, List.length_cons, List.length_singleton]
      omega
    · have hv : ¬ Plain v := by
        intro hv
        apply h
        intro d hd
        rcases List.mem_cons.mp hd with rfl | hd
        · simpa using hc
        · exact hv d hd
      have hlt := ih hv
      rw [if_neg hc, List.length_singleton]
      omega

lemma mem_escape {d : UInt8} (h : d ∈ f.escape v) : d ∈ v ∨ d = backslash := by
  obtain ⟨c, hc, hd⟩ := List.mem_flatMap.mp h
  split_ifs at hd
  · rcases List.mem_cons.mp hd with rfl | hd
    · exact Or.inr rfl
    · exact Or.inl (List.mem_singleton.mp hd ▸ hc)
  · exact Or.inl (List.mem_singleton.mp hd ▸ hc)

lemma mem_write {d : UInt8} (h : d ∈ f.write v) : d ∈ v ∨ d = backslash ∨ d = quote := by
  cases f with
  | quoted =>
    simp only [Form.write, List.mem_cons, List.mem_append, List.not_mem_nil, or_false] at h
    rcases h with (rfl | h) | rfl
    · exact Or.inr (Or.inr rfl)
    · exact (mem_escape h).imp_right Or.inl
    · exact Or.inr (Or.inr rfl)
  | escaped => exact (mem_escape h).imp_right Or.inl

end Escape

/-! ### The lexer on a word -/

/-- A character that is part of a word without quotes. -/
def Bare (c : UInt8) : Prop := isSpace c = false ∧ c ≠ hash

instance : DecidablePred Bare := fun _ => inferInstanceAs (Decidable (_ ∧ _))

def fields (l : Lexer) : Buffer → Text
  | .key => l.key
  | .val => l.val
  | .val2 => l.val2

/-- The lexer is in state `st`, its buffers hold `bufs`, and it writes behind what `b` holds. -/
structure In (st : LexState) (b : Buffer) (bufs : Buffer → Text) (l : Lexer) : Prop where
  state : l.state = st
  ptr : l.ptr = b
  pos : l.pos = (bufs b).length
  holds : fields l = bufs

/-- The buffers with more text in one of them. -/
def add (bufs : Buffer → Text) (b : Buffer) (t : Text) : Buffer → Text :=
  Function.update bufs b (bufs b ++ t)

section Words
variable {st : LexState} {b : Buffer} {bufs : Buffer → Text} {l : Lexer} {c : UInt8} {w : Text}

@[simp] lemma add_self : add bufs b w b = bufs b ++ w := by simp [add]

@[simp] lemma add_nil (bufs : Buffer → Text) (b : Buffer) : add bufs b [] = bufs := by
  simp [add]

lemma add_add (bufs : Buffer → Text) (b : Buffer) (t u : Text) :
    add (add bufs b t) b u = add bufs b (t ++ u) := by
  simp [add]

lemma storeAt_end (buf : Text) (c : UInt8) : storeAt buf buf.length c = buf ++ [c] := by
  simp [storeAt]

lemma fields_store (h : In st b bufs l) (c : UInt8) : fields (l.store c) = add bufs b [c] := by
  obtain ⟨-, rfl, hpos, rfl⟩ := h
  have hstore : storeAt (fields l l.ptr) l.pos c = fields l l.ptr ++ [c] := by
    rw [hpos]
    exact storeAt_end _ c
  funext d
  unfold Lexer.store add
  cases hptr : l.ptr <;> rw [hptr] at hstore <;> cases d <;> simp [fields] <;> exact hstore

/-- A character goes behind what the buffer holds. -/
lemma In.kept (h : In st b bufs l) (c : UInt8) : In st b (add bufs b [c]) (l.store c) where
  state := by
    have hsame : (l.store c).state = l.state := by unfold Lexer.store; split <;> rfl
    exact hsame.trans h.state
  ptr := by
    have hsame : (l.store c).ptr = l.ptr := by unfold Lexer.store; split <;> rfl
    exact hsame.trans h.ptr
  pos := by
    have hpos : (l.store c).pos = l.pos + 1 := by unfold Lexer.store; split <;> rfl
    rw [hpos, h.pos, add_self, List.length_append, List.length_singleton]
  holds := fields_store h c

lemma In.store (h : In st b bufs l) (next : LexState) (c : UInt8) :
    In next b (add bufs b [c]) { l.store c with state := next } :=
  ⟨rfl, (h.kept c).ptr, (h.kept c).pos, (h.kept c).holds⟩

/-- Words without quotes. -/
lemma In.word (hst : st = .key ∨ st = .value ∨ st = .value2) (h : In st b bufs l)
    (hw : ∀ c ∈ w, Bare c) : In st b (add bufs b w) (w.foldl Lexer.step l) := by
  induction w generalizing l bufs with
  | nil => simpa using h
  | cons c w ih =>
    obtain ⟨hspace, hhash⟩ := hw c List.mem_cons_self
    have hstep : l.step c = l.store c := by
      rw [Lexer.step, h.state]
      rcases hst with rfl | rfl | rfl <;> simp [hhash, hspace]
    have hnext := ih (hstep ▸ h.kept c) fun d hd => hw d (List.mem_cons_of_mem _ hd)
    rw [add_add] at hnext
    exact hnext

/-- The first character of a word without quotes. -/
lemma In.first {next : LexState} (h : In st b bufs l) (hc : Bare c)
    (hquote : st ≠ .lineStart → c ≠ quote) (hst : st = .lineStart ∧ next = .key ∨ st = .afterKey ∧ next = .value ∨
      st = .afterValue ∧ next = .value2) : In next b (add bufs b [c]) (l.step c) := by
  obtain ⟨hspace, hhash⟩ := hc
  have hstep : l.step c = { l.store c with state := next } := by
    rw [Lexer.step, h.state]
    rcases hst with ⟨rfl, rfl⟩ | ⟨rfl, rfl⟩ | ⟨rfl, rfl⟩
    · simp [hhash, hspace]
    · simp [hhash, hspace, hquote (by decide)]
    · simp [hhash, hspace, hquote (by decide)]
  rw [hstep]
  exact h.store next c

/-- The text between two quotes. After an escape the lexer is in the state for a first value. -/
lemma In.quoted (hst : st = .quoted ∨ st = .quoted2) (h : In st b bufs l) (v : Text) :
    ∃ st', (st' = .quoted ∨ st' = .quoted2 ∧ st = .quoted2) ∧
      In st' b (add bufs b v) ((Form.quoted.escape v).foldl Lexer.step l) := by
  induction v generalizing st l bufs with
  | nil =>
    refine ⟨st, ?_, by simpa using h⟩
    rcases hst with rfl | rfl
    · exact Or.inl rfl
    · exact Or.inr ⟨rfl, rfl⟩
  | cons c v ih =>
    rw [escape_cons, List.foldl_append]
    by_cases hc : Form.quoted.special c = true
    · have hstep : (l.step backslash).step c =
          { { l with lastState := .quoted, state := .slashed }.store c with state := .quoted } := by
        have hslash : l.step backslash = { l with lastState := .quoted, state := .slashed } := by
          rw [Lexer.step, h.state]
          rcases hst with rfl | rfl <;> rfl
        rw [hslash]
        rfl
      have hin : In .slashed b bufs { l with lastState := .quoted, state := .slashed } :=
        ⟨rfl, h.ptr, h.pos, h.holds⟩
      obtain ⟨st', hst', hrest⟩ := ih (Or.inl rfl) (hin.store .quoted c)
      rw [add_add] at hrest
      refine ⟨st', Or.inl (hst'.elim id fun h => absurd h.2 (by decide)), ?_⟩
      rw [if_pos hc, List.foldl_cons, List.foldl_cons, List.foldl_nil, hstep]
      exact hrest
    · have hno : c ≠ quote ∧ c ≠ backslash := by simpa [Form.special] using hc
      have hstep : l.step c = l.store c := by
        rw [Lexer.step, h.state]
        rcases hst with rfl | rfl <;> simp [hno]
      obtain ⟨st', hst', hrest⟩ := ih hst (hstep ▸ h.kept c)
      rw [add_add] at hrest
      refine ⟨st', hst', ?_⟩
      rw [if_neg hc, List.foldl_cons, List.foldl_nil]
      exact hrest

/-- Behind the first value. -/
def AfterFirst (bufs : Buffer → Text) (l : Lexer) : Prop :=
  In .afterValue .val2 bufs l ∨ In .value .val bufs l

lemma plain_bare {v : Text} (h : Plain v) : ∀ c ∈ v, Bare c ∧ c ≠ quote := by
  intro c hc
  have hplain := h c hc
  simp only [Form.special, Bool.or_eq_false_iff, decide_eq_false_iff_not] at hplain
  exact ⟨⟨hplain.1.1.1, hplain.1.1.2⟩, hplain.1.2⟩

/-- A value in this form that the lexer understands. -/
def Understood (f : Form) (v : Text) : Prop := f = .escaped → v ≠ [] ∧ Plain v

lemma In.blank (h : In .key .key bufs l) (hval : bufs .val = []) :
    In .afterKey .val bufs (l.step 32) := by
  have hstep : l.step 32 = { l with ptr := .val, pos := 0, state := .afterKey } := by
    rw [Lexer.step, h.state]
    rfl
  rw [hstep]
  exact ⟨rfl, rfl, by rw [hval]; rfl, h.holds⟩

/-- The quote before a value. -/
lemma In.open {next : LexState} (h : In st b bufs l)
    (hst : st = .afterKey ∧ next = .quoted ∨ st = .afterValue ∧ next = .quoted2) :
    In next b bufs (l.step quote) := by
  have hstep : l.step quote = { l with state := next } := by
    rw [Lexer.step, h.state]
    rcases hst with ⟨rfl, rfl⟩ | ⟨rfl, rfl⟩ <;> rfl
  rw [hstep]
  exact ⟨rfl, h.ptr, h.pos, h.holds⟩

lemma step_close (h : l.state = .quoted) :
    l.step quote = { l with ptr := .val2, pos := 0, state := .afterValue } := by
  rw [Lexer.step, h]
  rfl

/-- A value without quotes. -/
lemma In.bare {next : LexState} (h : In st b bufs l) (hne : w ≠ []) (hw : ∀ c ∈ w, Bare c)
    (hquote : w.head? ≠ some quote)
    (hst : st = .afterKey ∧ next = .value ∨ st = .afterValue ∧ next = .value2) :
    In next b (add bufs b w) (w.foldl Lexer.step l) := by
  obtain ⟨c, w, rfl⟩ := List.exists_cons_of_ne_nil hne
  have hfirst : In next b (add bufs b [c]) (l.step c) :=
    h.first (hw c List.mem_cons_self) (fun _ => by simpa using hquote) (Or.inr hst)
  have hnext : next = .key ∨ next = .value ∨ next = .value2 := by
    rcases hst with ⟨-, rfl⟩ | ⟨-, rfl⟩
    · exact Or.inr (Or.inl rfl)
    · exact Or.inr (Or.inr rfl)
  have hword := hfirst.word hnext fun d hd => hw d (List.mem_cons_of_mem _ hd)
  rw [add_add] at hword
  exact hword

lemma In.plain {next : LexState} {v : Text} (h : In st b bufs l) (hne : v ≠ []) (hv : Plain v)
    (hst : st = .afterKey ∧ next = .value ∨ st = .afterValue ∧ next = .value2) :
    In next b (add bufs b v) (v.foldl Lexer.step l) := by
  have hbare := plain_bare hv
  exact h.bare hne (fun c hc => (hbare c hc).1)
    (fun hq => (hbare quote (List.mem_of_mem_head? hq)).2 rfl) hst

lemma In.firstValue {f : Form} {v : Text} (h : In .afterKey .val bufs l) (hval2 : bufs .val2 = [])
    (hv : Understood f v) : AfterFirst (add bufs .val v) ((f.write v).foldl Lexer.step l) := by
  cases f with
  | quoted =>
    obtain ⟨st', hst', hin⟩ := (h.open (Or.inl ⟨rfl, rfl⟩)).quoted (Or.inl rfl) v
    obtain rfl : st' = .quoted := hst'.elim id fun h => absurd h.2 (by decide)
    have hempty : add bufs .val v .val2 = [] := by simpa [add] using hval2
    rw [Form.write, List.cons_append, List.foldl_cons, List.foldl_append, List.foldl_cons,
      List.foldl_nil, step_close hin.state]
    exact Or.inl ⟨rfl, rfl, by rw [hempty]; rfl, hin.holds⟩
  | escaped =>
    obtain ⟨hne, hplain⟩ := hv rfl
    rw [Form.write, escape_plain hplain]
    exact Or.inr (h.plain hne hplain (Or.inl ⟨rfl, rfl⟩))

/-- The blank before a second value. -/
lemma AfterFirst.blank (h : AfterFirst bufs l) (hval2 : bufs .val2 = []) :
    In .afterValue .val2 bufs (l.step 32) := by
  rcases h with h | h
  · have hstep : l.step 32 = l := by
      rw [Lexer.step, h.state]
      rfl
    exact hstep.symm ▸ h
  · have hstep : l.step 32 = { l with ptr := .val2, pos := 0, state := .afterValue } := by
      rw [Lexer.step, h.state]
      rfl
    rw [hstep]
    exact ⟨rfl, rfl, by rw [hval2]; rfl, h.holds⟩

/-- Nothing is being read that a line end would belong to. -/
def Settled (l : Lexer) : Prop :=
  l.state = .afterValue ∨ l.state = .value ∨ l.state = .value2 ∨ l.state = .ignored

lemma Settled.newline (h : Settled l) : fields (l.step newline) = fields l := by
  funext d
  rw [Lexer.step]
  rcases h with h | h | h | h <;> rw [h] <;> cases d <;> rfl

lemma AfterFirst.settled (h : AfterFirst bufs l) : Settled l ∧ fields l = bufs := by
  rcases h with h | h
  · exact ⟨Or.inl h.state, h.holds⟩
  · exact ⟨Or.inr (Or.inl h.state), h.holds⟩

lemma In.secondValue {f : Form} {v : Text} (h : In .afterValue .val2 bufs l)
    (hv : Understood f v) : Settled ((f.write v).foldl Lexer.step l) ∧
      fields ((f.write v).foldl Lexer.step l) = add bufs .val2 v := by
  cases f with
  | quoted =>
    obtain ⟨st', hst', hin⟩ := (h.open (Or.inr ⟨rfl, rfl⟩)).quoted (Or.inr rfl) v
    rw [Form.write, List.cons_append, List.foldl_cons, List.foldl_append, List.foldl_cons,
      List.foldl_nil]
    rcases hst' with rfl | ⟨rfl, -⟩
    · -- an escape has led back to the first value, whose end closes it
      rw [step_close hin.state]
      exact ⟨Or.inl rfl, hin.holds⟩
    · have hstep : ∀ m : Lexer, m.state = .quoted2 → m.step quote = { m with state := .ignored } := by
        intro m hm
        rw [Lexer.step, hm]
        rfl
      rw [hstep _ hin.state]
      exact ⟨Or.inr (Or.inr (Or.inr rfl)), hin.holds⟩
  | escaped =>
    obtain ⟨hne, hplain⟩ := hv rfl
    rw [Form.write, escape_plain hplain]
    have hin := h.plain hne hplain (Or.inr ⟨rfl, rfl⟩)
    exact ⟨Or.inr (Or.inr (Or.inl hin.state)), hin.holds⟩

lemma lex_key {key : Text} (hne : key ≠ []) (hkey : ∀ c ∈ key, Bare c) :
    In .key .key (add (fun _ => []) .key key) (key.foldl Lexer.step {}) := by
  obtain ⟨c, w, rfl⟩ := List.exists_cons_of_ne_nil hne
  have hstart : In .lineStart .key (fun _ => []) {} := ⟨rfl, rfl, rfl, by funext d; cases d <;> rfl⟩
  have hfirst := hstart.first (hkey c List.mem_cons_self) (fun h => absurd rfl h)
    (Or.inl ⟨rfl, rfl⟩)
  have hword := hfirst.word (Or.inl rfl) fun d hd => hkey d (List.mem_cons_of_mem _ hd)
  rw [add_add] at hword
  exact hword

end Words

/-! ### What stays behind -/

section Past
variable {l : Lexer} {c : UInt8}

lemma store_states (l : Lexer) (c : UInt8) :
    (l.store c).state = l.state ∧ (l.store c).lastState = l.lastState ∧ (l.store c).ptr = l.ptr := by
  unfold Lexer.store
  split <;> exact ⟨rfl, rfl, rfl⟩

/-- An escape leads back to a quoted value. -/
lemma step_lastState (l : Lexer) (c : UInt8) :
    (l.step c).lastState = l.lastState ∨ (l.step c).lastState = .quoted := by
  have hstore := (store_states l c).2.1
  unfold Lexer.step
  split
  case h_9 => exact Or.inl rfl
  case h_10 => exact Or.inl hstore
  all_goals split_ifs
  all_goals first
    | exact Or.inl rfl
    | exact Or.inr rfl
    | exact Or.inl hstore

lemma foldl_lastState (t : Text) (l : Lexer) :
    (t.foldl Lexer.step l).lastState = l.lastState ∨
      (t.foldl Lexer.step l).lastState = .quoted := by
  induction t generalizing l with
  | nil => exact Or.inl rfl
  | cons c t ih =>
    rcases ih (l.step c) with h | h
    · rw [List.foldl_cons, h]
      exact step_lastState l c
    · exact Or.inr h

/-- The states in which the key is read. -/
def early : LexState → Bool
  | .lineStart | .key => true
  | _ => false

/-- The lexer writes the second value and does not go back. -/
structure Past (l : Lexer) : Prop where
  ptr : l.ptr = .val2
  state : early l.state = false
  lastState : early l.lastState = false

lemma Past.store (h : Past l) (c : UInt8) : Past (l.store c) ∧ (l.store c).val = l.val := by
  obtain ⟨hstate, hlast, hptr⟩ := store_states l c
  refine ⟨⟨hptr.trans h.ptr, hstate ▸ h.state, hlast ▸ h.lastState⟩, ?_⟩
  unfold Lexer.store
  rw [h.ptr]

lemma Past.step (h : Past l) (c : UInt8) : Past (l.step c) ∧ (l.step c).val = l.val := by
  obtain ⟨⟨hptr, hstate, hlast⟩, hval⟩ := h.store c
  have hearly := h.state
  unfold Lexer.step
  split <;> rename_i hst
  case h_1 | h_2 =>
    rw [hst] at hearly
    cases hearly
  case h_9 => exact ⟨h, rfl⟩
  case h_10 => exact ⟨⟨hptr, h.lastState, hlast⟩, hval⟩
  all_goals split_ifs
  all_goals first
    | exact ⟨h, rfl⟩
    | exact ⟨⟨h.ptr, rfl, h.lastState⟩, rfl⟩
    | exact ⟨⟨rfl, rfl, h.lastState⟩, rfl⟩
    | exact ⟨⟨h.ptr, rfl, rfl⟩, rfl⟩
    | exact ⟨⟨hptr, hstate, hlast⟩, hval⟩
    | exact ⟨⟨hptr, rfl, hlast⟩, hval⟩

lemma Past.foldl (h : Past l) (t : Text) : (t.foldl Lexer.step l).val = l.val := by
  induction t generalizing l with
  | nil => rfl
  | cons c t ih =>
    obtain ⟨hpast, hval⟩ := h.step c
    rw [List.foldl_cons, ih hpast, hval]

lemma foldl_ignored (h : l.state = .ignored) (t : Text) : t.foldl Lexer.step l = l := by
  induction t generalizing l with
  | nil => rfl
  | cons c t ih =>
    have hstep : l.step c = l := by
      rw [Lexer.step, h]
    rw [List.foldl_cons, hstep, ih h]

/-- What follows is nothing, or ends a word without quotes. -/
def Ends (t : Text) : Prop := ∀ c ∈ t.head?, ¬ Bare c

lemma val_ends {bufs : Buffer → Text} (h : In .value .val bufs l) (hlast : early l.lastState = false)
    {t : Text} (ht : Ends t) : (t.foldl Lexer.step l).val = bufs .val := by
  have hval : l.val = bufs .val := congrFun h.holds .val
  cases t with
  | nil => exact hval
  | cons c t =>
    have hc : ¬ Bare c := ht c rfl
    rw [List.foldl_cons, ← hval]
    by_cases hhash : c = hash
    · have hstep : l.step c = { l with state := .ignored } := by
        rw [Lexer.step, h.state]
        exact if_pos hhash
      rw [hstep, foldl_ignored rfl]
    · have hspace : isSpace c = true := by simpa [Bare, hhash] using hc
      have hstep : l.step c = { l with ptr := .val2, pos := 0, state := .afterValue } := by
        rw [Lexer.step, h.state]
        exact (if_neg hhash).trans (if_pos hspace)
      rw [hstep]
      have hpast : Past { l with ptr := .val2, pos := 0, state := .afterValue } := ⟨rfl, rfl, hlast⟩
      exact hpast.foldl t

lemma val2_ends {bufs : Buffer → Text} (h : In .value2 .val2 bufs l) {t : Text} (ht : Ends t) :
    (t.foldl Lexer.step l).val2 = bufs .val2 := by
  have hval : l.val2 = bufs .val2 := congrFun h.holds .val2
  cases t with
  | nil => exact hval
  | cons c t =>
    have hc : ¬ Bare c := ht c rfl
    have hstep : l.step c = { l with state := .ignored } := by
      rw [Lexer.step, h.state]
      by_cases hhash : c = hash
      · exact if_pos hhash
      · have hspace : isSpace c = true := by simpa [Bare, hhash] using hc
        exact (if_neg hhash).trans (if_pos hspace)
    rw [List.foldl_cons, hstep, foldl_ignored rfl, ← hval]

end Past

/-- What the lexer takes of an escaped value, and what is left of it. -/
structure Cut (v w t : Text) : Prop where
  split : Form.escaped.escape v = w ++ t
  nonempty : w ≠ []
  bare : ∀ c ∈ w, Bare c
  unquoted : w.head? ≠ some quote
  ends : Ends t
  other : w ≠ v

section Cuts
variable {v : Text}

lemma backslash_bare : Bare backslash := by decide

lemma escape_bare (hv : ∀ c ∈ v, Bare c) : ∀ c ∈ Form.escaped.escape v, Bare c := by
  intro c hc
  rcases mem_escape hc with hc | rfl
  · exact hv c hc
  · exact backslash_bare

lemma escape_head (v : Text) : (Form.escaped.escape v).head? ≠ some quote := by
  cases v with
  | nil => simp
  | cons c v =>
    rw [escape_cons]
    split_ifs with hc
    · rintro hq
      exact absurd (Option.some.inj hq) (by decide)
    · rintro hq
      obtain rfl : c = quote := by simpa using hq
      exact hc (by decide)

lemma escape_append (f : Form) (v w : Text) : f.escape (v ++ w) = f.escape v ++ f.escape w :=
  List.flatMap_append

/-- A value that needs a backslash is not read back when it has one. -/
lemma exists_cut (hne : v ≠ []) (hv : ¬ Plain v) : ∃ w t, Cut v w t := by
  by_cases hbare : ∀ c ∈ v, Bare c
  · have hlen := escape_longer hv
    refine ⟨Form.escaped.escape v, [], (List.append_nil _).symm, ?_, escape_bare hbare,
      escape_head v, nofun, ?_⟩
    · rintro hnil
      rw [hnil] at hlen
      simp at hlen
    · rintro heq
      rw [heq] at hlen
      omega
  · -- the backslash before the first white space or hash ends the word
    obtain ⟨p, c, q, rfl, hp, hc⟩ : ∃ p c q, v = p ++ c :: q ∧ (∀ d ∈ p, Bare d) ∧ ¬ Bare c := by
      have hdrop : v.dropWhile (Bare ·) ≠ [] := by
        rw [Ne, List.dropWhile_eq_nil_iff]
        simpa using hbare
      obtain ⟨c, q, hq⟩ := List.exists_cons_of_ne_nil hdrop
      refine ⟨v.takeWhile (Bare ·), c, q, ?_, ?_, ?_⟩
      · rw [← hq, List.takeWhile_append_dropWhile]
      · intro d hd
        simpa using List.mem_takeWhile_imp hd
      · have hhead := List.head?_dropWhile_not (Bare ·) v
        rw [hq] at hhead
        simpa using hhead
    have hspecial : Form.escaped.special c = true := by
      rw [Bare, not_and_or, Bool.not_eq_false, not_not] at hc
      rcases hc with hspace | rfl
      · simp [Form.special, hspace]
      · decide
    refine ⟨Form.escaped.escape p ++ [backslash], c :: Form.escaped.escape q, ?_, by simp, ?_, ?_, ?_, ?_⟩
    · rw [escape_append, escape_cons, if_pos hspecial]
      simp
    · intro d hd
      rcases List.mem_append.mp hd with hd | hd
      · exact escape_bare hp d hd
      · exact List.mem_singleton.mp hd ▸ backslash_bare
    · have hhead := escape_head p
      rw [List.head?_append]
      cases h : (Form.escaped.escape p).head? with
      | none => decide
      | some d =>
        rw [h] at hhead
        exact hhead
    · intro d hd
      exact Option.some.inj hd ▸ hc
    · intro heq
      have hmem : c ∈ Form.escaped.escape p ++ [backslash] := heq ▸ by simp
      rcases List.mem_append.mp hmem with hd | hd
      · exact hc (escape_bare hp c hd)
      · exact hc (List.mem_singleton.mp hd ▸ backslash_bare)

end Cuts

/-! ### Whole lines -/

/-- A key, a value and possibly a second value, each value in a form of its own. -/
def lineOf (key v : Text) (second : Option Text) (f f2 : Form) : Text :=
  lineWith key ((f, v) :: second.toList.map fun w => (f2, w))

/-- The key and the values that `rcfile_read` finds in each line of a file. -/
def lexedLines (file : Text) : List (Text × Text × Text) :=
  (piecesOf newline (LINESIZE - 1) (LINESIZE - 1) file).map fun buf =>
    ((lexLine buf).key, (lexLine buf).val, (lexLine buf).val2)

/-- Every documented way to write the values gives them back, in the last line of a file and in
one that another line follows. -/
def ReadBack (key v : Text) (second : Option Text) : Prop :=
  ∀ f f2 eol, eol = [] ∨ eol = [newline] →
    lexedLines (lineOf key v second f f2 ++ eol) = [(key, v, second.getD [])]

/-- What a line can hold. -/
structure Fits (key v : Text) (second : Option Text) : Prop where
  bare : ∀ c ∈ key, Bare c ∧ c ≠ 0
  value : ∀ w ∈ v :: second.toList, w ≠ [] ∧ (0 : UInt8) ∉ w ∧ newline ∉ w
  short : ∀ f f2, (lineOf key v second f f2).length + 1 < LINESIZE

section Lines
variable {key v : Text} {second : Option Text} {f f2 : Form} {eol : Text}

lemma mem_lineOf {c : UInt8} (h : c ∈ lineOf key v second f f2) :
    c ∈ key ∨ (∃ w ∈ v :: second.toList, c ∈ w) ∨ c = 32 ∨ c = backslash ∨ c = quote := by
  rw [lineOf, lineWith, List.mem_append, List.mem_flatMap] at h
  rcases h with h | ⟨⟨g, w⟩, hw, hc⟩
  · exact Or.inl h
  · have hvalue : w ∈ v :: second.toList := by
      rcases List.mem_cons.mp hw with hw | hw
      · obtain ⟨-, rfl⟩ := Prod.mk.inj hw
        exact List.mem_cons_self
      · obtain ⟨u, hu, hw⟩ := List.mem_map.mp hw
        obtain ⟨-, rfl⟩ := Prod.mk.inj hw
        exact List.mem_cons_of_mem _ hu
    rcases List.mem_cons.mp hc with rfl | hc
    · exact Or.inr (Or.inr (Or.inl rfl))
    · rcases mem_write hc with hc | hc
      · exact Or.inr (Or.inl ⟨w, hvalue, hc⟩)
      · exact Or.inr (Or.inr (Or.inr hc))

lemma Fits.clean (h : Fits key v second) (f f2 : Form) :
    newline ∉ lineOf key v second f f2 ∧ (0 : UInt8) ∉ lineOf key v second f f2 := by
  constructor
  · intro hm
    rcases mem_lineOf hm with hm | ⟨w, hw, hm⟩ | hm | hm | hm
    · exact absurd (h.bare _ hm).1 (by decide)
    · exact (h.value w hw).2.2 hm
    all_goals exact absurd hm (by decide)
  · intro hm
    rcases mem_lineOf hm with hm | ⟨w, hw, hm⟩ | hm | hm | hm
    · exact (h.bare _ hm).2 rfl
    · exact (h.value w hw).2.1 hm
    all_goals exact absurd hm (by decide)

/-- The buffer holds the whole line. -/
lemma Fits.lexed (h : Fits key v second) (heol : eol = [] ∨ eol = [newline]) :
    lexedLines (lineOf key v second f f2 ++ eol) =
      [(((lineOf key v second f f2 ++ eol).foldl Lexer.step {}).key,
        ((lineOf key v second f f2 ++ eol).foldl Lexer.step {}).val,
        ((lineOf key v second f f2 ++ eol).foldl Lexer.step {}).val2)] := by
  obtain ⟨hline, hnul⟩ := h.clean f f2
  have hshort := h.short f f2
  have hne : lineOf key v second f f2 ≠ [] := by simp [lineOf, lineWith]
  have hpieces : piecesOf newline (LINESIZE - 1) (LINESIZE - 1) (lineOf key v second f f2 ++ eol) =
      [lineOf key v second f f2 ++ eol] := by
    rcases heol with rfl | rfl
    · have hlines : linesOf newline (lineOf key v second f f2) = [lineOf key v second f f2] := by
        rw [linesOf_rest hline, if_neg hne]
      have hfit : (lineOf key v second f f2).length ≤ LINESIZE - 1 := by omega
      rw [List.append_nil, piecesOf_short, hlines]
      · simpa [hlines] using hfit
      · simpa [hlines] using hfit
    · rw [piecesOf_line hline [] (by omega)]
      rfl
  have hcut : (lineOf key v second f f2 ++ eol).takeWhile (· ≠ 0) =
      lineOf key v second f f2 ++ eol := by
    rw [List.takeWhile_eq_self_iff]
    intro c hc
    have hzero : c ≠ 0 := by
      rintro rfl
      rcases List.mem_append.mp hc with hc | hc
      · exact hnul hc
      · rcases heol with rfl | rfl
        · exact absurd hc List.not_mem_nil
        · exact absurd (List.mem_singleton.mp hc) (by decide)
    simpa using hzero
  rw [lexedLines, hpieces, List.map_singleton, lexLine, hcut]

/-- The buffers when the key and these values have been read. -/
def buffers (key v v2 : Text) : Buffer → Text
  | .key => key
  | .val => v
  | .val2 => v2

lemma buffers_key (key : Text) : add (fun _ => []) .key key = buffers key [] [] := by
  funext b
  cases b <;> simp [add, buffers]

lemma buffers_val (key v : Text) : add (buffers key [] []) .val v = buffers key v [] := by
  funext b
  cases b <;> simp [add, buffers]

lemma buffers_val2 (key v w : Text) : add (buffers key v []) .val2 w = buffers key v w := by
  funext b
  cases b <;> simp [add, buffers]

lemma foldl_lineOf (key v : Text) (second : Option Text) (f f2 : Form) (eol : Text) (l : Lexer) :
    (lineOf key v second f f2 ++ eol).foldl Lexer.step l =
      ((second.toList.flatMap fun w => 32 :: f2.write w) ++ eol).foldl Lexer.step
        ((f.write v).foldl Lexer.step ((key.foldl Lexer.step l).step 32)) := by
  rw [lineOf, lineWith, List.flatMap_cons, List.append_assoc, List.append_assoc, List.foldl_append,
    List.foldl_append, List.foldl_cons, List.flatMap_map]

lemma lex_blank (hne : key ≠ []) (hkey : ∀ c ∈ key, Bare c) :
    In .afterKey .val (buffers key [] []) ((key.foldl Lexer.step {}).step 32) := by
  have h := lex_key hne hkey
  rw [buffers_key] at h
  exact h.blank rfl

lemma lex_first (hne : key ≠ []) (hkey : ∀ c ∈ key, Bare c) (hv : Understood f v) :
    AfterFirst (buffers key v [])
      ((f.write v).foldl Lexer.step ((key.foldl Lexer.step {}).step 32)) := by
  have h := (lex_blank hne hkey).firstValue rfl hv
  rwa [buffers_val] at h

lemma settled_eol {l : Lexer} (h : Settled l) (heol : eol = [] ∨ eol = [newline]) :
    fields (eol.foldl Lexer.step l) = fields l := by
  rcases heol with rfl | rfl
  · rfl
  · exact h.newline

/-- Values in quotes are read back, and so are plain ones without. -/
theorem lex_line (hne : key ≠ []) (hkey : ∀ c ∈ key, Bare c) (hv : Understood f v)
    (h2 : ∀ w ∈ second, Understood f2 w) (heol : eol = [] ∨ eol = [newline]) :
    fields ((lineOf key v second f f2 ++ eol).foldl Lexer.step {}) =
      buffers key v (second.getD []) := by
  have hfirst := lex_first hne hkey hv
  rw [foldl_lineOf]
  cases second with
  | none =>
    have hset := hfirst.settled
    exact (settled_eol hset.1 heol).trans hset.2
  | some w =>
    have hset := (hfirst.blank rfl).secondValue (h2 w rfl)
    rw [buffers_val2] at hset
    have hsplit : ((some w).toList.flatMap fun w => 32 :: f2.write w) ++ eol =
        (32 :: f2.write w) ++ eol := by simp
    rw [hsplit, List.foldl_append, List.foldl_cons]
    exact (settled_eol hset.1 heol).trans hset.2

/-- The key that is being read does not get shorter. -/
def Keyed (l : Lexer) : Prop := l.key ≠ [] ∧ (l.ptr = .key → l.pos = l.key.length)

lemma Keyed.step {l : Lexer} (h : Keyed l) (c : UInt8) : Keyed (l.step c) := by
  have hstore : Keyed (l.store c) := by
    have hptr : (l.store c).ptr = l.ptr := (store_states l c).2.2
    unfold Keyed
    rw [hptr]
    unfold Lexer.store
    cases hl : l.ptr with
    | key =>
      have hs : storeAt l.key l.pos c = l.key ++ [c] := by
        rw [h.2 hl]
        exact storeAt_end _ c
      have hpos := h.2 hl
      exact ⟨by simp [hs], fun _ => by simp [hpos, storeAt_end]⟩
    | val => exact ⟨h.1, nofun⟩
    | val2 => exact ⟨h.1, nofun⟩
  unfold Lexer.step
  split
  case h_9 => exact h
  case h_10 => exact hstore
  all_goals split_ifs
  all_goals first
    | exact h
    | exact hstore
    | exact ⟨h.1, nofun⟩

lemma Keyed.foldl {l : Lexer} (h : Keyed l) (t : Text) : Keyed (t.foldl Lexer.step l) := by
  induction t generalizing l with
  | nil => exact h
  | cons c t ih => exact ih (h.step c)

/-- A line without a key makes the first value one. -/
lemma lex_keyless (v : Text) (second : Option Text) :
    ((lineOf [] v second .quoted .quoted).foldl Lexer.step {}).key ≠ [] := by
  have hkey : ((({} : Lexer).step 32).step quote) =
      { state := .key, pos := 1, key := [quote] } := by decide
  have hstart : Keyed ((({} : Lexer).step 32).step quote) := by
    rw [hkey]
    exact ⟨by simp, fun _ => rfl⟩
  have hline := foldl_lineOf [] v second .quoted .quoted [] {}
  rw [List.append_nil] at hline
  rw [hline, Form.write, List.cons_append, List.foldl_cons]
  exact ((hstart.foldl _).foldl _).1

lemma ends_blank {t : Text} (h : Ends t) (rest : Text) : Ends (t ++ 32 :: rest) := by
  intro c hc
  cases t with
  | nil =>
    obtain rfl : 32 = c := Option.some.inj hc
    decide
  | cons d t => exact h c hc

/-- An escaped first value that is not plain is not read back. -/
lemma lex_cut (hne : key ≠ []) (hkey : ∀ c ∈ key, Bare c) (hv : v ≠ []) (hplain : ¬ Plain v) :
    ((lineOf key v second .escaped .quoted).foldl Lexer.step {}).val ≠ v := by
  obtain ⟨w, t, hcut⟩ := exists_cut hv hplain
  have hword := (lex_blank hne hkey).bare hcut.nonempty hcut.bare hcut.unquoted (Or.inl ⟨rfl, rfl⟩)
  rw [buffers_val] at hword
  have hlast : early (w.foldl Lexer.step ((key.foldl Lexer.step {}).step 32)).lastState = false := by
    have hfold : w.foldl Lexer.step ((key.foldl Lexer.step {}).step 32) =
        (key ++ 32 :: w).foldl Lexer.step {} := by
      rw [List.foldl_append, List.foldl_cons]
    rw [hfold]
    rcases foldl_lastState (key ++ 32 :: w) {} with h | h <;> rw [h] <;> rfl
  have hline := foldl_lineOf key v second .escaped .quoted [] {}
  rw [List.append_nil, List.append_nil] at hline
  rw [hline, Form.write, hcut.split, ← List.foldl_append, List.append_assoc, List.foldl_append,
    val_ends hword hlast]
  · exact hcut.other
  · cases second with
    | none => simpa using hcut.ends
    | some u => simpa using ends_blank hcut.ends _

/-- Nor is a second one. -/
lemma lex_cut_second (hne : key ≠ []) (hkey : ∀ c ∈ key, Bare c) {u : Text} (hu : u ≠ [])
    (hplain : ¬ Plain u) :
    ((lineOf key v (some u) .quoted .escaped).foldl Lexer.step {}).val2 ≠ u := by
  obtain ⟨w, t, hcut⟩ := exists_cut hu hplain
  have hquoted : Understood .quoted v := nofun
  have hword := ((lex_first hne hkey hquoted).blank rfl).bare hcut.nonempty hcut.bare hcut.unquoted
    (Or.inr ⟨rfl, rfl⟩)
  rw [buffers_val2] at hword
  have hline := foldl_lineOf key v (some u) .quoted .escaped [] {}
  have hsplit : ((some u).toList.flatMap fun w => 32 :: Form.escaped.write w) ++ [] =
      (32 :: w) ++ t := by
    simp [Form.write, hcut.split]
  rw [List.append_nil, hsplit, List.foldl_append, List.foldl_cons] at hline
  rw [hline, val2_ends hword hcut.ends]
  exact hcut.other

/-- Both documented ways of writing values give them back if and only if none of them has a
character that needs an escape without quotes. -/
theorem readBack_iff (h : Fits key v second) :
    ReadBack key v second ↔ key ≠ [] ∧ ∀ w ∈ v :: second.toList, Plain w := by
  have hkey : ∀ c ∈ key, Bare c := fun c hc => (h.bare c hc).1
  constructor
  · intro hread
    have hlexed (f f2 : Form) : ((lineOf key v second f f2).foldl Lexer.step {}).key = key ∧
        ((lineOf key v second f f2).foldl Lexer.step {}).val = v ∧
        ((lineOf key v second f f2).foldl Lexer.step {}).val2 = second.getD [] := by
      have hline := hread f f2 [] (Or.inl rfl)
      rw [h.lexed (Or.inl rfl), List.append_nil] at hline
      simpa using hline
    have hne : key ≠ [] := by
      intro hnil
      subst hnil
      exact lex_keyless v second (hlexed .quoted .quoted).1
    refine ⟨hne, fun w hw => ?_⟩
    by_contra hplain
    have hnil : w ≠ [] := (h.value w hw).1
    rcases List.mem_cons.mp hw with heq | hw
    · subst heq
      exact lex_cut hne hkey hnil hplain (hlexed .escaped .quoted).2.1
    · have hsome : second = some w := Option.mem_toList.mp hw
      subst hsome
      exact lex_cut_second hne hkey hnil hplain (hlexed .quoted .escaped).2.2
  · intro hplain f f2 eol heol
    have hunder (g : Form) : ∀ w ∈ v :: second.toList, Understood g w := fun w hw _ =>
      ⟨(h.value w hw).1, hplain.2 w hw⟩
    have hsecond : ∀ w ∈ second, Understood f2 w := fun w hw =>
      hunder f2 w (List.mem_cons_of_mem _ (Option.mem_toList.mpr hw))
    have hline := lex_line hplain.1 hkey (hunder f v List.mem_cons_self) hsecond heol
    have hfields (b : Buffer) := congrFun hline b
    rw [h.lexed heol]
    exact congrArg (fun x => [x])
      (Prod.ext (hfields .key) (Prod.ext (hfields .val) (hfields .val2)))

end Lines

lemma pattern_fits : Fits (ascii "exclude") (ascii "*.bak") none where
  bare := by decide +kernel
  value := by decide +kernel
  short f f2 := by cases f <;> cases f2 <;> decide +kernel

theorem readBack_iff_pattern : ReadBack (ascii "exclude") (ascii "*.bak") none ↔
    ascii "exclude" ≠ [] ∧ ∀ w ∈ ascii "*.bak" :: (none : Option Text).toList, Plain w :=
  readBack_iff pattern_fits

/-- An escaped hash starts a comment, and the backslash is part of the value. -/
theorem escaped_hash_cut : Fits (ascii "exclude") (ascii "*#") none ∧
    lexedLines (lineOf (ascii "exclude") (ascii "*#") none .escaped .quoted) =
      [(ascii "exclude", ascii "*" ++ [backslash], [])] ∧
    ¬ ReadBack (ascii "exclude") (ascii "*#") none := by
  have hlexed : lexedLines (lineOf (ascii "exclude") (ascii "*#") none .escaped .quoted) =
      [(ascii "exclude", ascii "*" ++ [backslash], [])] := by decide +kernel
  have hfits : Fits (ascii "exclude") (ascii "*#") none :=
    ⟨by decide +kernel, by decide +kernel, fun f f2 => by cases f <;> cases f2 <;> decide +kernel⟩
  refine ⟨hfits, hlexed, ?_⟩
  intro h
  have hread := h .escaped .quoted [] (Or.inl rfl)
  rw [List.append_nil, hlexed] at hread
  exact absurd hread (by decide)

end Sitecopy.RcfileValues
