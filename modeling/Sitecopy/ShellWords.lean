import Mathlib

/-!
# The words of a shell command

How a POSIX shell splits a text into the words of a simple command. Blanks separate words,
and a backslash, single and double quotes keep characters from being special. A text that
uses more of the language than this and `>` is only told from the others.
-/
namespace Sitecopy.ShellWords

abbrev Bytes := List UInt8

/-! ### Tokens -/

inductive Mode
  | plain
  | escape
  | single
  | double
  deriving DecidableEq, Repr

/-- Characters, each with whether it is quoted. -/
abbrev Word := List (UInt8 × Bool)

def Word.text (w : Word) : Bytes := w.map Prod.fst

inductive Token
  | word (w : Word)
  /-- `>`, with the number before it -/
  | output (fd : Bytes)
  deriving DecidableEq, Repr

inductive Lexed
  /-- there is more to the text than words -/
  | other
  /-- a quotation has no end -/
  | unclosed
  | tokens (l : List Token)
  deriving DecidableEq, Repr

def Lexed.after (l : List Token) : Lexed → Lexed
  | .tokens ts => .tokens (l ++ ts)
  | r => r

def isBlank (c : UInt8) : Bool := c = 32 || c = 9

/-- A newline and the characters `$`, `&`, `(`, `)`, `;`, `<`, the backquote and `|`. -/
def isOperator (c : UInt8) : Bool := [10, 36, 38, 40, 41, 59, 60, 96, 124].contains c

def push (cur : Option Word) (c : UInt8) (quoted : Bool) : Option Word :=
  some (cur.getD [] ++ [(c, quoted)])

def flush : Option Word → List Token
  | none => []
  | some w => [.word w]

/-- The tokens that end with `>`: digits right before it belong to it. -/
def flushOutput : Option Word → List Token
  | none => [.output []]
  | some w =>
    if w ≠ [] ∧ w.all fun m => !m.2 && 48 ≤ m.1 && m.1 ≤ 57 then [.output w.text]
    else [.word w, .output []]

/-- The tokens of a text; `cur` is the word that has begun. -/
def lex : Mode → Option Word → Bytes → Lexed
  | .plain, cur, [] => .tokens (flush cur)
  | .escape, _, [] => .other
  | .single, _, [] => .unclosed
  | .double, _, [] => .unclosed
  | .plain, cur, c :: t =>
    if isOperator c then .other
    else if isBlank c then (lex .plain none t).after (flush cur)
    else if c = 39 then lex .single (some (cur.getD [])) t
    else if c = 34 then lex .double (some (cur.getD [])) t
    else if c = 92 then lex .escape cur t
    else if c = 62 then (lex .plain none t).after (flushOutput cur)
    else if c = 35 ∧ cur = none then .other
    else lex .plain (push cur c false) t
  | .escape, cur, c :: t =>
    if c = 10 then lex .plain cur t else lex .plain (push cur c true) t
  | .single, cur, c :: t =>
    if c = 39 then lex .plain cur t else lex .single (push cur c true) t
  | .double, cur, c :: t =>
    if c = 34 then lex .plain cur t
    else if c = 36 ∨ c = 92 ∨ c = 96 then .other
    else lex .double (push cur c true) t

/-! ### Commands -/

/-- Whether a bracket expression goes on like this after its `[`. -/
def closesBracket (w : Word) : Bool :=
  match if w.head? = some (33, false) then w.tail else w with
  | [] => false
  | m :: w => m.1 ≠ 47 && (w.takeWhile fun m => m.1 ≠ 47).contains (93, false)

/-- The word has a `*`, a `?` or a bracket expression. -/
def isPattern : Word → Bool
  | [] => false
  | m :: w => m = (42, false) || m = (63, false) || (m = (91, false) && closesBracket w) ||
      isPattern w

/-- The word stands for file names or a home directory. -/
def expands (w : Word) : Bool := w.head? = some (126, false) || isPattern w

/-- A simple command, and the files that take its output. -/
structure Command where
  words : List Bytes
  outputs : List (Bytes × Bytes) := []
  deriving DecidableEq, Repr

def Command.append (a b : Command) : Command := ⟨a.words ++ b.words, a.outputs ++ b.outputs⟩

/-- Words and redirections without any expansion. -/
def collect : List Token → Option Command
  | [] => some ⟨[], []⟩
  | .word w :: ts =>
    if expands w then none
    else (collect ts).map fun c => { c with words := w.text :: c.words }
  | .output fd :: .word w :: ts =>
    if expands w then none
    else (collect ts).map fun c => { c with outputs := (fd, w.text) :: c.outputs }
  | .output _ :: _ => none

def bytes (s : String) : Bytes := s.toList.map fun c => UInt8.ofNat c.toNat

/-- Words that are not commands, and those that some shells reserve. -/
def reserved : List Bytes :=
  ["!", "\x7b", "\x7d", "case", "do", "done", "elif", "else", "esac", "fi", "for", "if", "in", "then",
    "until", "while", "[[", "]]", "function", "namespace", "select", "time"].map bytes

/-- The first word is the name of a command, not an assignment nor reserved. -/
def startsCommand : List Bytes → Bool
  | [] => false
  | w :: _ => !reserved.contains w && !w.contains 61 && w.getLast? ≠ some 58

inductive Reading
  | other
  | unclosed
  | simple (c : Command)
  deriving DecidableEq, Repr

/-- A text as the rest of a simple command. -/
def readArguments (t : Bytes) : Reading :=
  match lex .plain none t with
  | .other => .other
  | .unclosed => .unclosed
  | .tokens ts =>
    match collect ts with
    | none => .other
    | some c => .simple c

/-- A text as a simple command. -/
def read (t : Bytes) : Reading :=
  match readArguments t with
  | .simple c => if startsCommand c.words then .simple c else .other
  | r => r

/-! ### Shells -/

/-- What a shell does with a text: it refuses it as a whole, or runs these commands. -/
inductive Ran
  | refused
  | commands (l : List Command)
  deriving DecidableEq, Repr

/-- A POSIX shell. Nothing is said here about the texts that use more of the language. -/
structure Shell where
  run : Bytes → Ran
  simple : ∀ t c, read t = .simple c → run t = .commands [c]
  unclosed : ∀ t, read t = .unclosed → run t = .refused

/-- One that runs nothing else. -/
def wordShell : Shell where
  run t := match read t with
    | .other => .commands []
    | .unclosed => .refused
    | .simple c => .commands [c]
  simple t c h := by rw [h]
  unclosed t h := by rw [h]

/-! ### Composition -/

def unwords (ws : List Bytes) : Bytes := [(32 : UInt8)].intercalate ws

@[simp] lemma unwords_nil : unwords [] = [] := rfl
@[simp] lemma unwords_singleton (w : Bytes) : unwords [w] = w := by simp [unwords]

lemma unwords_cons (w : Bytes) {ws : List Bytes} (h : ws ≠ []) :
    unwords (w :: ws) = w ++ 32 :: unwords ws := by
  cases ws with
  | nil => exact absurd rfl h
  | cons v ws => simp [unwords, List.intercalate_cons_cons]

@[simp] lemma after_nil (r : Lexed) : r.after [] = r := by cases r <;> rfl

lemma after_after (l m : List Token) (r : Lexed) : (r.after m).after l = r.after (l ++ m) := by
  cases r <;> simp [Lexed.after]

lemma lexed_after {r : Lexed} {l ts : List Token} (h : r.after l = .tokens ts) :
    ∃ ts', r = .tokens ts' ∧ ts = l ++ ts' := by
  cases r with
  | tokens ts' => exact ⟨ts', rfl, (Lexed.tokens.inj h).symm⟩
  | _ => cases h

/-- A blank after words ends the last of them. -/
lemma lex_append {p t : Bytes} {m : Mode} {cur : Option Word} {ts : List Token}
    (h : lex m cur p = .tokens ts) : lex m cur (p ++ 32 :: t) = (lex .plain none t).after ts := by
  induction p generalizing m cur ts with
  | nil =>
    cases m with
    | plain =>
      obtain rfl := Lexed.tokens.inj h
      rfl
    | _ => cases h
  | cons c p ih =>
    cases m with
    | plain =>
      simp only [List.cons_append, lex] at h ⊢
      split_ifs at h ⊢
      · obtain ⟨ts', h', rfl⟩ := lexed_after h
        rw [ih h', after_after]
      · exact ih h
      · exact ih h
      · exact ih h
      · obtain ⟨ts', h', rfl⟩ := lexed_after h
        rw [ih h', after_after]
      · exact ih h
    | escape | single =>
      simp only [List.cons_append, lex] at h ⊢
      split_ifs at h ⊢
      · exact ih h
      · exact ih h
    | double =>
      simp only [List.cons_append, lex] at h ⊢
      split_ifs at h ⊢
      · exact ih h
      · exact ih h

lemma collect_append {l ts : List Token} {c : Command} (h : collect l = some c) :
    collect (l ++ ts) = (collect ts).map c.append := by
  induction l using collect.induct generalizing c with
  | case1 =>
    obtain rfl := Option.some.inj h
    cases hts : collect ts <;> simp [Command.append, hts]
  | case2 w l hw => simp [collect, hw] at h
  | case3 w l hw ih =>
    simp only [collect, if_neg hw, Option.map_eq_some_iff, List.cons_append] at h ⊢
    obtain ⟨c', hc', rfl⟩ := h
    rw [ih hc']
    cases collect ts <;> rfl
  | case4 fd w l hw => simp [collect, hw] at h
  | case5 fd w l hw ih =>
    simp only [collect, if_neg hw, Option.map_eq_some_iff, List.cons_append] at h ⊢
    obtain ⟨c', hc', rfl⟩ := h
    rw [ih hc']
    cases collect ts <;> rfl
  | case6 fd l hl =>
    cases l with
    | nil => cases h
    | cons t l =>
      cases t with
      | word w => exact absurd rfl (hl w l)
      | output fd' => cases h

lemma readArguments_simple {t : Bytes} {c : Command} : readArguments t = .simple c ↔
    ∃ ts, lex .plain none t = .tokens ts ∧ collect ts = some c := by
  unfold readArguments
  cases lex .plain none t with
  | tokens ts => cases hc : collect ts <;> simp [hc]
  | _ => simp

lemma read_simple {t : Bytes} {c : Command} : read t = .simple c ↔
    readArguments t = .simple c ∧ startsCommand c.words = true := by
  unfold read
  cases readArguments t with
  | simple c' =>
    simp only [Reading.simple.injEq]
    split_ifs with h
    · constructor
      · intro hc
        obtain rfl := Reading.simple.inj hc
        exact ⟨rfl, h⟩
      · rintro ⟨rfl, _⟩
        rfl
    · constructor
      · intro hc
        cases hc
      · rintro ⟨rfl, hs⟩
        exact absurd hs h
  | _ => simp

/-- What a text adds to the command before it. -/
def Reading.more (c : Command) : Reading → Reading
  | .simple d => .simple (c.append d)
  | r => r

lemma readArguments_append {p t : Bytes} {c : Command} (h : readArguments p = .simple c) :
    readArguments (p ++ 32 :: t) = (readArguments t).more c := by
  obtain ⟨ts, hlex, hc⟩ := readArguments_simple.mp h
  unfold readArguments
  rw [lex_append hlex]
  cases lex .plain none t with
  | tokens ts' =>
    simp only [Lexed.after, collect_append hc]
    cases collect ts' <;> rfl
  | _ => rfl

lemma startsCommand_append {l m : List Bytes} (h : startsCommand l = true) :
    startsCommand (l ++ m) = true := by
  cases l with
  | nil => cases h
  | cons w l => exact h

theorem read_append {p t : Bytes} {c : Command} (h : read p = .simple c) :
    read (p ++ 32 :: t) = (readArguments t).more c := by
  obtain ⟨hargs, hstart⟩ := read_simple.mp h
  unfold read
  rw [readArguments_append hargs]
  cases readArguments t with
  | simple d =>
    have hs : startsCommand (c.append d).words = true := startsCommand_append hstart
    simp only [Reading.more, hs, ↓reduceIte]
  | _ => rfl

/-! ### Names that need no quotes -/

/-- The character is not special anywhere in a word. -/
def isOrdinary (c : UInt8) : Bool :=
  !isOperator c && !isBlank c && c ≠ 34 && c ≠ 39 && c ≠ 62 && c ≠ 92

def marked (quoted : Bool) (n : Bytes) : Word := n.map fun c => (c, quoted)

/-- A name that a shell reads as itself. -/
def Literal (n : Bytes) : Prop :=
  n ≠ [] ∧ (∀ c ∈ n, isOrdinary c = true) ∧ n.head? ≠ some 35 ∧ expands (marked false n) = false

instance (n : Bytes) : Decidable (Literal n) := inferInstanceAs (Decidable (_ ∧ _))

@[simp] lemma text_marked (q : Bool) (n : Bytes) : (marked q n).text = n := by
  simp [marked, Word.text, Function.comp_def]

lemma marked_append (q : Bool) (m n : Bytes) : marked q (m ++ n) = marked q m ++ marked q n := by
  simp [marked]

lemma lex_ordinary {c : UInt8} (h : isOrdinary c = true) {cur : Option Word}
    (hstart : c = 35 → cur ≠ none) (t : Bytes) :
    lex .plain cur (c :: t) = lex .plain (push cur c false) t := by
  simp only [isOrdinary, Bool.and_eq_true, Bool.not_eq_true', decide_eq_true_eq] at h
  obtain ⟨⟨⟨⟨⟨hop, hblank⟩, h34⟩, h39⟩, h62⟩, h92⟩ := h
  simp only [lex, hop, hblank, h39, h34, h92, h62, Bool.false_eq_true, ↓reduceIte]
  rw [if_neg fun hc => hstart hc.1 hc.2]

/-- A quoted part of a word. -/
lemma lex_quoted {n : Bytes} (h : (39 : UInt8) ∉ n) (w : Word) (t : Bytes) :
    lex .single (some w) (n ++ 39 :: t) = lex .plain (some (w ++ marked true n)) t := by
  induction n generalizing w with
  | nil => simp [lex, marked]
  | cons c n ih =>
    have hc : (39 : UInt8) ≠ c := List.ne_of_not_mem_cons h
    have hn : (39 : UInt8) ∉ n := List.not_mem_of_not_mem_cons h
    rw [List.cons_append, lex, if_neg (Ne.symm hc), push, ih hn]
    simp [marked]

lemma lex_unclosed {n : Bytes} (h : (39 : UInt8) ∉ n) (cur : Option Word) :
    lex .single cur n = .unclosed := by
  induction n generalizing cur with
  | nil => rfl
  | cons c n ih =>
    have hc : (39 : UInt8) ≠ c := List.ne_of_not_mem_cons h
    have hn : (39 : UInt8) ∉ n := List.not_mem_of_not_mem_cons h
    rw [lex, if_neg (Ne.symm hc), ih hn]

lemma lex_literal {n : Bytes} (h : ∀ c ∈ n, isOrdinary c = true) (w : Word) (t : Bytes) :
    lex .plain (some w) (n ++ t) = lex .plain (some (w ++ marked false n)) t := by
  induction n generalizing w with
  | nil => simp [marked]
  | cons c n ih =>
    rw [List.cons_append, lex_ordinary (h c List.mem_cons_self) (by simp), push,
      ih (fun d hd => h d (List.mem_cons_of_mem c hd))]
    simp [marked]

lemma expands_quoted (n : Bytes) : expands (marked true n) = false := by
  have hpattern : isPattern (marked true n) = false := by
    induction n with
    | nil => rfl
    | cons c n ih =>
      change isPattern ((c, true) :: marked true n) = false
      simp [isPattern, ih]
  cases n with
  | nil => rfl
  | cons c n => simpa [expands, marked] using hpattern

/-- Single quotes keep a name together that has none of them in it. -/
lemma readArguments_quoted {n : Bytes} (h : (39 : UInt8) ∉ n) :
    readArguments (39 :: n ++ [39]) = .simple ⟨[n], []⟩ := by
  refine readArguments_simple.mpr ⟨[.word (marked true n)], ?_, ?_⟩
  · change lex .single (some []) (n ++ 39 :: []) = _
    rw [lex_quoted h]
    rfl
  · simp [collect, expands_quoted]

lemma readArguments_open {n : Bytes} (h : (39 : UInt8) ∉ n) :
    readArguments (39 :: n) = .unclosed := by
  have hlex : lex .plain none (39 :: n) = .unclosed := lex_unclosed h (some [])
  rw [readArguments, hlex]

lemma readArguments_literal {n : Bytes} (h : Literal n) :
    readArguments n = .simple ⟨[n], []⟩ := by
  obtain ⟨hne, hord, hstart, hexp⟩ := h
  refine readArguments_simple.mpr ⟨[.word (marked false n)], ?_, ?_⟩
  · cases n with
    | nil => exact absurd rfl hne
    | cons c n =>
      have hlex := lex_literal (n := n) (fun d hd => hord d (List.mem_cons_of_mem c hd))
        [(c, false)] []
      rw [List.append_nil] at hlex
      rw [lex_ordinary (hord c List.mem_cons_self) (fun hc => absurd (by rw [hc]; rfl) hstart)]
      exact hlex
  · simp [collect, hexp]

theorem readArguments_unwords {ws : List Bytes} (h : ∀ w ∈ ws, Literal w) :
    readArguments (unwords ws) = .simple ⟨ws, []⟩ := by
  induction ws with
  | nil => rfl
  | cons w ws ih =>
    obtain ⟨hw, hws⟩ := List.forall_mem_cons.mp h
    cases ws with
    | nil =>
      rw [unwords_singleton]
      exact readArguments_literal hw
    | cons v ws =>
      rw [unwords_cons w (List.cons_ne_nil v ws), readArguments_append (readArguments_literal hw),
        ih hws]
      rfl

/-! ### What reading removes -/

/-- The number of bytes besides single quotes. -/
def bare (t : Bytes) : ℕ := t.countP (· ≠ 39)

/-- The same for words with something behind each of them. -/
def load (ws : List Bytes) : ℕ := (ws.map fun w => bare w + 1).sum

def curBare : Option Word → ℕ
  | none => 0
  | some w => bare w.text

def wordsOf (ts : List Token) : List Bytes :=
  ts.filterMap fun
    | .word w => some w.text
    | .output _ => none

@[simp] lemma bare_nil : bare [] = 0 := rfl
@[simp] lemma bare_append (s t : Bytes) : bare (s ++ t) = bare s + bare t := List.countP_append
lemma bare_cons (c : UInt8) (t : Bytes) : bare (c :: t) = bare t + if c = 39 then 0 else 1 := by
  by_cases h : c = 39 <;> simp [bare, h]

@[simp] lemma load_nil : load [] = 0 := rfl
@[simp] lemma load_cons (w : Bytes) (ws : List Bytes) : load (w :: ws) = bare w + 1 + load ws := by
  simp [load]
@[simp] lemma load_append (l m : List Bytes) : load (l ++ m) = load l + load m := by simp [load]

lemma bare_unwords {ws : List Bytes} (h : ws ≠ []) : bare (unwords ws) + 1 = load ws := by
  induction ws with
  | nil => exact absurd rfl h
  | cons w ws ih =>
    cases ws with
    | nil => simp
    | cons v ws =>
      have hrest := ih (List.cons_ne_nil v ws)
      rw [unwords_cons w (List.cons_ne_nil v ws), bare_append, bare_cons, load_cons,
        if_neg (by decide)]
      omega

@[simp] lemma curBare_push (cur : Option Word) (c : UInt8) (q : Bool) :
    curBare (push cur c q) = curBare cur + if c = 39 then 0 else 1 := by
  cases cur <;> simp [push, curBare, Word.text, bare_cons]

@[simp] lemma curBare_getD (cur : Option Word) : curBare (some (cur.getD [])) = curBare cur := by
  cases cur <;> rfl

@[simp] lemma wordsOf_append (l m : List Token) : wordsOf (l ++ m) = wordsOf l ++ wordsOf m := by
  simp [wordsOf]

lemma load_flush (cur : Option Word) : load (wordsOf (flush cur)) ≤ curBare cur + 1 := by
  cases cur <;> simp [flush, wordsOf, curBare]

lemma load_flushOutput (cur : Option Word) : load (wordsOf (flushOutput cur)) ≤ curBare cur + 1 := by
  cases cur with
  | none => simp [flushOutput, wordsOf]
  | some w =>
    simp only [flushOutput]
    split_ifs <;> simp [wordsOf, curBare]

/-- Reading adds nothing: all bytes of the words but the single quotes come from the text. -/
lemma load_le {m : Mode} {cur : Option Word} {t : Bytes} {ts : List Token}
    (h : lex m cur t = .tokens ts) : load (wordsOf ts) ≤ curBare cur + bare t + 1 := by
  induction t generalizing m cur ts with
  | nil =>
    cases m with
    | plain =>
      obtain rfl := Lexed.tokens.inj h
      exact load_flush cur
    | _ => cases h
  | cons c t ih =>
    have hc := bare_cons c t
    cases m with
    | plain =>
      simp only [lex] at h
      split_ifs at h with hop hblank h39 h34 h92 h62 hstart
      · obtain ⟨ts', h', rfl⟩ := lexed_after h
        have hflush := load_flush cur
        have hrest : load (wordsOf ts') ≤ 0 + bare t + 1 := ih h'
        have hne : c ≠ 39 := by
          rintro rfl
          cases hblank
        rw [wordsOf_append, load_append, hc, if_neg hne]
        omega
      · have hrest := ih h
        rw [curBare_getD] at hrest
        omega
      · have hrest := ih h
        rw [curBare_getD] at hrest
        omega
      · have hrest := ih h
        omega
      · obtain ⟨ts', h', rfl⟩ := lexed_after h
        have hflush := load_flushOutput cur
        have hrest : load (wordsOf ts') ≤ 0 + bare t + 1 := ih h'
        rw [wordsOf_append, load_append, hc, if_neg h39]
        omega
      · have hrest := ih h
        rw [curBare_push] at hrest
        omega
    | escape | single =>
      simp only [lex] at h
      split_ifs at h
      · have hrest := ih h
        omega
      · have hrest := ih h
        rw [curBare_push] at hrest
        omega
    | double =>
      simp only [lex] at h
      split_ifs at h
      · have hrest := ih h
        omega
      · have hrest := ih h
        rw [curBare_push] at hrest
        omega

/-- The word that has begun has no single quote in it. -/
def QuoteFree (cur : Option Word) : Prop := ∀ w, cur = some w → (39 : UInt8) ∉ w.text

lemma QuoteFree.none : QuoteFree none := by
  intro w hw
  cases hw

lemma QuoteFree.getD {cur : Option Word} (h : QuoteFree cur) : QuoteFree (some (cur.getD [])) := by
  intro w hw
  obtain rfl := Option.some.inj hw
  cases cur with
  | none => simp [Word.text]
  | some v => exact h v rfl

lemma QuoteFree.push {cur : Option Word} (h : QuoteFree cur) {c : UInt8} (hc : c ≠ 39) (q : Bool) :
    QuoteFree (push cur c q) := by
  intro w hw
  obtain rfl := Option.some.inj hw
  have hv := h.getD _ rfl
  simp only [Word.text, List.map_append, List.mem_append] at hv ⊢
  simp only [hv, List.map_cons, List.map_nil, List.mem_singleton, false_or]
  exact hc.symm

lemma QuoteFree.flush {cur : Option Word} (h : QuoteFree cur) :
    ∀ w ∈ wordsOf (flush cur), (39 : UInt8) ∉ w := by
  cases cur with
  | none => simp [ShellWords.flush, wordsOf]
  | some v => simpa [ShellWords.flush, wordsOf] using h v rfl

lemma QuoteFree.flushOutput {cur : Option Word} (h : QuoteFree cur) :
    ∀ w ∈ wordsOf (flushOutput cur), (39 : UInt8) ∉ w := by
  cases cur with
  | none => simp [ShellWords.flushOutput, wordsOf]
  | some v =>
    simp only [ShellWords.flushOutput]
    split_ifs
    · simp [wordsOf]
    · simpa [wordsOf] using h v rfl

/-- Where nothing but single quotes is removed, all of them are. -/
lemma lex_quoteFree {m : Mode} {cur : Option Word} {t : Bytes} {ts : List Token}
    (h : lex m cur t = .tokens ts) (hm : m = .plain ∨ m = .single) (hcur : QuoteFree cur)
    (htight : curBare cur + bare t + 1 ≤ load (wordsOf ts)) :
    ∀ w ∈ wordsOf ts, (39 : UInt8) ∉ w := by
  induction t generalizing m cur ts with
  | nil =>
    rcases hm with rfl | rfl
    · obtain rfl := Lexed.tokens.inj h
      exact hcur.flush
    · cases h
  | cons c t ih =>
    have hc := bare_cons c t
    rcases hm with rfl | rfl
    · simp only [lex] at h
      split_ifs at h with hop hblank h39 h34 h92 h62 hstart
      · obtain ⟨ts', h', rfl⟩ := lexed_after h
        have hne : c ≠ 39 := by
          rintro rfl
          cases hblank
        have hhead := load_flush cur
        rw [if_neg hne] at hc
        rw [wordsOf_append, load_append] at htight
        have hrest : curBare none + bare t + 1 ≤ load (wordsOf ts') := by
          simp only [curBare]
          omega
        intro w hw
        rw [wordsOf_append, List.mem_append] at hw
        exact hw.elim (hcur.flush w) (ih h' (Or.inl rfl) .none hrest w)
      · apply ih h (Or.inr rfl) hcur.getD
        rw [curBare_getD]
        omega
      · -- a double quote is lost
        have hle := load_le h
        rw [curBare_getD] at hle
        rw [if_neg h39] at hc
        omega
      · have hle := load_le h
        rw [if_neg h39] at hc
        omega
      · obtain ⟨ts', h', rfl⟩ := lexed_after h
        have hhead := load_flushOutput cur
        rw [if_neg h39] at hc
        rw [wordsOf_append, load_append] at htight
        have hrest : curBare none + bare t + 1 ≤ load (wordsOf ts') := by
          simp only [curBare]
          omega
        intro w hw
        rw [wordsOf_append, List.mem_append] at hw
        exact hw.elim (hcur.flushOutput w) (ih h' (Or.inl rfl) .none hrest w)
      · apply ih h (Or.inl rfl) (hcur.push h39 false)
        rw [curBare_push]
        omega
    · simp only [lex] at h
      split_ifs at h with h39
      · apply ih h (Or.inl rfl) hcur
        omega
      · apply ih h (Or.inr rfl) (hcur.push h39 true)
        rw [curBare_push]
        omega

/-- A word without quotes, whatever it expands to. -/
def Unquoted (w : Word) : Prop :=
  ∃ n, w = marked false n ∧ n ≠ [] ∧ (∀ c ∈ n, isOrdinary c = true) ∧ n.head? ≠ some 35

lemma Unquoted.push {cur : Option Word} (h : ∀ w, cur = some w → Unquoted w) {c : UInt8}
    (hc : isOrdinary c = true) (hstart : c = 35 → cur ≠ none) :
    ∀ w, push cur c false = some w → Unquoted w := by
  intro w hw
  obtain rfl := Option.some.inj hw
  cases cur with
  | none =>
    refine ⟨[c], rfl, by simp, by simpa using hc, fun h35 => ?_⟩
    exact hstart (Option.some.inj h35) rfl
  | some v =>
    obtain ⟨n, rfl, hne, hord, hhead⟩ := h v rfl
    refine ⟨n ++ [c], (marked_append false n [c]).symm, by simp, ?_, ?_⟩
    · intro d hd
      rcases List.mem_append.mp hd with hd | hd
      · exact hord d hd
      · rwa [List.mem_singleton.mp hd]
    · rwa [List.head?_append_of_ne_nil _ hne]

/-- Where nothing at all is removed but blanks between words, no word was quoted. -/
lemma lex_unquoted {cur : Option Word} {t : Bytes} {ts : List Token}
    (h : lex .plain cur t = .tokens ts) (ht : (39 : UInt8) ∉ t)
    (hcur : ∀ w, cur = some w → Unquoted w)
    (htight : curBare cur + bare t + 1 ≤ load (wordsOf ts)) :
    ∀ w, .word w ∈ ts → Unquoted w := by
  induction t generalizing cur ts with
  | nil =>
    obtain rfl := Lexed.tokens.inj h
    cases cur with
    | none => simp [flush]
    | some v => simpa [flush] using hcur v rfl
  | cons c t ih =>
    have h39 : c ≠ 39 := (List.ne_of_not_mem_cons ht).symm
    have hrest : (39 : UInt8) ∉ t := List.not_mem_of_not_mem_cons ht
    have hc := bare_cons c t
    rw [if_neg h39] at hc
    simp only [lex, if_neg h39] at h
    split_ifs at h with hop hblank h34 h92 h62 hstart
    · obtain ⟨ts', h', rfl⟩ := lexed_after h
      have hhead := load_flush cur
      rw [wordsOf_append, load_append] at htight
      have htight' : curBare none + bare t + 1 ≤ load (wordsOf ts') := by
        simp only [curBare]
        omega
      intro w hw
      rcases List.mem_append.mp hw with hw | hw
      · cases cur with
        | none => cases hw
        | some v =>
          obtain rfl : w = v := by simpa [flush] using hw
          exact hcur w rfl
      · exact ih h' hrest (by simp) htight' w hw
    · have hle := load_le h
      rw [curBare_getD] at hle
      omega
    · have hle := load_le h
      omega
    · obtain ⟨ts', h', rfl⟩ := lexed_after h
      have hhead := load_flushOutput cur
      rw [wordsOf_append, load_append] at htight
      have htight' : curBare none + bare t + 1 ≤ load (wordsOf ts') := by
        simp only [curBare]
        omega
      intro w hw
      rcases List.mem_append.mp hw with hw | hw
      · cases cur with
        | none => simp [flushOutput] at hw
        | some v =>
          simp only [flushOutput] at hw
          split_ifs at hw
          · simp at hw
          · obtain rfl : w = v := by simpa using hw
            exact hcur w rfl
      · exact ih h' hrest (by simp) htight' w hw
    · have hord : isOrdinary c = true := by
        simp [isOrdinary, hop, hblank, h34, h39, h62, h92]
      apply ih h hrest (Unquoted.push hcur hord fun h35 hnone => hstart ⟨h35, hnone⟩)
      rw [curBare_push, if_neg h39]
      omega

lemma collect_words {ts : List Token} {c : Command} (h : collect ts = some c) :
    load c.words + c.outputs.length ≤ load (wordsOf ts) ∧
      ∀ n ∈ c.words, ∃ w, .word w ∈ ts ∧ n = w.text ∧ expands w = false := by
  induction ts using collect.induct generalizing c with
  | case1 =>
    obtain rfl := Option.some.inj h
    simp
  | case2 w ts hw => simp [collect, hw] at h
  | case3 w ts hw ih =>
    simp only [collect, if_neg hw, Option.map_eq_some_iff] at h
    obtain ⟨c', hc', rfl⟩ := h
    obtain ⟨hload, hwords⟩ := ih hc'
    constructor
    · simp only [wordsOf, List.filterMap_cons, load_cons] at hload ⊢
      omega
    · intro n hn
      rcases List.mem_cons.mp hn with rfl | hn
      · exact ⟨w, List.mem_cons_self, rfl, by simpa using hw⟩
      · obtain ⟨v, hv, hrest⟩ := hwords n hn
        exact ⟨v, List.mem_cons_of_mem _ hv, hrest⟩
  | case4 fd w ts hw => simp [collect, hw] at h
  | case5 fd w ts hw ih =>
    simp only [collect, if_neg hw, Option.map_eq_some_iff] at h
    obtain ⟨c', hc', rfl⟩ := h
    obtain ⟨hload, hwords⟩ := ih hc'
    constructor
    · simp only [wordsOf, List.filterMap_cons, load_cons, List.length_cons] at hload ⊢
      omega
    · intro n hn
      obtain ⟨v, hv, hrest⟩ := hwords n hn
      exact ⟨v, List.mem_cons_of_mem _ (List.mem_cons_of_mem _ hv), hrest⟩
  | case6 fd ts hts =>
    cases ts with
    | nil => cases h
    | cons t ts =>
      cases t with
      | word w => exact absurd rfl (hts w ts)
      | output fd' => cases h

/-- The words of a text have no more bytes besides single quotes than the text. -/
theorem readArguments_load {t : Bytes} {c : Command} (h : readArguments t = .simple c) :
    load c.words + c.outputs.length ≤ bare t + 1 := by
  obtain ⟨ts, hlex, hc⟩ := readArguments_simple.mp h
  have hload := load_le hlex
  have hwords := (collect_words hc).1
  simp only [curBare] at hload
  omega

theorem quoteFree_of_exact {t : Bytes} {c : Command} (h : readArguments t = .simple c)
    (hexact : bare t + 1 ≤ load c.words) : ∀ n ∈ c.words, (39 : UInt8) ∉ n := by
  obtain ⟨ts, hlex, hc⟩ := readArguments_simple.mp h
  obtain ⟨hload, hwords⟩ := collect_words hc
  intro n hn
  obtain ⟨w, hw, rfl, _⟩ := hwords n hn
  apply lex_quoteFree hlex (Or.inl rfl) .none
  · simp only [curBare]
    omega
  · exact List.mem_filterMap.mpr ⟨_, hw, rfl⟩

/-- Names that come out whole although nothing quotes them are such as need no quotes. -/
theorem literal_of_exact {t : Bytes} {c : Command} (h : readArguments t = .simple c)
    (ht : (39 : UInt8) ∉ t) (hexact : bare t + 1 ≤ load c.words) : ∀ n ∈ c.words, Literal n := by
  obtain ⟨ts, hlex, hc⟩ := readArguments_simple.mp h
  obtain ⟨hload, hwords⟩ := collect_words hc
  intro n hn
  obtain ⟨w, hw, rfl, hexp⟩ := hwords n hn
  have hunquoted := lex_unquoted hlex ht (by simp) (by simp only [curBare]; omega) w hw
  obtain ⟨n, rfl, hne, hord, hhead⟩ := hunquoted
  rw [text_marked]
  exact ⟨hne, hord, hhead, hexp⟩

end Sitecopy.ShellWords
