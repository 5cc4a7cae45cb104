import Sitecopy.RcfileValues

/-!
# Writing an rcfile

`rcfile_write` writes a line for each setting that it knows of. Reading the file gives back
these settings, with every list of patterns in the opposite order.
-/
namespace Sitecopy.RcfileWriting
open SiteModel Numerals BufferedLines FetchedNames Rcfile RcfileValues

/-! ### What is written -/

/-- A line in the block of a site, behind two spaces. -/
inductive OutLine
  | flag (key : Text)
  | value (key v : Text)
  | pattern (key : Text) (p : FnPattern)
  deriving DecidableEq, Repr

def patternText (p : FnPattern) : Text := (if p.haspath then [slash] else []) ++ p.pattern

def OutLine.text : OutLine → Text
  | .flag key => ascii "  " ++ key
  | .value key v => ascii "  " ++ key ++ [32] ++ v
  | .pattern key p => ascii "  " ++ key ++ [32, quote] ++ patternText p ++ [quote]

/-- What `%s` prints for a null pointer as well. -/
def printed (s : Option Text) : Text := s.getD (ascii "(null)")

/-- A string that is written if it is not empty. -/
def nonempty (key : Text) (s : Option Text) : List OutLine :=
  match s with
  | none | some [] => []
  | some v => [.value key v]

/-- `RCWRITEBOOL`. -/
def onlyIf (b : Bool) (l : OutLine) : List OutLine := if b then [l] else []

def stateWord : StateMethod → Text
  | .timesize => ascii "timesize"
  | .checksum => ascii "checksum"

def permsWord : PermMode → Text
  | .ignore => ascii "ignore"
  | .exec => ascii "exec"
  | .all => ascii "all"

def symlinksWord : SymlinkMode → Text
  | .ignore => ascii "ignore"
  | .follow => ascii "follow"
  | .maintain => ascii "maintain"

/-- The lines behind the one with the name of the site. -/
def bodyLines (s : SiteValue) : List OutLine :=
  [.value (ascii "server") (printed (s.strings .hostname))] ++
  nonempty (ascii "username") (s.strings .username) ++
  nonempty (ascii "password") (s.strings .password) ++
  [.value (ascii "remote") (printed (s.strings .remoteRootUser))] ++
  [.value (ascii "local") (printed (s.strings .localRootUser))] ++
  [.value (ascii "protocol") s.protoString] ++
  onlyIf s.settings.nodelete (.flag (ascii "nodelete")) ++
  onlyIf s.settings.checkmoved
    (if s.settings.checkrenames then .value (ascii "checkmoved") (ascii "renames")
      else .flag (ascii "checkmoved")) ++
  onlyIf s.settings.nooverwrite (.flag (ascii "nooverwrite")) ++
  onlyIf s.settings.safemode (.flag (ascii "safe")) ++
  onlyIf s.settings.lowercase (.flag (ascii "lowercase")) ++
  onlyIf s.settings.tempupload (.flag (ascii "tempupload")) ++
  onlyIf (!s.settings.ftpPasvMode) (.value (ascii "ftp") (ascii "nopasv")) ++
  onlyIf s.settings.ftpEchoQuit (.value (ascii "ftp") (ascii "showquit")) ++
  onlyIf s.settings.ftpUseCwd (.value (ascii "ftp") (ascii "usecwd")) ++
  onlyIf s.settings.httpLimit (.value (ascii "http") (ascii "limit")) ++
  onlyIf s.settings.httpUseExpect (.value (ascii "http") (ascii "expect")) ++
  onlyIf (0 < s.settings.serverPort) (.value (ascii "port") (printInt s.settings.serverPort)) ++
  (s.strings .url).toList.map (.value (ascii "url")) ++
  [.value (ascii "state") (stateWord s.settings.stateMethod)] ++
  [.value (ascii "permissions") (permsWord s.settings.perms)] ++
  onlyIf s.settings.dirperms (.value (ascii "permissions") (ascii "dir")) ++
  [.value (ascii "symlinks") (symlinksWord s.settings.symlinks)] ++
  (s.lists .excludes).map (.pattern (ascii "exclude")) ++
  (s.lists .asciis).map (.pattern (ascii "ascii")) ++
  (s.lists .ignores).map (.pattern (ascii "ignore"))

/-- All lines for a site. -/
def siteLines (s : SiteValue) : List Text :=
  (ascii "site " ++ printed (s.strings .name)) :: (bodyLines s).map OutLine.text

/-- `rcfile_write`, of the sites in the order of the list. -/
def rcfileWrite (sites : List SiteValue) : Text := terminated newline (sites.flatMap siteLines)

/-! ### What is read back -/

/-- A value that is read back without quotes. -/
structure Word (v : Text) : Prop where
  nonempty : v ≠ []
  bare : ∀ c ∈ v, Bare c
  clean : 0 ∉ v
  unquoted : v.head? ≠ some quote

instance (v : Text) : Decidable (Word v) :=
  decidable_of_iff (v ≠ [] ∧ (∀ c ∈ v, Bare c) ∧ 0 ∉ v ∧ v.head? ≠ some quote)
    ⟨fun h => ⟨h.1, h.2.1, h.2.2.1, h.2.2.2⟩, fun h => ⟨h.nonempty, h.bare, h.clean, h.unquoted⟩⟩

/-- A word of lower case letters, which is quick to check. -/
def letters (v : Text) : Bool := !v.isEmpty && v.all fun c => 97 ≤ c.toNat && c.toNat ≤ 122

/-- A pattern as the lines of an rcfile give it, but without the characters that would have to be
escaped. -/
structure PatternOk (p : FnPattern) : Prop where
  nonempty : patternText p ≠ []
  plain : ∀ c ∈ p.pattern, c ≠ quote ∧ c ≠ backslash ∧ c ≠ newline ∧ c ≠ 0
  path : p.haspath = false → p.pattern.head? ≠ some slash

/-- A root that is accepted. -/
def RootOk (v : Text) : Prop :=
  Word v ∧ ∀ rest, v = tilde :: rest → rest.head? = some slash

/-- What has to hold of a site so that its block can be read. -/
structure Writable (s : SiteValue) : Prop where
  name : ∃ v, s.strings .name = some v ∧ Word v
  hostname : ∃ v, s.strings .hostname = some v ∧ Word v
  username : ∀ v, s.strings .username = some v → v ≠ [] → Word v
  password : ∀ v, s.strings .password = some v → v ≠ [] → Word v
  remote : ∃ v, s.strings .remoteRootUser = some v ∧ RootOk v
  localRoot : ∃ v, s.strings .localRootUser = some v ∧ RootOk v
  proto : Word s.protoString
  url : ∀ v, s.strings .url = some v → Word v
  port : s.settings.serverPort < 2 ^ 31
  patterns : ∀ l, ∀ p ∈ s.lists l, PatternOk p
  short : ∀ l ∈ siteLines s, l.length + 1 ≤ LINESIZE - 1

/-- A root as it is stored. -/
def withSlash (v : Text) : Text := if v.getLast? = some slash then v else v ++ [slash]

/-- A root below the home directory. -/
def isRel (v : Option Text) : Bool :=
  match v with
  | some (126 :: 47 :: _) => true
  | _ => false

/-- A site as it is read from its block. -/
def reread (copypath : Text) (s : SiteValue) : SiteValue where
  settings := { s.settings with
    serverPort := max 0 s.settings.serverPort
    proxyPort := 0
    protocol := protocolOf s.protoString
    remoteIsrel := isRel (s.strings .remoteRootUser)
    localIsrel := isRel (s.strings .localRootUser)
    checkrenames := s.settings.checkmoved && s.settings.checkrenames
    httpSecure := false
    httpTolerant := false }
  protoString := s.protoString
  strings
    | .name => s.strings .name
    | .url => s.strings .url
    | .hostname => s.strings .hostname
    | .username => (s.strings .username).filter (· ≠ [])
    | .password => (s.strings .password).filter (· ≠ [])
    | .remoteRootUser => (s.strings .remoteRootUser).map withSlash
    | .localRootUser => (s.strings .localRootUser).map withSlash
    | .infofile => (s.strings .name).map (copypath ++ ·)
    | .certfile => (s.strings .name).map (copypath ++ · ++ ascii ".crt")
    | .rshCmd => if sameName s.protoString (ascii "ssh") then some (ascii "ssh") else none
    | .rcpCmd => if sameName s.protoString (ascii "ssh") then some (ascii "scp") else none
    | .proxyHostname | .proxyUsername | .proxyPassword | .clientCert => none
  lists l := (s.lists l).reverse

/-! ### One line -/

/-- What a line changes when it is read. -/
def OutLine.changes : OutLine → Option (List Change)
  | .flag key => (keyFlag key).map fun c => [c]
  | .value key v => keyValue key v
  | .pattern key p => keyValue key (patternText p)

/-- The key and the value can be told apart by the lexer. -/
def OutLine.Clear : OutLine → Prop
  | .flag key => Word key
  | .value key v => Word key ∧ Word v ∧ key ≠ ascii "site"
  | .pattern key p => Word key ∧ PatternOk p ∧ key ≠ ascii "site"

section Lines
variable {key v t : Text} {p : FnPattern} {l : OutLine}

lemma hash_toNat : Rcfile.hash.toNat = 35 := rfl

/-- All characters that are special to the lexer come before `$`. -/
lemma bare_above {c : UInt8} (h : Rcfile.hash.toNat < c.toNat) : Bare c ∧ c ≠ 0 ∧ c ≠ quote := by
  rw [hash_toNat] at h
  refine ⟨⟨?_, ?_⟩, ?_, ?_⟩
  · simp only [isSpace, Bool.or_eq_false_iff, Bool.and_eq_false_iff, decide_eq_false_iff_not]
    refine ⟨?_, Or.inr fun hle => ?_⟩
    · rintro rfl
      exact absurd h (by decide)
    · have hnat : c.toNat ≤ 13 := UInt8.le_iff_toNat_le.mp hle
      omega
  all_goals
    rintro rfl
    exact absurd h (by decide)

lemma word_above (hne : v ≠ []) (h : ∀ c ∈ v, Rcfile.hash.toNat < c.toNat) : Word v where
  nonempty := hne
  bare c hc := (bare_above (h c hc)).1
  clean h0 := (bare_above (h 0 h0)).2.1 rfl
  unquoted hq := (bare_above (h quote (List.mem_of_head? hq))).2.2 rfl

lemma word_of_letters (h : letters v = true) : Word v := by
  unfold letters at h
  simp only [Bool.and_eq_true, Bool.not_eq_true', List.isEmpty_eq_false_iff, List.all_eq_true,
    decide_eq_true_eq] at h
  obtain ⟨hne, hall⟩ := h
  refine word_above hne fun c hc => ?_
  have hletter := (hall c hc).1
  rw [hash_toNat]
  omega

lemma PatternOk.chars (h : PatternOk p) : ∀ c ∈ patternText p,
    c ≠ quote ∧ c ≠ backslash ∧ c ≠ newline ∧ c ≠ 0 := by
  intro c hc
  unfold patternText at hc
  rw [List.mem_append] at hc
  rcases hc with hc | hc
  · split_ifs at hc
    · obtain rfl := List.mem_singleton.mp hc
      decide
    · cases hc
  · exact h.plain c hc

lemma escape_quoted (h : ∀ c ∈ v, c ≠ quote ∧ c ≠ backslash) : Form.quoted.escape v = v := by
  induction v with
  | nil => rfl
  | cons c v ih =>
    obtain ⟨hc, hv⟩ := List.forall_mem_cons.mp h
    rw [escape_cons, ih hv]
    simp [Form.special, hc]

/-- The lexer sees the line up to its end. -/
lemma lexLine_line (h0 : 0 ∉ t) :
    lexLine (ascii "  " ++ t ++ [newline]) = (t ++ [newline]).foldl Lexer.step {} := by
  have hall : ∀ c ∈ ascii "  " ++ t ++ [newline], decide (c ≠ 0) = true := by
    intro c hc
    rw [decide_eq_true_eq]
    rintro rfl
    simp only [List.mem_append, List.mem_singleton] at hc
    rcases hc with (hc | hc) | hc
    · exact absurd hc (by decide)
    · exact h0 hc
    · exact absurd hc (by decide)
  unfold lexLine
  rw [List.takeWhile_eq_self_iff.mpr hall, List.append_assoc, List.foldl_append]
  rfl

lemma lexed_flag (h : Word key) :
    fields (lexLine ((OutLine.flag key).text ++ [newline])) = buffers key [] [] := by
  have hin := lex_key h.nonempty h.bare
  rw [buffers_key] at hin
  have hstep : (key.foldl Lexer.step {}).step newline =
      { key.foldl Lexer.step {} with ptr := .val, pos := 0, state := .afterKey } := by
    rw [Lexer.step, hin.state]
    rfl
  rw [OutLine.text, lexLine_line h.clean, List.foldl_append, List.foldl_cons, List.foldl_nil, hstep]
  exact hin.holds

lemma lex_value (hkey : Word key) (hv : Word v) :
    fields ((key ++ [32] ++ v ++ [newline]).foldl Lexer.step {}) = buffers key v [] := by
  have hin : In .value .val (add (buffers key [] []) .val v)
      (v.foldl Lexer.step ((key.foldl Lexer.step {}).step 32)) :=
    (lex_blank hkey.nonempty hkey.bare).bare hv.nonempty hv.bare hv.unquoted (Or.inl ⟨rfl, rfl⟩)
  rw [buffers_val] at hin
  simp only [List.foldl_append, List.foldl_cons, List.foldl_nil]
  rw [Settled.newline (Or.inr (Or.inl hin.state))]
  exact hin.holds

lemma lexed_value (hkey : Word key) (hv : Word v) :
    fields (lexLine ((OutLine.value key v).text ++ [newline])) = buffers key v [] := by
  have hclean : 0 ∉ key ++ [32] ++ v := by
    simp only [List.mem_append, List.mem_singleton, not_or]
    exact ⟨⟨hkey.clean, by decide⟩, hv.clean⟩
  have htext : (OutLine.value key v).text = ascii "  " ++ (key ++ [32] ++ v) := by
    simp [OutLine.text]
  rw [htext, lexLine_line hclean]
  exact lex_value hkey hv

lemma lexed_pattern (hkey : Word key) (hp : PatternOk p) :
    fields (lexLine ((OutLine.pattern key p).text ++ [newline])) =
      buffers key (patternText p) [] := by
  have hchars := hp.chars
  have hline : lineOf key (patternText p) none .quoted .quoted =
      key ++ [32, quote] ++ patternText p ++ [quote] := by
    simp [lineOf, lineWith, Form.write,
      escape_quoted fun c hc => ⟨(hchars c hc).1, (hchars c hc).2.1⟩]
  have hclean : 0 ∉ key ++ [32, quote] ++ patternText p ++ [quote] := by
    simp only [List.mem_append, List.mem_cons, List.not_mem_nil, or_false, not_or]
    refine ⟨⟨⟨hkey.clean, by decide, by decide⟩, fun h0 => ?_⟩, by decide⟩
    exact (hchars 0 h0).2.2.2 rfl
  have htext : (OutLine.pattern key p).text =
      ascii "  " ++ (key ++ [32, quote] ++ patternText p ++ [quote]) := by
    simp [OutLine.text]
  rw [htext, lexLine_line hclean, ← hline]
  exact @lex_line key _ none .quoted .quoted _ hkey.nonempty hkey.bare (fun h => by cases h)
    (fun w hw => by cases hw) (Or.inr rfl)

/-- Only the buffers matter for what a line is for. -/
lemma line_of_fields {x : Lexer} {key v : Text} (h : fields x = buffers key v []) :
    x.key = key ∧ x.val = v ∧ x.val2 = [] :=
  ⟨congrFun h .key, congrFun h .val, congrFun h .val2⟩

/-- A clear line makes its changes. -/
lemma line_changes (h : l.Clear) {cs : List Change} (hcs : l.changes = some cs) :
    (lexLine (l.text ++ [newline])).line true = .changes cs := by
  cases l with
  | flag key =>
    obtain ⟨hkey, hval, -⟩ := line_of_fields (lexed_flag h)
    obtain ⟨c, hc, rfl⟩ := Option.map_eq_some_iff.mp hcs
    unfold Lexer.line
    rw [hkey, hval, if_neg h.nonempty, if_pos rfl, if_neg (by simp), hc]
  | value key v =>
    obtain ⟨hword, hv, hsite⟩ := h
    obtain ⟨hkey, hval, hval2⟩ := line_of_fields (lexed_value hword hv)
    have hvalue : keyValue key v = some cs := hcs
    unfold Lexer.line
    rw [hkey, hval, hval2, if_neg hword.nonempty, if_neg hv.nonempty, if_pos rfl, if_neg hsite,
      if_neg (by simp), hvalue]
  | pattern key p =>
    obtain ⟨hword, hp, hsite⟩ := h
    obtain ⟨hkey, hval, hval2⟩ := line_of_fields (lexed_pattern hword hp)
    have hvalue : keyValue key (patternText p) = some cs := hcs
    unfold Lexer.line
    rw [hkey, hval, hval2, if_neg hword.nonempty, if_neg hp.nonempty, if_pos rfl, if_neg hsite,
      if_neg (by simp), hvalue]

/-- The line with the name starts a block. -/
lemma line_site (h : Word v) (inBlock : Bool) :
    (lexLine (ascii "site " ++ v ++ [newline])).line inBlock = .site v := by
  have hkey : Word (ascii "site") := word_of_letters (by decide)
  have hfields :
      fields (lexLine (ascii "site " ++ v ++ [newline])) = buffers (ascii "site") v [] := by
    have htext : ascii "site " ++ v = ascii "site" ++ [32] ++ v := by simp [ascii]
    have hclean : ∀ c ∈ ascii "site " ++ v ++ [newline], decide (c ≠ 0) = true := by
      intro c hc
      rw [decide_eq_true_eq]
      rintro rfl
      simp only [List.mem_append, List.mem_singleton] at hc
      rcases hc with (hc | hc) | hc
      · exact absurd hc (by decide)
      · exact h.clean hc
      · exact absurd hc (by decide)
    unfold lexLine
    rw [List.takeWhile_eq_self_iff.mpr hclean, htext]
    exact lex_value hkey h
  obtain ⟨hkey', hval, hval2⟩ := line_of_fields hfields
  unfold Lexer.line
  rw [hkey', hval, hval2, if_neg hkey.nonempty, if_neg h.nonempty, if_pos rfl, if_pos rfl]

end Lines

/-! ### The block of a site -/

/-- What lines make of a site. -/
def applied (ls : List OutLine) (v : SiteValue) : SiteValue :=
  (ls.flatMap fun l => l.changes.getD []).foldl Change.apply v

section Blocks
variable {ls ls' : List OutLine} {x : SiteValue} {b : Bool} {copypath : Text} {s : SiteValue}

@[simp] lemma applied_append (ls ls' : List OutLine) (x : SiteValue) :
    applied (ls ++ ls') x = applied ls' (applied ls x) := by
  rw [applied, List.flatMap_append, List.foldl_append, applied, applied]

@[simp] lemma applied_nil (x : SiteValue) : applied [] x = x := rfl

lemma applied_cons (l : OutLine) (ls : List OutLine) (x : SiteValue) :
    applied (l :: ls) x = applied ls (applied [l] x) := applied_append [l] ls x

/-- A block of clear lines is read. -/
lemma read_lines (ls : List OutLine) (hls : ∀ l ∈ ls, l.Clear ∧ l.changes.isSome = true)
    (n : ℕ) {r : Reading} {v : SiteValue} {older : List SiteValue} (hthis : r.this = .site)
    (hsites : r.sites = v :: older) :
    foldLines (readLine copypath) n r (ls.map fun l => l.text ++ [newline]) =
      .ok { r with sites := applied ls v :: older } := by
  induction ls generalizing n r v with
  | nil =>
    rw [applied_nil, ← hsites]
    rfl
  | cons l ls ih =>
    obtain ⟨⟨hclear, hsome⟩, hrest⟩ := List.forall_mem_cons.mp hls
    obtain ⟨cs, hcs⟩ := Option.isSome_iff_exists.mp hsome
    have hread : readLine copypath r (l.text ++ [newline]) =
        some { r with sites := applied [l] v :: older } := by
      have hin : decide (r.this ≠ .null) = true := by simp [hthis]
      unfold readLine
      rw [hin, line_changes hclear hcs]
      dsimp only
      rw [Reading.change, hthis, hsites]
      simp [applied, hcs]
    rw [List.map_cons, foldLines, hread]
    dsimp only
    rw [applied_cons l ls v]
    exact ih hrest (n + 1) (r := { r with sites := applied [l] v :: older }) hthis rfl

/-! What each part of the block sets. -/

lemma applied_string {key : Text} {field : StringField}
    (hkey : ∀ v, keyValue key v = some [.string field v]) (v : Text) :
    applied [.value key v] x =
      { x with strings := Function.update x.strings field (some v) } := by
  simp [applied, OutLine.changes, hkey, Change.apply]

lemma applied_nonempty {key : Text} {field : StringField}
    (hkey : ∀ v, keyValue key v = some [.string field v]) (v : Option Text) :
    applied (nonempty key v) x = { x with
      strings := Function.update x.strings field ((v.filter (· ≠ [])).or (x.strings field)) } := by
  cases v with
  | none => simp [nonempty]
  | some v =>
    cases v with
    | nil => simp [nonempty, Option.filter]
    | cons c v => simp [nonempty, applied_string hkey, Option.filter]

lemma isRel_false {v : Text} (h : ∀ rest, v ≠ 126 :: 47 :: rest) : isRel (some v) = false := by
  unfold isRel
  split
  · next rest heq => exact absurd (Option.some.inj heq) (h rest)
  · rfl

lemma applied_root {key : Text} {isrel : Bool → Settings → Settings} {field : StringField}
    (hkey : ∀ v, keyValue key v = rootChanges isrel field v) {v : Text} (hv : RootOk v) :
    applied [.value key v] x = { x with
      settings := isrel (isRel (some v)) x.settings
      strings := Function.update x.strings field (some (withSlash v)) } := by
  have hroot : rootChanges isrel field v =
      some [.plain (isrel (isRel (some v))), .string field (withSlash v)] := by
    unfold rootChanges
    dsimp only
    split
    · rfl
    · next rest hno =>
      have hslash := hv.2 rest rfl
      cases rest with
      | nil => cases hslash
      | cons c rest => exact absurd (congrArg (· :: rest) (Option.some.inj hslash)) (hno rest)
    · next hrel _ =>
      rw [isRel_false hrel]
      rfl
  simp [applied, OutLine.changes, hkey, hroot, Change.apply]

lemma applied_protocol (v : Text) : applied [.value (ascii "protocol") v] x = { x with
    settings := { x.settings with protocol := protocolOf v }
    protoString := v
    strings := Function.update
      (Function.update x.strings .rshCmd ((x.strings .rshCmd).or
        (if sameName v (ascii "ssh") then some (ascii "ssh") else none)))
      .rcpCmd ((x.strings .rcpCmd).or
        (if sameName v (ascii "ssh") then some (ascii "scp") else none)) } := by
  have hchanges : keyValue (ascii "protocol") v =
      some (.plain (fun s => { s with protocol := protocolOf v }) ::
        (if sameName v (ascii "ssh") then
          [.stringIfNull .rshCmd (ascii "ssh"), .stringIfNull .rcpCmd (ascii "scp")]
        else []) ++ [.protoString v]) := rfl
  unfold applied OutLine.changes
  simp only [hchanges, List.flatMap_singleton, Option.getD_some]
  split_ifs
  · have hupdate (field : StringField) (v : Text) (h : x.strings field = some v) :
        Function.update x.strings field (some v) = x.strings := by
      rw [← h, Function.update_eq_self]
    cases hrsh : x.strings .rshCmd <;> cases hrcp : x.strings .rcpCmd <;>
      simp [Change.apply, hrsh, hrcp, hupdate]
  · simp [Change.apply]

lemma applied_setting {l : OutLine} {f : Settings → Settings} (h : l.changes = some [.plain f]) :
    applied [l] x = { x with settings := f x.settings } := by
  simp [applied, h, Change.apply]

/-- A line that is written if its setting is on, and sets `g` there. -/
lemma applied_onlyIf {l : OutLine} {f : Settings → Settings} (g : Bool → Settings → Settings)
    (h : l.changes = some [.plain f]) (hon : ∀ t, g true t = f t) (hoff : ∀ t, g false t = t) :
    applied (onlyIf b l) x = { x with settings := g b x.settings } := by
  cases b with
  | true => rw [onlyIf, if_pos rfl, applied_setting h, hon]
  | false =>
    rw [onlyIf, if_neg (by decide), hoff]
    rfl

lemma applied_checkmoved (b c : Bool) : applied (onlyIf b
      (if c then .value (ascii "checkmoved") (ascii "renames") else .flag (ascii "checkmoved"))) x =
    { x with settings := { x.settings with
        checkmoved := b || x.settings.checkmoved
        checkrenames := (b && c) || x.settings.checkrenames } } := by
  cases b <;> cases c <;> rfl

lemma applied_port {port : ℤ} (h : port < 2 ^ 31) :
    applied (onlyIf (0 < port) (.value (ascii "port") (printInt port))) x =
      { x with settings := { x.settings with
          serverPort := if 0 < port then port else x.settings.serverPort } } := by
  by_cases hpos : 0 < port
  · have hatoi : atoi (printInt port) = port := by
      unfold atoi
      rw [strtol_printInt (by omega) (by omega)]
      exact Int.bmod_eq_of_le (by omega) (by omega)
    simp only [hpos, decide_true]
    rw [onlyIf, if_pos rfl, applied_setting (f := fun t => { t with serverPort := port })]
    · rfl
    · change keyValue (ascii "port") (printInt port) = _
      have hkey : ∀ v, keyValue (ascii "port") v =
        some [.plain fun s => { s with serverPort := atoi v }] := fun _ => rfl
      rw [hkey, hatoi]
  · simp only [hpos, decide_false]
    rfl

lemma applied_url (url : Option Text) : applied (url.toList.map (.value (ascii "url"))) x =
    { x with strings := Function.update x.strings .url (url.or (x.strings .url)) } := by
  cases url with
  | none => simp
  | some v => rfl

lemma applied_state (method : StateMethod) :
    applied [.value (ascii "state") (stateWord method)] x =
      { x with settings := { x.settings with stateMethod := method } } := by
  cases method <;> rfl

lemma applied_perms (perms : PermMode) :
    applied [.value (ascii "permissions") (permsWord perms)] x =
      { x with settings := { x.settings with
          perms := perms
          dirperms := perms ≠ .ignore && x.settings.dirperms } } := by
  cases perms <;> rfl

lemma applied_symlinks (symlinks : SymlinkMode) :
    applied [.value (ascii "symlinks") (symlinksWord symlinks)] x =
      { x with settings := { x.settings with symlinks := symlinks } } := by
  cases symlinks <;> rfl

lemma patternOf_text {p : FnPattern} (h : PatternOk p) : patternOf (patternText p) = p := by
  obtain ⟨pattern, haspath⟩ := p
  cases haspath with
  | true => rfl
  | false =>
    have hpath := h.path rfl
    unfold patternOf patternText
    dsimp only at hpath ⊢
    rw [if_neg (by decide), List.nil_append]
    split
    · exact absurd rfl hpath
    · rfl

lemma applied_patterns {key : Text} {list : ListField}
    (hkey : ∀ v, keyValue key v = some [.pattern list (patternOf v)]) (ps : List FnPattern)
    (hps : ∀ p ∈ ps, PatternOk p) : applied (ps.map (.pattern key)) x =
      { x with lists := Function.update x.lists list (ps.reverse ++ x.lists list) } := by
  induction ps generalizing x with
  | nil => simp
  | cons p ps ih =>
    obtain ⟨hp, hps⟩ := List.forall_mem_cons.mp hps
    have hpattern : patternOf (patternText p) = p := patternOf_text hp
    rw [List.map_cons, applied_cons, ih hps]
    simp [applied, OutLine.changes, hkey, hpattern, Change.apply]

/-- The block of a site gives the site as it is read back. -/
theorem applied_body (h : Writable s) (name : Text) (hname : s.strings .name = some name) :
    applied (bodyLines s) (newSite copypath builtinSite name) = reread copypath s := by
  obtain ⟨host, hhost, -⟩ := h.hostname
  obtain ⟨remote, hremote, hremoteOk⟩ := h.remote
  obtain ⟨loc, hloc, hlocOk⟩ := h.localRoot
  unfold bodyLines
  simp only [applied_append, hhost, hremote, hloc, printed, Option.getD_some]
  rw [@applied_string _ (ascii "server") .hostname fun _ => rfl,
    @applied_nonempty _ (ascii "username") .username fun _ => rfl,
    @applied_nonempty _ (ascii "password") .password fun _ => rfl,
    @applied_root _ (ascii "remote") (fun b t => { t with remoteIsrel := b }) .remoteRootUser
      (fun _ => rfl) _ hremoteOk,
    @applied_root _ (ascii "local") (fun b t => { t with localIsrel := b }) .localRootUser
      (fun _ => rfl) _ hlocOk,
    applied_protocol,
    applied_onlyIf (l := .flag (ascii "nodelete"))
      (fun b t => { t with nodelete := b || t.nodelete }) rfl (fun _ => rfl) fun _ => rfl,
    applied_checkmoved,
    applied_onlyIf (l := .flag (ascii "nooverwrite"))
      (fun b t => { t with nooverwrite := b || t.nooverwrite }) rfl (fun _ => rfl) fun _ => rfl,
    applied_onlyIf (l := .flag (ascii "safe"))
      (fun b t => { t with safemode := b || t.safemode }) rfl (fun _ => rfl) fun _ => rfl,
    applied_onlyIf (l := .flag (ascii "lowercase"))
      (fun b t => { t with lowercase := b || t.lowercase }) rfl (fun _ => rfl) fun _ => rfl,
    applied_onlyIf (l := .flag (ascii "tempupload"))
      (fun b t => { t with tempupload := b || t.tempupload }) rfl (fun _ => rfl) fun _ => rfl,
    applied_onlyIf (l := .value (ascii "ftp") (ascii "nopasv"))
      (fun b t => { t with ftpPasvMode := !b && t.ftpPasvMode }) rfl (fun _ => rfl) fun _ => rfl,
    applied_onlyIf (l := .value (ascii "ftp") (ascii "showquit"))
      (fun b t => { t with ftpEchoQuit := b || t.ftpEchoQuit }) rfl (fun _ => rfl) fun _ => rfl,
    applied_onlyIf (l := .value (ascii "ftp") (ascii "usecwd"))
      (fun b t => { t with ftpUseCwd := b || t.ftpUseCwd }) rfl (fun _ => rfl) fun _ => rfl,
    applied_onlyIf (l := .value (ascii "http") (ascii "limit"))
      (fun b t => { t with httpLimit := b || t.httpLimit }) rfl (fun _ => rfl) fun _ => rfl,
    applied_onlyIf (l := .value (ascii "http") (ascii "expect"))
      (fun b t => { t with httpUseExpect := b || t.httpUseExpect }) rfl (fun _ => rfl) fun _ => rfl,
    applied_port h.port, applied_url, applied_state, applied_perms,
    applied_onlyIf (l := .value (ascii "permissions") (ascii "dir"))
      (fun b t => { t with dirperms := b || t.dirperms }) rfl (fun _ => rfl) fun _ => rfl,
    applied_symlinks,
    @applied_patterns _ (ascii "exclude") .excludes (fun _ => rfl) _ (h.patterns .excludes),
    @applied_patterns _ (ascii "ascii") .asciis (fun _ => rfl) _ (h.patterns .asciis),
    @applied_patterns _ (ascii "ignore") .ignores (fun _ => rfl) _ (h.patterns .ignores)]
  unfold newSite builtinSite reread
  dsimp only
  congr 1
  · simp [hremote, hloc]
    omega
  · funext field
    cases field <;> simp [hname, hhost, hremote, hloc]
  · funext l
    cases l <;> simp

/-! ### The whole file -/

/-- A line that can be read. -/
def Readable (l : OutLine) : Prop := l.Clear ∧ l.changes.isSome = true

/-- A key for values. -/
def isKey (key : Text) : Bool := letters key && key ≠ ascii "site"

lemma word_of_key {key : Text} (h : isKey key = true) : Word key ∧ key ≠ ascii "site" := by
  unfold isKey at h
  rw [Bool.and_eq_true, decide_eq_true_eq] at h
  exact ⟨word_of_letters h.1, h.2⟩

lemma readable_value {key v : Text} (hkey : isKey key = true) (hv : Word v)
    (hsome : (keyValue key v).isSome = true) : Readable (.value key v) :=
  ⟨⟨(word_of_key hkey).1, hv, (word_of_key hkey).2⟩, hsome⟩

lemma readable_onlyIf {l : OutLine} (h : b = true → Readable l) : ∀ x ∈ onlyIf b l, Readable x := by
  intro x hx
  unfold onlyIf at hx
  split_ifs at hx with hb
  · obtain rfl := List.mem_singleton.mp hx
    exact h hb
  · cases hx

lemma readable_nonempty {key : Text} {v : Option Text} (hkey : isKey key = true)
    (hsome : ∀ v, (keyValue key v).isSome = true)
    (hv : ∀ t, v = some t → t ≠ [] → Word t) : ∀ x ∈ nonempty key v, Readable x := by
  intro x hx
  unfold nonempty at hx
  split at hx
  · cases hx
  · cases hx
  · next t hne =>
    obtain rfl := List.mem_singleton.mp hx
    exact readable_value hkey (hv t rfl fun h => hne h) (hsome t)

lemma readable_patterns {key : Text} {ps : List FnPattern} (hkey : isKey key = true)
    (hsome : ∀ v, (keyValue key v).isSome = true)
    (hps : ∀ p ∈ ps, PatternOk p) : ∀ x ∈ ps.map (.pattern key), Readable x := by
  intro x hx
  obtain ⟨p, hp, rfl⟩ := List.mem_map.mp hx
  exact ⟨⟨(word_of_key hkey).1, hps p hp, (word_of_key hkey).2⟩, hsome _⟩

lemma rootChanges_isSome {isrel : Bool → Settings → Settings} {field : StringField} {v : Text}
    (hv : RootOk v) : (rootChanges isrel field v).isSome = true := by
  unfold rootChanges
  dsimp only
  split
  · rfl
  · next rest hno =>
    have hslash := hv.2 rest rfl
    cases rest with
    | nil => cases hslash
    | cons c rest => exact absurd (congrArg (· :: rest) (Option.some.inj hslash)) (hno rest)
  · rfl

lemma word_printInt {z : ℤ} (h : 0 < z) : Word (printInt z) := by
  unfold printInt
  rw [if_neg (by omega)]
  refine word_above (printNat_ne_nil _ _) fun c hc => ?_
  have hdigit := printNat_digits (by omega) (by omega) _ c hc
  simp only [isDigit, Bool.and_eq_true, decide_eq_true_eq] at hdigit
  rw [hash_toNat]
  omega

/-- Every line of the block is readable. -/
lemma readable_body (h : Writable s) : ∀ l ∈ bodyLines s, Readable l := by
  obtain ⟨host, hhost, hhostWord⟩ := h.hostname
  obtain ⟨remote, hremote, hremoteOk⟩ := h.remote
  obtain ⟨loc, hloc, hlocOk⟩ := h.localRoot
  have hflag (key : Text) (hkey : letters key = true) (hsome : (keyFlag key).isSome = true) :
      Readable (.flag key) := by
    obtain ⟨c, hc⟩ := Option.isSome_iff_exists.mp hsome
    exact ⟨word_of_letters hkey, by simp [OutLine.changes, hc]⟩
  have hfixed (key v : Text) (hkv : (isKey key && letters v) = true)
      (hsome : (keyValue key v).isSome = true) : Readable (.value key v) := by
    rw [Bool.and_eq_true] at hkv
    exact readable_value hkv.1 (word_of_letters hkv.2) hsome
  have hremoteSome : (keyValue (ascii "remote") remote).isSome = true :=
    @rootChanges_isSome (fun b t => { t with remoteIsrel := b }) .remoteRootUser _ hremoteOk
  have hlocalSome : (keyValue (ascii "local") loc).isSome = true :=
    @rootChanges_isSome (fun b t => { t with localIsrel := b }) .localRootUser _ hlocOk
  unfold bodyLines
  simp only [List.forall_mem_append, List.forall_mem_singleton, hhost, hremote, hloc, printed,
    Option.getD_some, and_assoc]
  refine ⟨readable_value (by decide) hhostWord rfl,
    readable_nonempty (by decide) (fun _ => rfl) h.username,
    readable_nonempty (by decide) (fun _ => rfl) h.password,
    readable_value (by decide) hremoteOk.1 hremoteSome,
    readable_value (by decide) hlocOk.1 hlocalSome,
    readable_value (by decide) h.proto rfl,
    readable_onlyIf fun _ => hflag _ (by decide) rfl,
    readable_onlyIf fun _ => ?checkmoved,
    readable_onlyIf fun _ => hflag _ (by decide) rfl,
    readable_onlyIf fun _ => hflag _ (by decide) rfl,
    readable_onlyIf fun _ => hflag _ (by decide) rfl,
    readable_onlyIf fun _ => hflag _ (by decide) rfl,
    readable_onlyIf fun _ => hfixed _ _ (by decide) rfl,
    readable_onlyIf fun _ => hfixed _ _ (by decide) rfl,
    readable_onlyIf fun _ => hfixed _ _ (by decide) rfl,
    readable_onlyIf fun _ => hfixed _ _ (by decide) rfl,
    readable_onlyIf fun _ => hfixed _ _ (by decide) rfl,
    readable_onlyIf fun hport => ?port, ?url, ?state, ?perms,
    readable_onlyIf fun _ => hfixed _ _ (by decide) rfl, ?symlinks,
    readable_patterns (by decide) (fun _ => rfl) (h.patterns .excludes),
    readable_patterns (by decide) (fun _ => rfl) (h.patterns .asciis),
    readable_patterns (by decide) (fun _ => rfl) (h.patterns .ignores)⟩
  case checkmoved =>
    split_ifs
    · exact hfixed _ _ (by decide) rfl
    · exact hflag _ (by decide) rfl
  case port =>
    exact readable_value (by decide)
      (word_printInt (of_decide_eq_true hport)) rfl
  case url =>
    intro l hl
    obtain ⟨v, hv, rfl⟩ := List.mem_map.mp hl
    exact readable_value (by decide)
      (h.url v (Option.mem_toList.mp hv)) rfl
  case state => cases s.settings.stateMethod <;> exact hfixed _ _ (by decide) rfl
  case perms => cases s.settings.perms <;> exact hfixed _ _ (by decide) rfl
  case symlinks => cases s.settings.symlinks <;> exact hfixed _ _ (by decide) rfl

lemma Word.newline {v : Text} (h : Word v) : newline ∉ v :=
  fun hmem => absurd (h.bare _ hmem) (by decide)

/-- There is no newline inside a line. -/
lemma text_newline {l : OutLine} (h : l.Clear) : newline ∉ l.text := by
  have hblank : Rcfile.newline ∉ ascii "  " := by decide
  cases l with
  | flag key =>
    have hkey : Word key := h
    simp [OutLine.text, hblank, hkey.newline]
  | value key v =>
    obtain ⟨hkey, hv, -⟩ := h
    have hspace : Rcfile.newline ≠ 32 := by decide
    simp [OutLine.text, hblank, hkey.newline, hv.newline, hspace]
  | pattern key p =>
    obtain ⟨hkey, hp, -⟩ := h
    have hspace : Rcfile.newline ≠ 32 := by decide
    have hquote : Rcfile.newline ≠ quote := by decide
    have hpattern : Rcfile.newline ∉ patternText p := fun hmem => (hp.chars _ hmem).2.2.1 rfl
    simp [OutLine.text, hblank, hkey.newline, hpattern, hspace, hquote]

lemma lines_short (h : Writable s) : ShortLines Rcfile.newline (LINESIZE - 1) (siteLines s) := by
  intro l hl
  refine ⟨?_, h.short l hl⟩
  rcases List.mem_cons.mp hl with rfl | hl
  · obtain ⟨name, hname, hword⟩ := h.name
    have hsite : Rcfile.newline ∉ ascii "site " := by decide
    simp [hname, printed, hsite, hword.newline]
  · obtain ⟨x, hx, rfl⟩ := List.mem_map.mp hl
    exact text_newline (readable_body h x hx).1

/-- The lines of a site add it to the list. -/
lemma read_site (h : Writable s) (n : ℕ) {r : Reading} (hdefault : r.default = builtinSite) :
    foldLines (readLine copypath) n r ((siteLines s).map (· ++ [newline])) =
      .ok { r with this := .site, sites := reread copypath s :: r.sites } := by
  obtain ⟨name, hname, hword⟩ := h.name
  have hfirst : readLine copypath r (ascii "site " ++ name ++ [newline]) =
      some { r with this := .site, sites := newSite copypath r.default name :: r.sites } := by
    unfold readLine
    rw [line_site hword]
  have hlines : (siteLines s).map (· ++ [newline]) = (ascii "site " ++ name ++ [newline]) ::
      (bodyLines s).map fun l => l.text ++ [newline] := by
    simp [siteLines, hname, printed]
  rw [hlines, foldLines, hfirst]
  dsimp only
  rw [read_lines (bodyLines s) (readable_body h) (n + 1) rfl rfl, hdefault,
    applied_body h name hname]

lemma read_sites (sites : List SiteValue) (hsites : ∀ s ∈ sites, Writable s) (n : ℕ)
    {r : Reading} (hdefault : r.default = builtinSite) :
    foldLines (readLine copypath) n r ((sites.flatMap siteLines).map (· ++ [newline])) = .ok {
      r with
      this := if sites = [] then r.this else .site
      sites := (sites.map (reread copypath)).reverse ++ r.sites } := by
  induction sites generalizing n r with
  | nil => rfl
  | cons s sites ih =>
    obtain ⟨hs, hsites⟩ := List.forall_mem_cons.mp hsites
    rw [List.flatMap_cons, List.map_append, foldLines_append_ok (read_site hs n hdefault)]
    have hrest := @ih hsites (n + ((siteLines s).map (· ++ [newline])).length)
      { r with this := .site, sites := reread copypath s :: r.sites } hdefault
    rw [hrest]
    simp

/-- What is in memory after these sites were read, the last of the file first. -/
def holding (sites : List SiteValue) : Reading where
  this := if sites = [] then .null else .site
  sites := sites

/-- Reading what was written gives all sites back, in the opposite order. -/
lemma read_written (copypath : Text) (sites : List SiteValue) (hsites : ∀ s ∈ sites, Writable s) :
    rcfileRead copypath (rcfileWrite sites) =
      .ok (holding (sites.map (reread copypath)).reverse) := by
  have hshort : ShortLines newline (LINESIZE - 1) (sites.flatMap siteLines) := by
    intro l hl
    obtain ⟨s, hs, hl⟩ := List.mem_flatMap.mp hl
    exact lines_short (hsites s hs) l hl
  have hpieces : piecesOf newline (LINESIZE - 1) (LINESIZE - 1) (rcfileWrite sites) =
      (sites.flatMap siteLines).map (· ++ [newline]) := by
    have hcut := piecesOf_terminated hshort []
    rw [List.append_nil] at hcut
    rw [rcfileWrite, hcut, piecesOf, List.append_nil]
  rw [rcfileRead, throughBuffer, hpieces, read_sites sites hsites 0 rfl, List.append_nil]
  simp [holding]

lemma isRel_withSlash {v : Text} (hv : RootOk v) : isRel (some (withSlash v)) = isRel (some v) := by
  unfold withSlash
  split_ifs with hlast
  · rfl
  · match v with
    | [] => rfl
    | [c] =>
      have hc : c ≠ tilde := fun hc => by cases hv.2 [] (by rw [hc])
      have hslash (rest : Text) : [c] ++ [slash] ≠ 126 :: 47 :: rest := by simp_all [tilde]
      rw [isRel_false hslash, isRel_false (by simp)]
    | c :: d :: v =>
      unfold isRel
      simp only [List.cons_append]
      split <;> simp_all

lemma rootOk_withSlash {v : Text} (hv : RootOk v) : RootOk (withSlash v) := by
  obtain ⟨hword, htilde⟩ := hv
  unfold withSlash
  split_ifs with hlast
  · exact ⟨hword, htilde⟩
  · obtain ⟨c, v, rfl⟩ := List.exists_cons_of_ne_nil hword.nonempty
    refine ⟨⟨by simp, ?_, ?_, hword.unquoted⟩, ?_⟩
    · intro d hd
      rcases List.mem_append.mp hd with hd | hd
      · exact hword.bare d hd
      · obtain rfl := List.mem_singleton.mp hd
        decide
    · have hslash : (0 : UInt8) ≠ slash := by decide
      rw [List.mem_append, List.mem_singleton]
      exact not_or.mpr ⟨hword.clean, hslash⟩
    · intro rest hrest
      obtain ⟨rfl, rfl⟩ := List.cons.inj hrest
      have hhead := htilde v rfl
      change (v ++ [slash]).head? = some slash
      rw [List.head?_append, hhead]
      rfl

lemma withSlash_withSlash (v : Text) : withSlash (withSlash v) = withSlash v := by
  unfold withSlash
  split_ifs <;> simp_all

/-- A site as it is read after two rounds. -/
def restored (copypath : Text) (s : SiteValue) : SiteValue :=
  { reread copypath s with lists := s.lists }

/-- Reading a second time changes nothing but the order of the patterns. -/
lemma reread_reread (copypath : Text) (h : Writable s) :
    reread copypath (reread copypath s) = restored copypath s := by
  obtain ⟨remote, hremote, hremoteOk⟩ := h.remote
  obtain ⟨loc, hloc, hlocOk⟩ := h.localRoot
  unfold restored reread
  dsimp only
  congr 1
  · simp only [hremote, hloc, Option.map_some, isRel_withSlash hremoteOk, isRel_withSlash hlocOk]
    simp
  · funext field
    cases field <;> simp [hremote, hloc, withSlash_withSlash, Option.filter_filter]
  · funext l
    simp

/-- What was read can be written, as far as the lines stay short. -/
lemma Writable.reread (h : Writable s)
    (hshort : ∀ l ∈ siteLines (reread copypath s), l.length + 1 ≤ LINESIZE - 1) :
    Writable (reread copypath s) where
  name := h.name
  hostname := h.hostname
  username v hv := h.username v (Option.filter_eq_some_iff.mp hv).1
  password v hv := h.password v (Option.filter_eq_some_iff.mp hv).1
  remote := by
    obtain ⟨remote, hremote, hremoteOk⟩ := h.remote
    exact ⟨withSlash remote, congrArg (Option.map withSlash) hremote, rootOk_withSlash hremoteOk⟩
  localRoot := by
    obtain ⟨loc, hloc, hlocOk⟩ := h.localRoot
    exact ⟨withSlash loc, congrArg (Option.map withSlash) hloc, rootOk_withSlash hlocOk⟩
  proto := h.proto
  url := h.url
  port := by
    have hport := h.port
    change max 0 s.settings.serverPort < 2 ^ 31
    omega
  patterns l p hp := h.patterns l p (List.mem_reverse.mp hp)
  short := hshort

/-- A site of which the local root gets a slash. -/
def homepage : SiteValue where
  settings := { serverPort := 8080, nodelete := true, perms := .exec }
  protoString := ascii "dav"
  strings
    | .name => some (ascii "home")
    | .hostname => some (ascii "www.example.org")
    | .password => some []
    | .remoteRootUser => some (ascii "~/public/")
    | .localRootUser => some (ascii "/web")
    | _ => none
  lists
    | .excludes => [⟨ascii "*.bak", false⟩, ⟨ascii "tmp dir", true⟩]
    | _ => []

set_option maxRecDepth 1000 in
lemma homepage_writable : Writable homepage where
  name := ⟨ascii "home", rfl, word_of_letters (by decide)⟩
  hostname := ⟨ascii "www.example.org", rfl,
    word_above (by decide) (by simp [ascii, Rcfile.hash])⟩
  username v hv := by cases hv
  password v hv hne := absurd (Option.some.inj hv).symm hne
  remote := by
    refine ⟨ascii "~/public/", rfl, word_above (by decide) (by simp [ascii, Rcfile.hash]), ?_⟩
    intro rest hrest
    rw [← (List.cons.inj hrest).2]
    decide
  localRoot := by
    refine ⟨ascii "/web", rfl, word_above (by decide) (by simp [ascii, Rcfile.hash]), ?_⟩
    intro rest hrest
    exact absurd (List.cons.inj hrest).1 (by decide)
  proto := word_of_letters (by decide)
  url v hv := by cases hv
  port := by decide
  patterns l p hp := by
    cases l with
    | excludes =>
      rcases List.mem_cons.mp hp with rfl | hp
      · exact ⟨by decide, by simp [ascii, quote, backslash, newline], by decide⟩
      · obtain rfl := List.mem_singleton.mp hp
        exact ⟨by decide, by simp [ascii, quote, backslash, newline], by decide⟩
    | ignores => cases hp
    | asciis => cases hp
  short := by decide

end Blocks

end Sitecopy.RcfileWriting
