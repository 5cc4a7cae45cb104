import Sitecopy.LsParser

/-!
# Lines that `ls -l` prints

The fields of a line are found one after another, whatever their widths and the blanks between
them. The mode is taken from the whole first field, with the marker that may stand behind the
nine permissions.
-/
namespace Sitecopy.LsLines
open SiteModel SiteOperations Numerals FtpTransfer LsParser

/-! ### Fields -/

/-- A field and the blanks behind it. -/
def fieldThen (gap : ℕ) (field rest : Text) : Text := field ++ List.replicate (gap + 1) blank ++ rest

section Fields
variable {gap : ℕ} {field rest : Text}

lemma replicate_blank_dropWhile (n : ℕ) (hrest : rest.head? ≠ some blank) :
    (List.replicate n blank ++ rest).dropWhile (· = blank) = rest := by
  induction n with
  | zero =>
    cases rest with
    | nil => rfl
    | cons c rest =>
      rw [List.replicate_zero, List.nil_append, List.dropWhile_cons_of_neg]
      simpa using hrest
  | succ n ih =>
    rw [List.replicate_succ, List.cons_append, List.dropWhile_cons_of_pos (by simp)]
    exact ih

lemma field_dropWhile (hfield : blank ∉ field) : (fieldThen gap field rest).dropWhile (· ≠ blank) =
    List.replicate (gap + 1) blank ++ rest := by
  induction field with
  | nil =>
    rw [fieldThen, List.nil_append, List.replicate_succ, List.cons_append,
      List.dropWhile_cons_of_neg (by simp)]
  | cons c field ih =>
    rw [List.mem_cons, not_or] at hfield
    rw [fieldThen, List.cons_append, List.cons_append, List.dropWhile_cons_of_pos]
    · exact ih hfield.2
    · simpa using Ne.symm hfield.1

lemma field_takeWhile (hfield : blank ∉ field) :
    (fieldThen gap field rest).takeWhile (· ≠ blank) = field := by
  induction field with
  | nil => rfl
  | cons c field ih =>
    rw [List.mem_cons, not_or] at hfield
    rw [fieldThen, List.cons_append, List.cons_append, List.takeWhile_cons_of_pos]
    · exact congrArg (c :: ·) (ih hfield.2)
    · simpa using Ne.symm hfield.1

/-- Also what is left of a field is skipped. -/
lemma skipField_field (hfield : blank ∉ field) (hrest : rest.head? ≠ some blank) :
    skipField (fieldThen gap field rest) = rest := by
  rw [skipField, field_dropWhile hfield, replicate_blank_dropWhile _ hrest]

lemma neToken_field (hfield : blank ∉ field) :
    neToken (fieldThen gap field rest) blank = (field, some (List.replicate gap blank ++ rest)) := by
  have hmem : blank ∈ fieldThen gap field rest := by simp [fieldThen, List.replicate_succ]
  rw [neToken, if_pos hmem, field_takeWhile hfield, field_dropWhile hfield, List.replicate_succ]
  rfl

/-- The loop over the blanks takes the first character of the next field as well. -/
lemma skipBlanks_field {gap' : ℕ} {field' : Text} (hne : field' ≠ []) (hfield' : blank ∉ field') :
    skipBlanks (List.replicate gap blank ++ fieldThen gap' field' rest) =
      fieldThen gap' field'.tail rest := by
  obtain ⟨c, w, rfl⟩ := List.exists_cons_of_ne_nil hne
  rw [List.mem_cons, not_or] at hfield'
  have hhead : (fieldThen gap' (c :: w) rest).head? ≠ some blank := by
    simpa [fieldThen] using Ne.symm hfield'.1
  rw [skipBlanks, replicate_blank_dropWhile _ hhead]
  rfl

lemma fieldThen_head (hne : field ≠ []) (hfield : blank ∉ field) :
    (fieldThen gap field rest).head? ≠ some blank := by
  obtain ⟨c, w, rfl⟩ := List.exists_cons_of_ne_nil hne
  rw [List.mem_cons, not_or] at hfield
  simpa [fieldThen] using Ne.symm hfield.1

end Fields

/-! ### Permissions -/

/-- Permissions as a number, the first one the highest bit. -/
def bits (perms : List Bool) : ℕ := perms.foldl (fun n b => 2 * n + b.toNat) 0

/-- The nine permission characters. -/
def permChars (perms : List Bool) : Text :=
  List.zipWith (fun b c => if b then c else 45) perms (ascii "rwxrwxrwx")

lemma permChars_blank (perms : List Bool) : blank ∉ permChars perms := by
  have hmem : ∀ (l : List Bool) (cs : Text), blank ∉ cs →
      blank ∉ List.zipWith (fun b c => if b then c else (45 : UInt8)) l cs := by
    intro l
    induction l with
    | nil => simp
    | cons b l ih =>
      intro cs hcs
      cases cs with
      | nil => simp
      | cons c cs =>
        rw [List.mem_cons, not_or] at hcs
        rw [List.zipWith_cons_cons, List.mem_cons, not_or]
        refine ⟨?_, ih cs hcs.2⟩
        split_ifs
        · exact hcs.1
        · decide
  exact hmem perms _ (by decide)

lemma bits_append (p q : List Bool) : bits (p ++ q) = bits p * 2 ^ q.length + bits q := by
  have hfold : ∀ (n : ℕ), q.foldl (fun n b => 2 * n + b.toNat) n = n * 2 ^ q.length + bits q := by
    unfold bits
    induction q with
    | nil => simp
    | cons b q ih =>
      intro n
      rw [List.foldl_cons, ih, List.foldl_cons, ih (2 * 0 + b.toNat), List.length_cons, pow_succ]
      ring
  rw [bits, List.foldl_append, hfold]
  rfl

lemma bits_lt (p : List Bool) : bits p < 2 ^ p.length := by
  induction p using List.reverseRecOn with
  | nil => decide
  | append_singleton p b ih =>
    have hb : bits [b] < 2 := by cases b <;> decide
    rw [bits_append, List.length_append, List.length_singleton, pow_succ]
    omega

/-- The number is the largest one if and only if all permissions are set. -/
lemma bits_full (p : List Bool) : bits p + 1 = 2 ^ p.length ↔ false ∉ p := by
  induction p using List.reverseRecOn with
  | nil => simp [bits]
  | append_singleton p b ih =>
    have hlt := bits_lt p
    rw [bits_append, List.length_append, List.length_singleton, pow_succ, List.mem_append,
      List.mem_singleton, not_or, ← ih]
    cases b with
    | false =>
      have hb : bits [false] = 0 := rfl
      rw [hb]
      constructor
      · intro h
        omega
      · intro h
        exact absurd rfl h.2
    | true =>
      have hb : bits [true] = 1 := rfl
      rw [hb]
      constructor
      · intro h
        exact ⟨by omega, by decide⟩
      · intro h
        omega

lemma permChars_map {perms : List Bool} (h : perms.length ≤ 9) :
    (permChars perms).map (fun c => decide (c ≠ 45)) = perms := by
  have hmap : ∀ (l : List Bool) (cs : Text), l.length ≤ cs.length → 45 ∉ cs →
      (List.zipWith (fun b c => if b then c else (45 : UInt8)) l cs).map
        (fun c => decide (c ≠ 45)) = l := by
    intro l
    induction l with
    | nil => simp
    | cons b l ih =>
      intro cs hlen hcs
      cases cs with
      | nil => simp at hlen
      | cons c cs =>
        rw [List.mem_cons, not_or] at hcs
        rw [List.zipWith_cons_cons, List.map_cons, ih cs (by simpa using hlen) hcs.2]
        cases b with
        | false => simp
        | true => simpa using Ne.symm hcs.1
  exact hmap perms _ h (by decide)

lemma shift_or (ret : UInt32) (b : Bool) :
    (ret <<< 1 ||| (if b then 1 else 0)).toNat = (2 * ret.toNat + b.toNat) % 2 ^ 32 := by
  have hshift : (ret <<< 1).toNat = 2 ^ 1 * (ret.toNat % 2 ^ 31) := by
    rw [UInt32.toNat_shiftLeft, Nat.shiftLeft_eq]
    change ret.toNat * 2 ^ 1 % 2 ^ 32 = _
    omega
  cases b with
  | false =>
    have h0 : (ret <<< 1 ||| (if false = true then 1 else 0)).toNat = (ret <<< 1).toNat := by simp
    rw [h0, hshift, Bool.toNat_false]
    omega
  | true =>
    have h1 : (ret <<< 1 ||| (if true = true then 1 else 0)).toNat = (ret <<< 1).toNat ||| 1 := by simp
    have hlow : 1 < 2 ^ 1 := by decide
    rw [h1, hshift, ← Nat.two_pow_add_eq_or_of_lt hlow, Bool.toNat_true]
    omega

/-- Every character but a dash is a permission that is set. -/
lemma parsePermissions_toNat (perms : Text) :
    (parsePermissions perms).toNat = bits (perms.map fun c => decide (c ≠ 45)) % 512 := by
  have hfold : (perms.foldl (fun (ret : UInt32) c => ret <<< 1 ||| (if c ≠ 45 then 1 else 0)) 0).toNat =
      bits (perms.map fun c => decide (c ≠ 45)) % 2 ^ 32 := by
    induction perms using List.reverseRecOn with
    | nil => rfl
    | append_singleton perms c ih =>
      have hbit : bits [decide (c ≠ 45)] = (decide (c ≠ 45)).toNat := by simp [bits]
      have hif : (if c ≠ 45 then (1 : UInt32) else 0) = if decide (c ≠ 45) then 1 else 0 := by simp
      rw [List.foldl_append, List.map_append, bits_append, List.foldl_cons, List.foldl_nil, hif,
        shift_or, ih, List.map_singleton, hbit, List.length_singleton]
      omega
  rw [parsePermissions, UInt32.toNat_and, hfold]
  have hmask : (0o777 : UInt32).toNat = 2 ^ 9 - 1 := rfl
  rw [hmask, Nat.and_two_pow_sub_one_eq_mod]
  omega

/-! ### The line of an entry -/

/-- A line that `ls -l` prints for a regular file or a directory. -/
structure EntryText where
  directory : Bool
  perms : List Bool
  /-- may stand behind the permissions -/
  marker : Text := []
  links : Text
  owner : Text
  group : Text
  size : ℕ
  month : Text
  day : Text
  time : Text
  name : Text
  /-- how many blanks there are behind each field, besides one -/
  gaps : ℕ → ℕ := fun _ => 0
  nine : perms.length = 9
  markers : marker ∈ [[], ascii ".", ascii "+", ascii "@"]
  fields : ∀ f ∈ [links, owner, group, month, day, time], f ≠ [] ∧ blank ∉ f
  long : size < 2 ^ 63
  named : name ≠ [] ∧ name ≠ [dot] ∧ name ≠ [dot, dot]
  one_name : slash ∉ name ∧ 10 ∉ name ∧ 13 ∉ name
  trimmed : (∀ c ∈ name.head?, isSpace c = false) ∧ ∀ c ∈ name.getLast?, isSpace c = false

namespace EntryText
variable (e : EntryText)

def kind : UInt8 := if e.directory then 100 else 45

/-- The first field: the type, the permissions and the marker. -/
def token : Text := e.kind :: permChars e.perms ++ e.marker

/-- What follows the first field. -/
def text : Text :=
  fieldThen (e.gaps 0) e.token <| fieldThen (e.gaps 1) e.links <| fieldThen (e.gaps 2) e.owner <|
  fieldThen (e.gaps 3) e.group <| fieldThen (e.gaps 4) (printNat 10 e.size) <|
  fieldThen (e.gaps 5) e.month <| fieldThen (e.gaps 6) e.day <| fieldThen (e.gaps 7) e.time e.name

/-- The permissions as mode bits. -/
def mode : UInt32 := UInt32.ofNat (bits e.perms)

/-- What `ls_parse` makes of the line in a directory, if it takes this mode from it. -/
def result (curdir : Text) (mode : UInt32) : LsResult :=
  if e.directory then .directory (curdir ++ e.name) mode else .file (curdir ++ e.name) mode e.size

lemma token_blank : blank ∉ e.token := by
  have hkind : e.kind ≠ blank := by unfold kind; split_ifs <;> decide
  have hmarker : blank ∉ e.marker := by
    have hm := e.markers
    simp only [List.mem_cons, List.not_mem_nil, or_false] at hm
    rcases hm with hm | hm | hm | hm <;> rw [hm] <;> decide
  rw [token, List.mem_append, List.mem_cons, not_or, not_or]
  exact ⟨⟨Ne.symm hkind, permChars_blank e.perms⟩, hmarker⟩

lemma name_head : e.name.head? ≠ some blank := fun h =>
  absurd (e.trimmed.1 blank h) (by decide)

lemma printNat_field (n : ℕ) : printNat 10 n ≠ [] ∧ blank ∉ printNat 10 n := by
  refine ⟨printNat_ne_nil 10 n, fun h => ?_⟩
  exact absurd (printNat_digits (by decide) (by decide) n _ h) (by decide)

/-- Every field is found. -/
lemma splitEntry_text : splitEntry e.text =
    .ok { perms := e.token, size := printNat 10 e.size, name := e.name } := by
  have hfield := e.fields
  simp only [List.forall_mem_cons] at hfield
  obtain ⟨hlinks, howner, hgroup, hmonth, hday, htime, -⟩ := hfield
  have hsize := printNat_field e.size
  have htail : ∀ {f : Text}, blank ∉ f → blank ∉ f.tail := fun h hm => h (List.mem_of_mem_tail hm)
  have hne : ∀ {gap : ℕ} {f rest : Text}, f ≠ [] → fieldThen gap f rest ≠ [] := by
    intro gap f rest hf
    simp [fieldThen, hf]
  rw [splitEntry, text, neToken_field e.token_blank]
  dsimp only
  rw [skipBlanks_field hlinks.1 hlinks.2,
    skipField_field (htail hlinks.2) (fieldThen_head howner.1 howner.2),
    skipField_field howner.2 (fieldThen_head hgroup.1 hgroup.2),
    skipField_field hgroup.2 (fieldThen_head hsize.1 hsize.2),
    if_neg (hne hsize.1), neToken_field hsize.2]
  dsimp only
  rw [skipBlanks_field hmonth.1 hmonth.2,
    skipField_field (htail hmonth.2) (fieldThen_head hday.1 hday.2),
    skipField_field hday.2 (fieldThen_head htime.1 htime.2),
    skipField_field htime.2 e.name_head, if_neg e.named.1]

/-- The line starts with the type and ends with the name. -/
lemma text_ends : ∃ mid, e.text = e.kind :: (mid ++ e.name) ∧ blank ∈ mid := by
  refine ⟨permChars e.perms ++ e.marker ++ List.replicate (e.gaps 0 + 1) blank ++
    fieldThen (e.gaps 1) e.links (fieldThen (e.gaps 2) e.owner (fieldThen (e.gaps 3) e.group
      (fieldThen (e.gaps 4) (printNat 10 e.size) (fieldThen (e.gaps 5) e.month
        (fieldThen (e.gaps 6) e.day (fieldThen (e.gaps 7) e.time [])))))), ?_, ?_⟩
  · simp [text, token, fieldThen]
  · simp [List.replicate_succ]

lemma neShave_trimmed {ws t eol : Text} (hne : t ≠ []) (hhead : ∀ c ∈ t.head?, c ∉ ws)
    (hlast : ∀ c ∈ t.getLast?, c ∉ ws) (heol : ∀ c ∈ eol, c ∈ ws) : neShave ws (t ++ eol) = t := by
  have hfront : (t ++ eol).dropWhile (· ∈ ws) = t ++ eol := by
    obtain ⟨c, w, rfl⟩ := List.exists_cons_of_ne_nil hne
    rw [List.cons_append, List.dropWhile_cons_of_neg]
    simpa using hhead c rfl
  have hback : (t.reverse).dropWhile (· ∈ ws) = t.reverse := by
    obtain ⟨w, c, rfl⟩ := List.eq_nil_or_concat t |>.resolve_left hne
    rw [List.concat_eq_append, List.reverse_append, List.reverse_singleton, List.singleton_append,
      List.dropWhile_cons_of_neg]
    simpa using hlast c (by simp)
  have hend : (eol.reverse ++ t.reverse).dropWhile (· ∈ ws) = t.reverse.dropWhile (· ∈ ws) := by
    rw [List.dropWhile_append_of_pos]
    intro c hc
    simpa using heol c (List.mem_reverse.mp hc)
  rw [neShave, hfront, List.reverse_append, hend, hback, List.reverse_reverse]

/-- The line end is shaved off, and nothing else. -/
lemma shave_text {eol : Text} (heol : eol ∈ [[], [10], [13, 10]]) :
    neShave [13, 10, 9, 32] (e.text ++ eol) = e.text := by
  obtain ⟨mid, htext, -⟩ := e.text_ends
  apply neShave_trimmed
  · simp [htext]
  · intro c hc
    rw [htext] at hc
    obtain rfl : e.kind = c := Option.some.inj hc
    unfold kind
    split_ifs <;> decide
  · intro c hc
    have hname : c ∈ e.name.getLast? := by
      rw [htext, ← List.cons_append, List.getLast?_append_of_ne_nil _ e.named.1] at hc
      exact hc
    have hspace := e.trimmed.2 c hname
    have hall : ∀ d ∈ ([13, 10, 9, 32] : Text), isSpace d = true := by simp [isSpace]
    intro hmem
    rw [hall c hmem] at hspace
    cases hspace
  · simp only [List.mem_cons, List.not_mem_nil, or_false] at heol
    rcases heol with rfl | rfl | rfl <;> simp

lemma parseEntry_text (curdir : Text) :
    parseEntry curdir { perms := e.token, size := printNat 10 e.size, name := e.name } =
      .ok (e.result curdir (parsePermissions e.token)) := by
  have hkind : e.token.getD 0 0 = e.kind := rfl
  have hsize : strtol (-2 ^ 63) (2 ^ 63 - 1) 10 (printNat 10 e.size) = e.size := by
    have hlong := e.long
    exact strtol_printInt (z := e.size) (by omega) (by omega)
  unfold parseEntry
  dsimp only
  rw [hkind, if_neg e.one_name.1, hsize, if_neg (not_or.mpr e.named.2)]
  unfold kind result
  cases e.directory <;> simp

/-- What `ls_parse` makes of the line. -/
theorem lsParse_text (ctx : LsContext) {eol : Text} (heol : eol ∈ [[], [10], [13, 10]]) :
    lsParse ctx (e.text ++ eol) =
      ({ ctx with afterBlank := false }, e.result ctx.curdir (parsePermissions e.token)) := by
  obtain ⟨mid, htext, hblank⟩ := e.text_ends
  have hne : e.text ≠ [] := by simp [htext]
  have htotal : ¬ (ascii "total ").isPrefixOf e.text = true := by
    rw [htext]
    unfold kind
    split_ifs <;> simp [ascii, List.isPrefixOf]
  have hheader : ¬ (e.text.getLast? = some colon ∧
      (({ ctx with afterBlank := false } : LsContext).afterBlank = true ∨ blank ∉ e.text)) := by
    rintro ⟨-, h | h⟩
    · cases h
    · exact h (by simp [htext, hblank])
  have hentry : splitEntry e.text >>= parseEntry ctx.curdir =
      .ok (e.result ctx.curdir (parsePermissions e.token)) := by
    rw [e.splitEntry_text]
    exact e.parseEntry_text ctx.curdir
  rw [lsParse, e.shave_text heol, if_neg hne]
  dsimp only
  rw [if_neg htotal, if_neg hheader, parseFile, hentry]

lemma mode_toNat : e.mode.toNat = bits e.perms := by
  have hlt := bits_lt e.perms
  rw [e.nine] at hlt
  rw [mode, UInt32.toNat_ofNat']
  omega

/-- A marker is taken for one more permission. -/
lemma token_toNat : (parsePermissions e.token).toNat =
    if e.marker = [] then bits e.perms else (2 * bits e.perms + 1) % 512 := by
  have hlt := bits_lt e.perms
  rw [e.nine] at hlt
  have hmap : e.token.map (fun c => decide (c ≠ 45)) =
      [decide (e.kind ≠ 45)] ++ e.perms ++ e.marker.map fun c => decide (c ≠ 45) := by
    rw [token, List.map_append, List.map_cons, permChars_map e.nine.le]
    rfl
  rw [parsePermissions_toNat, hmap, bits_append, bits_append, e.nine]
  by_cases hmarker : e.marker = []
  · rw [if_pos hmarker, hmarker, List.map_nil, List.length_nil]
    have h0 : bits [] = 0 := rfl
    rw [h0]
    omega
  · have hone : e.marker.map (fun c => decide (c ≠ 45)) = [true] := by
      have hm := e.markers
      simp only [List.mem_cons, List.not_mem_nil, or_false] at hm
      rcases hm with hm | hm | hm | hm
      · exact absurd hm hmarker
      all_goals rw [hm]; decide
    have h1 : bits [true] = 1 := rfl
    rw [if_neg hmarker, hone, h1, List.length_singleton]
    omega

lemma token_mode : parsePermissions e.token = e.mode ↔ e.marker = [] ∨ false ∉ e.perms := by
  have hlt := bits_lt e.perms
  have hfull := bits_full e.perms
  rw [e.nine] at hlt hfull
  rw [← UInt32.toNat_inj, e.token_toNat, e.mode_toNat, ← hfull]
  split_ifs with hmarker
  · simp [hmarker]
  · rw [or_iff_right hmarker]
    omega

lemma result_inj {curdir : Text} {m m' : UInt32} : e.result curdir m = e.result curdir m' ↔ m = m' := by
  unfold result
  split_ifs <;> simp

/-- The line is read back exactly if and only if it has no marker, or all permissions are set. -/
theorem lsParse_iff (ctx : LsContext) {eol : Text} (heol : eol ∈ [[], [10], [13, 10]]) :
    (lsParse ctx (e.text ++ eol)).2 = e.result ctx.curdir e.mode ↔
      e.marker = [] ∨ false ∉ e.perms := by
  rw [e.lsParse_text ctx heol, e.result_inj, e.token_mode]

end EntryText

def readme : EntryText where
  directory := false
  perms := [true, true, false, true, false, false, true, false, false]
  links := ascii "1"
  owner := ascii "joe"
  group := ascii "users"
  size := 120
  month := ascii "Jan"
  day := ascii "1"
  time := ascii "12:30"
  name := ascii "read me"
  gaps := fun i => if i = 4 then 2 else 0
  nine := rfl
  markers := by decide +kernel
  fields := by decide +kernel
  long := by decide
  named := by decide +kernel
  one_name := by decide +kernel
  trimmed := by decide +kernel

theorem lsParse_iff_plain :
    (lsParse (lsInit (ascii "/www")) (readme.text ++ [10])).2 =
        readme.result (lsInit (ascii "/www")).curdir readme.mode ↔
      readme.marker = [] ∨ false ∉ readme.perms :=
  readme.lsParse_iff (lsInit (ascii "/www")) (by simp)

/-- The same file with an access control list. -/
def listed : EntryText := { readme with marker := ascii "+", markers := by decide +kernel }

/-- `rw-r--r--` and a marker are read as `r-x--x--x`. -/
theorem marker_shifts_mode : listed.mode = 0o644 ∧
    (lsParse (lsInit (ascii "/www")) (listed.text ++ [10])).2 =
      .file (ascii "read me") 0o511 120 ∧
    (lsParse (lsInit (ascii "/www")) (listed.text ++ [10])).2 ≠
      listed.result (lsInit (ascii "/www")).curdir listed.mode := by
  decide +kernel

end Sitecopy.LsLines
