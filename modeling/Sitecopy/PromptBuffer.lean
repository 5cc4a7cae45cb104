import Sitecopy.CheckedBuffers
import Sitecopy.SftpDriver

/-!
# The buffer of the sftp session

`read_sftp` puts a NUL behind what it has read so far and looks for the prompt in front of
it. There is no room for the NUL when the output of the client fills the buffer.
-/
namespace Sitecopy.PromptBuffer
open SiteModel FtpSession SftpDriver CheckedBuffers

/-- What a `read` returns. -/
inductive ReadResult
  | failed
  | eof
  | data (bytes : Text)
  deriving DecidableEq, Repr

/-- The results of `read`, by the number of the call and the number of bytes asked for. -/
structure Descriptor where
  read : ℕ → ℕ → ReadResult
  lawful : ∀ turn size bytes, read turn size = .data bytes → bytes ≠ [] ∧ bytes.length ≤ size

/-- The loop of `read_sftp` with a bound on its turns; `none` when that is used up. -/
def readLoop (fd : Descriptor) (n turn pos : ℕ) (buf : Buffer bufsiz) :
    Checked (Option (ℤ × Buffer bufsiz)) :=
  match n with
  | 0 => pure none
  | n + 1 =>
    match fd.read turn (bufsiz - pos) with
    | .failed => pure (some (SITE_FAILED, buf))
    | .eof => pure (some (SITE_OK, buf))
    | .data bytes => do
      let buf ← buf.writeAll pos bytes
      let pos := pos + bytes.length
      let buf ← buf.write pos 0
      let s ← buf.string
      if 62 ∉ s ∧ pos < bufsiz then readLoop fd n (turn + 1) pos buf
      else pure (some (SITE_OK, buf))

/-- `read_sftp`. Every turn but the last reads at least one byte. -/
def readSftp (fd : Descriptor) (buf : Buffer bufsiz) : Checked (Option (ℤ × Buffer bufsiz)) :=
  readLoop fd bufsiz 0 0 buf

/-- What arrives from the call `turn` on fills the buffer behind `before`, and no prompt is
seen until then. -/
inductive Fills (fd : Descriptor) : (turn : ℕ) → (before : Text) → Prop
  | now {turn : ℕ} {before bytes : Text} : fd.read turn (bufsiz - before.length) = .data bytes →
      before.length + bytes.length = bufsiz → Fills fd turn before
  | later {turn : ℕ} {before bytes : Text} :
      fd.read turn (bufsiz - before.length) = .data bytes → hasPrompt (before ++ bytes) = false →
      Fills fd (turn + 1) (before ++ bytes) → Fills fd turn before

section Turns
variable {fd : Descriptor} {n turn : ℕ} {before bytes : Text} {buf : Buffer bufsiz}

lemma mem_iff_hasPrompt (s : Text) : 62 ∈ s.takeWhile (· ≠ 0) ↔ hasPrompt s = true := by
  simp [hasPrompt]

lemma fills_iff (hread : fd.read turn (bufsiz - before.length) = .data bytes) :
    Fills fd turn before ↔ before.length + bytes.length = bufsiz ∨
      hasPrompt (before ++ bytes) = false ∧ Fills fd (turn + 1) (before ++ bytes) := by
  constructor
  · intro h
    cases h with
    | now hread' hfull =>
      obtain rfl := ReadResult.data.inj (hread.symm.trans hread')
      exact Or.inl hfull
    | later hread' hquiet hrest =>
      obtain rfl := ReadResult.data.inj (hread.symm.trans hread')
      exact Or.inr ⟨hquiet, hrest⟩
  · rintro (hfull | ⟨hquiet, hrest⟩)
    · exact .now hread hfull
    · exact .later hread hquiet hrest

/-- A turn that leaves room for the NUL. -/
lemma readLoop_data (hbuf : buf.Holds before)
    (hread : fd.read turn (bufsiz - before.length) = .data bytes)
    (hroom : before.length + bytes.length < bufsiz) :
    ∃ buf', buf'.Holds (before ++ bytes) ∧
      readLoop fd (n + 1) turn before.length buf =
        if hasPrompt (before ++ bytes) = false then
          readLoop fd n (turn + 1) (before ++ bytes).length buf'
        else .ok (some (SITE_OK, buf')) := by
  obtain ⟨buf₁, hall, h₁⟩ := hbuf.writeAll hroom.le
  rw [← List.length_append] at hroom
  obtain ⟨buf₂, hnul, h₂⟩ := h₁.write hroom 0
  refine ⟨buf₂, (List.prefix_append _ _).trans h₂, ?_⟩
  have hlen : before.length + bytes.length = (before ++ bytes).length := List.length_append.symm
  have hcond : (62 ∉ (before ++ bytes).takeWhile (· ≠ 0) ∧ (before ++ bytes).length < bufsiz) ↔
      hasPrompt (before ++ bytes) = false := by
    rw [mem_iff_hasPrompt, Bool.not_eq_true]
    exact and_iff_left hroom
  rw [readLoop, hread]
  dsimp only
  rw [hall]
  simp only [bind, Except.bind]
  rw [hlen, hnul]
  simp only [h₂.string, hcond]
  rfl

/-- The NUL goes behind the buffer. -/
lemma readLoop_full (hbuf : buf.Holds before)
    (hread : fd.read turn (bufsiz - before.length) = .data bytes)
    (hfull : before.length + bytes.length = bufsiz) :
    readLoop fd (n + 1) turn before.length buf = .error (.outside bufsiz) := by
  obtain ⟨buf₁, hall, _⟩ := hbuf.writeAll hfull.le
  rw [readLoop, hread]
  dsimp only
  rw [hall]
  simp only [bind, Except.bind]
  rw [hfull, Buffer.write_outside le_rfl]

lemma readLoop_iff (hbuf : buf.Holds before) (hroom : before.length < bufsiz)
    (hn : bufsiz ≤ n + before.length) :
    (∃ ret buf', readLoop fd n turn before.length buf = .ok (some (ret, buf'))) ↔
      ¬ Fills fd turn before := by
  induction n generalizing turn before buf with
  | zero => omega
  | succ n ih =>
    have hnone : (∀ bytes, fd.read turn (bufsiz - before.length) ≠ .data bytes) →
        ¬ Fills fd turn before := by
      rintro hno (⟨hread, _⟩ | ⟨hread, _⟩) <;> exact hno _ hread
    cases hread : fd.read turn (bufsiz - before.length) with
    | failed =>
      refine iff_of_true ⟨SITE_FAILED, buf, ?_⟩ (hnone (by simp [hread]))
      rw [readLoop, hread]
      rfl
    | eof =>
      refine iff_of_true ⟨SITE_OK, buf, ?_⟩ (hnone (by simp [hread]))
      rw [readLoop, hread]
      rfl
    | data bytes =>
      obtain ⟨hne, hle⟩ := fd.lawful _ _ _ hread
      have hpos := List.length_pos_of_ne_nil hne
      rw [fills_iff hread]
      by_cases hfull : before.length + bytes.length = bufsiz
      · rw [readLoop_full hbuf hread hfull]
        simp [hfull]
      · obtain ⟨buf', hbuf', hturn⟩ := readLoop_data (n := n) hbuf hread (by omega)
        rw [hturn]
        have hlen : (before ++ bytes).length = before.length + bytes.length := List.length_append
        by_cases hquiet : hasPrompt (before ++ bytes) = false
        · rw [if_pos hquiet, ih hbuf' (by omega) (by omega)]
          simp [hfull, hquiet]
        · rw [if_neg hquiet]
          simp [hfull, hquiet]

end Turns

/-- The loop ends without an access outside of the buffer. -/
theorem readSftp_inside_iff (fd : Descriptor) (buf : Buffer bufsiz) :
    (∃ ret buf', readSftp fd buf = .ok (some (ret, buf'))) ↔ ¬ Fills fd 0 [] :=
  readLoop_iff buf.holds_nil (by decide) le_rfl

/-- A client that says as much as it is asked for. -/
def talkative : Descriptor where
  read _ size := if size = 0 then .eof else .data (List.replicate size 97)
  lawful turn size bytes h := by
    split_ifs at h with hsize
    obtain rfl := ReadResult.data.inj h
    exact ⟨by simp [hsize], by simp⟩

lemma talkative_read {size : ℕ} (h : 0 < size) (turn : ℕ) :
    talkative.read turn size = .data (List.replicate size 97) := by
  simp [talkative, h.ne']

theorem exact_fill_outside :
    readSftp talkative ⟨List.replicate bufsiz 0, List.length_replicate⟩ =
      .error (.outside bufsiz) := by
  have hturns : ∀ n, 0 < n →
      readLoop talkative n 0 ([] : Text).length ⟨List.replicate bufsiz 0, List.length_replicate⟩ =
        .error (.outside bufsiz) := by
    intro n hn
    obtain ⟨n, rfl⟩ := Nat.exists_eq_succ_of_ne_zero hn.ne'
    have hread : talkative.read 0 (bufsiz - ([] : Text).length) =
        .data (List.replicate bufsiz 97) := by
      rw [List.length_nil, Nat.sub_zero]
      exact talkative_read (by decide) 0
    apply readLoop_full (Buffer.holds_nil _) hread
    rw [List.length_nil, Nat.zero_add, List.length_replicate]
  exact hturns bufsiz (by decide)

end Sitecopy.PromptBuffer
