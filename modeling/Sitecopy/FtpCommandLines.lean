import Sitecopy.FtpOperations

/-!
# Command lines

What is written to the control connection is one command line unless it holds a CR LF.
-/
namespace Sitecopy.FtpCommandLines
open SiteModel SiteOperations Numerals FtpSession FtpTransfer FtpRules

def crlf : Text := [13, 10]

theorem commandLines_single (line t : Text) :
    commandLines line t = [line ++ t] ↔ ¬ crlf <:+: t := by
  fun_induction commandLines line t with
  | case1 line => simp [crlf]
  | case2 line b =>
    have hlong : ¬ crlf <:+: [b] := by
      intro h
      have hlen : crlf.length ≤ 1 := h.length_le
      exact absurd hlen (by decide)
    simp [hlong]
  | case3 line b c rest h =>
    obtain ⟨rfl, rfl⟩ := h
    have hwithin : crlf <:+: 13 :: 10 :: rest := (List.prefix_append crlf rest).isInfix
    simp [hwithin]
  | case4 line b c rest h ih =>
    have hstarts : ¬ crlf <+: b :: c :: rest := by
      intro hp
      rw [crlf, List.cons_prefix_cons, List.cons_prefix_cons] at hp
      exact h ⟨hp.1.symm, hp.2.1.symm⟩
    rw [List.append_assoc, List.singleton_append] at ih
    rw [List.infix_cons_iff, ih]
    simp [hstarts]

lemma commandLines_of_notMem {t : Text} (h : 13 ∉ t) : commandLines [] t = [t] := by
  refine (commandLines_single [] t).mpr fun hwithin => ?_
  exact h (hwithin.subset (by simp [crlf]))

lemma mem_intercalate {b : UInt8} {sep : Text} {l : List Text} (h : b ∈ sep.intercalate l) :
    b ∈ sep ∨ ∃ t ∈ l, b ∈ t := by
  induction l with
  | nil => simp at h
  | cons t l ih =>
    cases l with
    | nil => exact .inr ⟨t, by simp, by simpa using h⟩
    | cons u l =>
      rw [List.intercalate_cons_cons, List.mem_append, List.mem_append] at h
      rcases h with (ht | hsep) | hl
      · exact .inr ⟨t, by simp, ht⟩
      · exact .inl hsep
      · exact (ih hl).imp_right fun ⟨v, hv, hb⟩ => ⟨v, List.mem_cons_of_mem _ hv, hb⟩

/-- `PORT` is one line. -/
lemma commandLines_port (n : ℕ) (numbers : List ℕ) :
    commandLines [] (printInto n (portCommand numbers)) = [printInto n (portCommand numbers)] := by
  refine commandLines_of_notMem fun hmem => ?_
  have hmem := List.mem_of_mem_take hmem
  rw [portCommand, List.mem_append] at hmem
  obtain hverb | hnumbers := hmem
  · exact absurd hverb (by decide)
  obtain hsep | ⟨t, ht, hb⟩ := mem_intercalate hnumbers
  · exact absurd hsep (by decide)
  obtain ⟨k, -, rfl⟩ := List.mem_map.mp ht
  exact absurd (printNat_digits (by decide) (by decide) k 13 hb) (by decide)

end Sitecopy.FtpCommandLines
