import Cql.Proofs.Rule.Number
import Cql.Scan.Word

/-!
A word is a keyword exactly if its spelling is in the table.
-/
namespace Cql
namespace Scan
open Rule

variable {w : List Char}

theorem keyword_length : ∀ k ∈ Keyword.all, k.word.toList.length ≤ Keyword.maxLength := by
  decide +kernel

theorem isWordChar_of_isAlpha {c : Char} (h : c.isAlpha = true) : isWordChar c = true := by
  simp [isWordChar, Char.isAlphanum, h]

/-- A word is looked up without regard to its length. -/
theorem wordKind_eq (h : ∀ c ∈ w, isWordChar c = true) : wordKind w = kind w .word := by
  have ha : (w.all fun c => c.toNat < 128) = true :=
    List.all_eq_true.2 fun c hc => decide_eq_true (toNat_of_isWordChar (h c hc))
  have hk : Keyword.ofWord? w = Keyword.all.find? fun k => k.word.toList = w.map Char.toUpper := by
    unfold Keyword.ofWord?
    split
    · rfl
    · rename_i hn
      symm
      rw [List.find?_eq_none]
      intro k hk he
      have := congrArg List.length (of_decide_eq_true he)
      have := keyword_length k hk
      rw [List.length_map] at *
      exact hn ⟨by omega, ha⟩
  rw [wordKind, hk]
  rfl

end Scan

namespace Rule
open Pattern Scan

variable {c : Char} {cs w : List Char}

theorem fits_word_iff : Fits cs word w ↔
    w <+: cs ∧ ∃ c t, w = c :: t ∧ c.isAlpha = true ∧ ∀ d ∈ t, isWordChar d = true := by
  rw [fits_iff rfl fun _ => rfl, pattern]
  refine and_congr_right fun _ => ⟨?_, ?_⟩
  · intro h
    obtain ⟨_, ⟨c, hc, rfl⟩, t, ht, rfl⟩ := h
    exact ⟨c, t, rfl, hc, mem_many_one.1 ht⟩
  · intro h
    obtain ⟨c, t, rfl, hc, ht⟩ := h
    exact ⟨[c], ⟨c, hc, rfl⟩, t, mem_many_one.2 ht, rfl⟩

theorem length_le_of_fits_word (h : Fits cs word w) : w.length ≤ runLength isWordChar cs := by
  obtain ⟨⟨after, rfl⟩, c, t, rfl, hc, ht⟩ := fits_word_iff.1 h
  rw [runLength_append (List.forall_mem_cons.2 ⟨isWordChar_of_isAlpha hc, ht⟩)]
  exact Nat.le_add_right _ _

theorem fits_word (hc : c.isAlpha = true) (cs : List Char) :
    Fits (c :: cs) word ((c :: cs).takeWhile isWordChar) := by
  refine fits_word_iff.2 ⟨List.takeWhile_prefix _, c, cs.takeWhile isWordChar, ?_, hc, ?_⟩
  · exact List.takeWhile_cons_of_pos (isWordChar_of_isAlpha hc)
  · exact List.all_eq_true.1 List.all_takeWhile

end Rule
end Cql
