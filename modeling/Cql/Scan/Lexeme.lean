import Cql.TokenKind

/-!
What a scan finds at the front of a text, and the runs of characters it is measured by.
-/
namespace Cql

/-- The kind of the token at the front of a text and the number of its characters. -/
structure Lexeme where
  kind : TokenKind
  length : Nat
deriving DecidableEq

namespace Scan

def isBlank (c : Char) : Bool := c = ' ' || c = '\t' || c = '\r' || c = '\n'

def isHexDigit (c : Char) : Bool := c.isDigit || ('a' ≤ c && c ≤ 'f') || ('A' ≤ c && c ≤ 'F')

def isWordChar (c : Char) : Bool := c.isAlphanum || c = '_'

def runLength (p : Char → Bool) (cs : List Char) : Nat := (cs.takeWhile p).length

theorem runLength_le (p : Char → Bool) (cs : List Char) : runLength p cs ≤ cs.length :=
  (List.takeWhile_prefix p).length_le

theorem runLength_pos {p : Char → Bool} {c : Char} {cs : List Char} (h : p c = true) :
    0 < runLength p (c :: cs) := by
  simp [runLength, h]

theorem isAlpha_iff {c : Char} :
    c.isAlpha = true ↔ 65 ≤ c.toNat ∧ c.toNat ≤ 90 ∨ 97 ≤ c.toNat ∧ c.toNat ≤ 122 := by
  change (decide (65 ≤ c.val ∧ c.val ≤ 90) ||
    (decide (97 ≤ c.val) && decide (c.val ≤ 122))) = true ↔ _
  simp only [Bool.or_eq_true, Bool.and_eq_true, decide_eq_true_eq, UInt32.le_iff_toNat_le]
  rfl

theorem isDigit_iff {c : Char} : c.isDigit = true ↔ 48 ≤ c.toNat ∧ c.toNat ≤ 57 :=
  Char.isDigit_iff_toNat

theorem toNat_of_isWordChar {c : Char} (h : isWordChar c = true) : c.toNat < 128 := by
  have h : (c.isAlpha = true ∨ c.isDigit = true) ∨ c = '_' := by
    simpa [isWordChar, Char.isAlphanum] using h
  obtain (h | h) | rfl := h
  · rw [isAlpha_iff] at h
    omega
  · rw [isDigit_iff] at h
    omega
  · decide

end Scan
end Cql
