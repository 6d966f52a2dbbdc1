import Cql.Proofs.Rule.Comment
import Cql.Proofs.Rule.Quoted
import Cql.Proofs.Rule.Word
import Cql.Scan

/-!
Which rules can fit a text is known from its first character.
-/
namespace Cql
namespace Scan

/-- The rules whose matches begin with a character of this lead. -/
def Lead.rules : Lead → List Rule
  | .blank => [.space]
  | .digit => [.uuid, .hexadecimal, .float, .decimal]
  | .letter => [.uuid, .hexadecimal, .word]
  | .dash => [.lineComment, .float, .decimal, .symbol .minusMinus, .symbol .minus]
  | .hash => [.lineComment]
  | .slash => [.lineComment, .blockComment, .symbol .divide]
  | .quote => [.stringLiteral]
  | .doubleQuote => [.quotedName]
  | .dollar => [.codeBlock]
  | .point => [.float, .symbol .dot]
  | .less => [.symbol .less, .symbol .lessEqual]
  | .greater => [.symbol .greater, .symbol .greaterEqual]
  | .other =>
    [.symbol .leftParen, .symbol .rightParen, .symbol .leftBrace, .symbol .rightBrace,
      .symbol .leftBracket, .symbol .rightBracket, .symbol .comma, .symbol .semicolon,
      .symbol .colon, .symbol .star, .symbol .modulo, .symbol .plus, .symbol .equal]

variable {c : Char}

theorem isBlank_eq_false {p : Char → Bool} (h : p c = true)
    (hp : [' ', '\t', '\r', '\n'].any p = false) : isBlank c = false := by
  rw [← Bool.not_eq_true]
  intro hb
  have hc : c ∈ [' ', '\t', '\r', '\n'] := by simpa [isBlank, or_assoc] using hb
  exact Bool.false_ne_true (hp.symm.trans (List.any_eq_true.2 ⟨c, hc, h⟩))

theorem isDigit_of_isAlpha (h : c.isAlpha = true) : c.isDigit = false := by
  rw [← Bool.not_eq_true]
  intro hd
  rw [isAlpha_iff] at h
  rw [isDigit_iff] at hd
  omega

theorem isDigit_or_isAlpha (h : isHexDigit c = true) : c.isDigit = true ∨ c.isAlpha = true := by
  simp only [isHexDigit, Bool.or_eq_true, Bool.and_eq_true, decide_eq_true_eq, Char.le_def,
    UInt32.le_iff_toNat_le] at h
  obtain (h | ⟨hl, hu⟩) | ⟨hl, hu⟩ := h
  · exact .inl h
  · have hl : 97 ≤ c.toNat := hl
    have hu : c.toNat ≤ 102 := hu
    exact .inr (isAlpha_iff.2 (by omega))
  · have hl : 65 ≤ c.toNat := hl
    have hu : c.toNat ≤ 70 := hu
    exact .inr (isAlpha_iff.2 (by omega))

theorem Lead.of_blank (h : isBlank c = true) : Lead.of c = .blank := by
  simp [Lead.of, h]

theorem Lead.of_digit (h : c.isDigit = true) : Lead.of c = .digit := by
  simp [Lead.of, isBlank_eq_false h rfl, h]

theorem Lead.of_letter (h : c.isAlpha = true) : Lead.of c = .letter := by
  simp [Lead.of, isBlank_eq_false h rfl, isDigit_of_isAlpha h, h]

end Scan

namespace Rule
open Pattern Scan
open scoped Computability

theorem headed_digit {rule : Rule} (h : rule ∈ Lead.digit.rules) :
    Headed (fun c => rule ∈ (Lead.of c).rules) digit :=
  headed_one fun c hc => by rwa [Lead.of_digit hc]

theorem headed_letter {rule : Rule} (h : rule ∈ Lead.letter.rules) :
    Headed (fun c => rule ∈ (Lead.of c).rules) (one Char.isAlpha) :=
  headed_one fun c hc => by rwa [Lead.of_letter hc]

theorem headed_hex : Headed (fun c => uuid ∈ (Lead.of c).rules) hex := by
  refine headed_one fun c hc => ?_
  obtain h | h := isDigit_or_isAlpha hc
  · rw [Lead.of_digit h]
    decide
  · rw [Lead.of_letter h]
    decide

theorem headed_ex : Headed (fun c => hexadecimal ∈ (Lead.of c).rules) ex := by
  refine headed_one fun c hc => ?_
  obtain rfl | rfl := of_decide_eq_true hc <;> decide

theorem headed_line : Headed (fun c => lineComment ∈ (Lead.of c).rules) line :=
  (((headed_only (by decide)).add (headed_only (by decide))).add (headed_only (by decide))).mul

theorem headed_pattern (rule : Rule) :
    Headed (fun c => rule ∈ (Lead.of c).rules) rule.pattern := by
  cases rule with
  | space => exact (headed_one fun c hc => by rw [Lead.of_blank hc]; decide).mul
  | lineComment =>
    exact (headed_line.mul.add (headed_only (by decide))).add (headed_only (by decide))
  | blockComment => exact (headed_only (by decide)).mul
  | stringLiteral => exact (headed_only (by decide)).mul
  | quotedName => exact (headed_only (by decide)).mul
  | codeBlock => exact (headed_only (by decide)).mul
  | uuid => exact headed_hex.pow.mul.mul.mul.mul.mul.mul.mul.mul
  | hexadecimal => exact (headed_only (by decide)).mul.mul.add headed_ex.mul.mul.mul
  | float =>
    have hd : Headed (fun c => float ∈ (Lead.of c).rules) digit := headed_digit (by decide)
    have hw : Headed _ wholeFloat := hd.mul.mul.mul.mul.add hd.mul.mul
    exact ((headed_only (by decide)).opt_mul hw).add (headed_only (by decide)).mul.mul
  | decimal => exact (headed_only (by decide)).opt_mul (headed_digit (by decide)).mul
  | word => exact (headed_letter (by decide)).mul
  | symbol s => cases s <;> first | exact headed_only (by decide) | exact headed_zero

theorem headed_openPattern (rule : Rule) :
    Headed (fun c => rule ∈ (Lead.of c).rules) rule.openPattern := by
  cases rule with
  | lineComment => exact headed_line.add (headed_only (by decide))
  | blockComment => exact (headed_only (by decide)).mul
  | _ => exact headed_zero

/-- A match is not empty, and its first character tells which rules it can be a match of. -/
theorem Fits.mem_rules {c : Char} {cs w : List Char} {rule : Rule}
    (h : Fits (c :: cs) rule w) : (∃ t, w = c :: t) ∧ rule ∈ (Lead.of c).rules := by
  obtain ⟨after, he, ht⟩ := h
  obtain ⟨d, t, rfl, hd⟩ : ∃ d t, w = d :: t ∧ rule ∈ (Lead.of d).rules := by
    obtain ⟨h, -⟩ | ⟨h, -⟩ := ht
    · exact headed_pattern rule w h
    · exact headed_openPattern rule w h
  cases he
  exact ⟨⟨t, rfl⟩, hd⟩

end Rule
end Cql
