import Cql.Scan.Lexeme

/-!
Numbers in decimal and hexadecimal.
-/
namespace Cql.Scan

def digits (cs : List Char) : Nat := runLength Char.isDigit cs

def fractionLength : List Char → Nat
  | '.' :: cs => digits cs + 1
  | _ => 0

def signLength : List Char → Nat
  | '+' :: _ | '-' :: _ => 1
  | _ => 0

/-- An `e`, a sign or none, and digits; without digits there is no exponent. -/
def exponentLength : List Char → Nat
  | [] => 0
  | c :: cs =>
    let sign := signLength cs
    let power := digits (cs.drop sign)
    if (c = 'e' ∨ c = 'E') ∧ power ≠ 0 then power + sign + 1 else 0

/-- An unsigned number, where one begins: a float if it has a fraction or an exponent. -/
def number (cs : List Char) : Lexeme :=
  let whole := digits cs
  let fraction := fractionLength (cs.drop whole)
  let exponent := exponentLength (cs.drop (whole + fraction))
  ⟨if fraction + exponent = 0 then .decimalLiteral else .floatLiteral, whole + fraction + exponent⟩

def hexNumber? : List Char → Option Nat
  | '0' :: x :: cs =>
    let n := runLength isHexDigit cs
    if (x = 'x' ∨ x = 'X') ∧ n ≠ 0 then some (n + 2) else none
  | _ => none

/-- An `x`, and then pairs of digits between single quotes, at least one pair. -/
def quotedHex? : List Char → Option Nat
  | x :: '\'' :: cs =>
    let n := runLength isHexDigit cs
    if (x = 'x' ∨ x = 'X') ∧ cs[n]? = some '\'' ∧ n ≠ 0 ∧ n % 2 = 0 then some (n + 3) else none
  | _ => none

theorem digits_le (cs : List Char) : digits cs ≤ cs.length := runLength_le _ cs

theorem fractionLength_le (cs : List Char) : fractionLength cs ≤ cs.length := by
  unfold fractionLength
  split
  · have := digits_le ‹_›; simp; omega
  · exact Nat.zero_le _

theorem exponentLength_le (cs : List Char) : exponentLength cs ≤ cs.length := by
  unfold exponentLength
  split
  · exact Nat.le_refl 0
  · rename_i c cs
    dsimp only
    split
    · rename_i h
      have := digits_le (cs.drop (signLength cs))
      simp at this ⊢
      omega
    · exact Nat.zero_le _

theorem number_length_le (cs : List Char) : (number cs).length ≤ cs.length := by
  have hw := digits_le cs
  have hf := fractionLength_le (cs.drop (digits cs))
  have he := exponentLength_le (cs.drop (digits cs + fractionLength (cs.drop (digits cs))))
  simp [number] at hf he ⊢
  omega

theorem hexNumber?_eq_some {cs : List Char} {n : Nat} : hexNumber? cs = some n ↔
    ∃ x rest, cs = '0' :: x :: rest ∧ (x = 'x' ∨ x = 'X') ∧
      runLength isHexDigit rest ≠ 0 ∧ n = runLength isHexDigit rest + 2 := by
  constructor
  · intro h
    unfold hexNumber? at h
    split at h
    · rename_i x rest
      obtain ⟨⟨hx, hn⟩, hk⟩ := Option.ite_none_right_eq_some.1 h
      exact ⟨x, rest, rfl, hx, hn, (Option.some.inj hk).symm⟩
    · cases h
  · intro h
    obtain ⟨x, rest, rfl, hx, hn, rfl⟩ := h
    exact if_pos ⟨hx, hn⟩

theorem quotedHex?_eq_some {cs : List Char} {n : Nat} : quotedHex? cs = some n ↔
    ∃ x rest, cs = x :: '\'' :: rest ∧ (x = 'x' ∨ x = 'X') ∧
      rest[runLength isHexDigit rest]? = some '\'' ∧ runLength isHexDigit rest ≠ 0 ∧
      runLength isHexDigit rest % 2 = 0 ∧ n = runLength isHexDigit rest + 3 := by
  constructor
  · intro h
    unfold quotedHex? at h
    split at h
    · rename_i x rest
      obtain ⟨⟨hx, hq, hn, he⟩, hk⟩ := Option.ite_none_right_eq_some.1 h
      exact ⟨x, rest, rfl, hx, hq, hn, he, (Option.some.inj hk).symm⟩
    · cases h
  · intro h
    obtain ⟨x, rest, rfl, hx, hq, hn, he, rfl⟩ := h
    exact if_pos ⟨hx, hq, hn, he⟩

theorem hexNumber?_le {cs : List Char} {n : Nat} (h : hexNumber? cs = some n) :
    n ≤ cs.length := by
  obtain ⟨x, rest, rfl, -, -, rfl⟩ := hexNumber?_eq_some.1 h
  exact Nat.add_le_add_right (runLength_le isHexDigit rest) 2

theorem quotedHex?_le {cs : List Char} {n : Nat} (h : quotedHex? cs = some n) :
    n ≤ cs.length := by
  obtain ⟨x, rest, rfl, -, hq, -, -, rfl⟩ := quotedHex?_eq_some.1 h
  have hlt := (List.getElem?_eq_some_iff.1 hq).1
  exact Nat.add_le_add_right hlt 2

end Cql.Scan
