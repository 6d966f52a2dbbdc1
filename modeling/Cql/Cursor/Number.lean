import Cql.Cursor
import Cql.Scan.Number

/-!
The reader of numbers.
-/
namespace Cql.Cursor
open Scan

def exponentBytes? (k : Cursor) : Option Nat :=
  if k.peek 0 = some 'e' ∨ k.peek 0 = some 'E' then
    let sign := if k.peek 1 = some '+' ∨ k.peek 1 = some '-' then 1 else 0
    let power := k.countWhile (1 + sign) Char.isDigit
    if 0 < power then some (1 + sign + power) else none
  else none

def readExponent (kind : TokenKind) (k : Cursor) : TokenKind × Cursor :=
  match k.exponentBytes? with
  | some n => (.floatLiteral, k.advanceBy n)
  | none => (kind, k)

/-- Behind so many digits. A point with no digit on either side is no fraction. -/
def readFraction (whole : Nat) (k : Cursor) : TokenKind × Cursor :=
  let fraction := k.countWhile 1 Char.isDigit
  if k.peek 0 = some '.' ∧ (0 < whole ∨ 0 < fraction) then
    readExponent .floatLiteral (k.advanceBy (1 + fraction))
  else if 0 < whole then readExponent .decimalLiteral k
  else (.decimalLiteral, k)

def readDecimalOrFloat (k : Cursor) : TokenKind × Cursor :=
  let whole := k.countWhile 0 Char.isDigit
  readFraction whole (k.advanceBy whole)

variable {c : Char} {cs w : List Char} {p : Position}

theorem isDigit_ascii (c : Char) (h : c.isDigit = true) : c.toNat < 128 :=
  Nat.lt_of_le_of_lt (Char.isDigit_iff_toNat.1 h).2 (by decide)

theorem countWhile_digits (cs : List Char) (p : Position) :
    (ofText cs p).countWhile 0 Char.isDigit = digits cs := countWhile_run isDigit_ascii cs p

theorem digits_ascii (cs : List Char) : ∀ c ∈ cs.take (digits cs), c.toNat < 128 :=
  run_ascii isDigit_ascii

theorem fraction_ascii (cs : List Char) : ∀ c ∈ cs.take (fractionLength cs), c.toNat < 128 := by
  unfold fractionLength
  split
  case h_1 cs => exact List.forall_mem_cons.2 ⟨by decide, digits_ascii cs⟩
  case h_2 => exact fun c hc => by cases hc

theorem sign_ascii (cs : List Char) : ∀ c ∈ cs.take (signLength cs), c.toNat < 128 := by
  unfold signLength
  split
  · simp
  · simp
  · exact fun c hc => by cases hc

theorem exponent_ascii (cs : List Char) : ∀ c ∈ cs.take (exponentLength cs), c.toNat < 128 := by
  unfold exponentLength
  split
  · exact fun c hc => by cases hc
  · rename_i c cs
    dsimp only
    split
    · rename_i h
      obtain ⟨hc, -⟩ := h
      rw [Nat.add_comm (digits _), List.take_succ_cons, List.take_add]
      refine List.forall_mem_cons.2 ⟨?_, ?_⟩
      · obtain rfl | rfl := hc <;> decide
      · exact List.forall_mem_append.2 ⟨sign_ascii cs, digits_ascii _⟩
    · exact fun c hc => by cases hc

theorem point_cases (cs : List Char) (p : Position) :
    (ofText cs p).peek 0 = some '.' ∧
        fractionLength cs = 1 + (ofText cs p).countWhile 1 Char.isDigit ∨
      ¬ (ofText cs p).peek 0 = some '.' ∧ fractionLength cs = 0 := by
  rw [peek_zero (by decide)]
  unfold fractionLength
  split
  case h_1 cs =>
    refine .inl ⟨rfl, ?_⟩
    rw [countWhile_succ (by decide), countWhile_digits, Nat.add_comm]
  case h_2 hn =>
    refine .inr ⟨fun h => ?_, rfl⟩
    obtain ⟨rest, rfl⟩ := List.head?_eq_some_iff.1 h
    exact hn rest rfl

theorem sign_cases (cs : List Char) (p : Position) :
    ((ofText cs p).peek 0 = some '+' ∨ (ofText cs p).peek 0 = some '-') ∧ signLength cs = 1 ∨
      ¬ ((ofText cs p).peek 0 = some '+' ∨ (ofText cs p).peek 0 = some '-') ∧
        signLength cs = 0 := by
  rw [peek_zero (by decide), peek_zero (by decide)]
  unfold signLength
  split
  · exact .inl ⟨.inl rfl, rfl⟩
  · exact .inl ⟨.inr rfl, rfl⟩
  · rename_i hp hm
    refine .inr ⟨fun h => ?_, rfl⟩
    obtain h | h := h
    · obtain ⟨rest, rfl⟩ := List.head?_eq_some_iff.1 h
      exact hp rest rfl
    · obtain ⟨rest, rfl⟩ := List.head?_eq_some_iff.1 h
      exact hm rest rfl

theorem signLength_le (cs : List Char) : signLength cs ≤ cs.length := by
  unfold signLength
  split
  · simp
  · simp
  · exact Nat.zero_le _

theorem exponentBytes?_eq (cs : List Char) (p : Position) :
    (ofText cs p).exponentBytes? =
      if exponentLength cs = 0 then none else some (exponentLength cs) := by
  cases cs with
  | nil => rfl
  | cons c cs =>
    have he : (ofText (c :: cs) p).peek 0 = some 'e' ∨ (ofText (c :: cs) p).peek 0 = some 'E' ↔
        c = 'e' ∨ c = 'E' := by
      rw [peek_zero (by decide), peek_zero (by decide), List.head?_cons, Option.some_inj,
        Option.some_inj]
    rw [exponentBytes?, exponentLength]
    by_cases hc : c = 'e' ∨ c = 'E'
    · have hc' : c.toNat < 128 := by obtain rfl | rfl := hc <;> decide
      have hs : (if (ofText (c :: cs) p).peek 1 = some '+' ∨ (ofText (c :: cs) p).peek 1 = some '-'
          then 1 else 0) = signLength cs := by
        rw [peek_succ hc']
        obtain ⟨h, hl⟩ | ⟨h, hl⟩ := sign_cases cs p
        · rw [if_pos h, hl]
        · rw [if_neg h, hl]
      have hp : (ofText (c :: cs) p).countWhile (1 + signLength cs) Char.isDigit =
          digits (cs.drop (signLength cs)) := by
        rw [Nat.add_comm, countWhile_succ hc',
          countWhile_drop (sign_ascii cs) (signLength_le cs) p p, countWhile_digits]
      rw [if_pos (he.2 hc)]
      simp only [hs, hp]
      by_cases hd : digits (cs.drop (signLength cs)) = 0
      · simp [hd]
      · simp [hc, hd, Nat.pos_of_ne_zero hd]
        omega
    · simp [he, hc]

theorem readExponent_eq (kind : TokenKind) (cs : List Char) (p : Position) :
    readExponent kind (ofText cs p) =
      (if exponentLength cs = 0 then kind else .floatLiteral, behind cs p (exponentLength cs)) := by
  rw [readExponent, exponentBytes?_eq]
  by_cases h : exponentLength cs = 0
  · rw [if_pos h, if_pos h, h]
    rfl
  · rw [if_neg h, if_neg h]
    exact congrArg _ (advanceBy_front (exponent_ascii cs) (exponentLength_le cs) p)

/-- Where a number begins there is a digit before its point or behind it. -/
theorem readFraction_eq {whole : Nat} {cs : List Char}
    (h : 0 < whole ∨ ∃ c rest, cs = '.' :: c :: rest ∧ c.isDigit = true) (p : Position) :
    readFraction whole (ofText cs p) =
      (if fractionLength cs + exponentLength (cs.drop (fractionLength cs)) = 0 then .decimalLiteral
        else .floatLiteral,
      behind cs p (fractionLength cs + exponentLength (cs.drop (fractionLength cs)))) := by
  unfold readFraction
  obtain ⟨hp, hf⟩ | ⟨hp, hf⟩ := point_cases cs p
  · have hd : 0 < whole ∨ 0 < (ofText cs p).countWhile 1 Char.isDigit := by
      obtain h | ⟨c, rest, rfl, hc⟩ := h
      · exact .inl h
      · refine .inr ?_
        rw [countWhile_succ (by decide), countWhile_digits]
        exact runLength_pos hc
    have hk : (ofText cs p).advanceBy (fractionLength cs) = behind cs p (fractionLength cs) :=
      advanceBy_front (fraction_ascii cs) (fractionLength_le cs) p
    rw [if_pos ⟨hp, hd⟩, ← hf, hk, behind, readExponent_eq, behind_behind, ite_self,
      if_neg (by omega)]
  · rw [if_neg fun h => hp h.1]
    have hw : 0 < whole := by
      obtain h | ⟨c, rest, rfl, -⟩ := h
      · exact h
      · exact absurd ((peek_zero (by decide)).2 rfl) hp
    rw [if_pos hw, readExponent_eq, hf, Nat.zero_add]
    rfl

theorem readDecimalOrFloat_eq {cs : List Char}
    (h : 0 < digits cs ∨ ∃ c rest, cs = '.' :: c :: rest ∧ c.isDigit = true) (p : Position) :
    readDecimalOrFloat (ofText cs p) = (number cs).found cs p := by
  have hk : (ofText cs p).advanceBy (digits cs) = behind cs p (digits cs) :=
    advanceBy_front (digits_ascii cs) (digits_le cs) p
  have h : 0 < digits cs ∨
      ∃ c rest, cs.drop (digits cs) = '.' :: c :: rest ∧ c.isDigit = true := by
    obtain h | ⟨c, rest, rfl, hc⟩ := h
    · exact .inl h
    · exact .inr ⟨c, rest, rfl, hc⟩
  rw [readDecimalOrFloat, countWhile_digits, hk, behind, readFraction_eq h, behind_behind,
    ← Nat.add_assoc]
  simp only [number, Lexeme.found, List.drop_drop]

end Cql.Cursor
