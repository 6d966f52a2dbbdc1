import Cql.Proofs.Rule.Number

/-!
Hexadecimal literals in either form.
-/
namespace Cql
namespace Scan
open Pattern Rule
open scoped Computability

variable {w after cs : List Char} {n : Nat}

theorem hexNumber?_of_mem (h : w ∈ {['0']} * ex * plus hex) (hp : w <+: cs) :
    ∃ n, hexNumber? cs = some n ∧ w.length ≤ n := by
  obtain ⟨after, rfl⟩ := hp
  obtain ⟨_, ⟨_, rfl, _, ⟨x, hx, rfl⟩, rfl⟩, d, hd, rfl⟩ := h
  obtain ⟨hn, hd⟩ := mem_plus_one.1 hd
  have hl : 0 < d.length := List.length_pos_iff.2 hn
  have hr : runLength isHexDigit (d ++ after) ≠ 0 := by
    rw [runLength_append hd]
    omega
  have hx : x = 'x' ∨ x = 'X' := of_decide_eq_true hx
  refine ⟨_, hexNumber?_eq_some.2 ⟨x, d ++ after, rfl, hx, hr, rfl⟩, ?_⟩
  simp [runLength_append hd]

theorem exists_hexNumber (h : hexNumber? cs = some n) :
    ∃ w, w <+: cs ∧ w.length = n ∧ w ∈ {['0']} * ex * plus hex := by
  obtain ⟨x, rest, rfl, hx, hn, rfl⟩ := hexNumber?_eq_some.1 h
  obtain ⟨d, after, rfl, hl, hd, -⟩ := exists_run isHexDigit rest
  have hn : d ≠ [] := fun h => hn (hl.trans (congrArg List.length h))
  refine ⟨'0' :: x :: d, ⟨after, rfl⟩, by rw [hl]; rfl, ?_⟩
  refine ⟨['0', x], ⟨_, rfl, [x], ⟨x, ?_, rfl⟩, rfl⟩, d, mem_plus_one.2 ⟨hn, hd⟩, rfl⟩
  exact decide_eq_true hx

/-- Where a number in hexadecimal begins, one in decimal ends behind the zero. -/
theorem number_length_of_hex (h : hexNumber? cs = some n) : (number cs).length < n := by
  obtain ⟨x, rest, rfl, hx, hn, rfl⟩ := hexNumber?_eq_some.1 h
  have hp : partsLength (x :: rest) = 0 := by
    obtain rfl | rfl := hx <;> simp [partsLength, fractionLength, exponentLength]
  have hz : ∀ c ∈ (x :: rest).head?, c.isDigit = false := by
    intro d hd
    cases hd
    obtain rfl | rfl := hx <;> rfl
  have hk := number_eq (List.forall_mem_singleton.2 (rfl : ('0').isDigit = true)) hz
  rw [hp] at hk
  change (number (['0'] ++ x :: rest)).length < _
  rw [hk]
  simp

theorem quotedHex?_of_mem (h : w ∈ ex * {['\'']} * plus (hex * hex) * {['\'']}) (hp : w <+: cs) :
    quotedHex? cs = some w.length := by
  obtain ⟨after, rfl⟩ := hp
  obtain ⟨_, ⟨_, ⟨_, ⟨x, hx, rfl⟩, _, rfl, rfl⟩, d, hd, rfl⟩, _, rfl, rfl⟩ := h
  obtain ⟨hn, he, hd⟩ := mem_plus_pair.1 hd
  have hr : runLength isHexDigit (d ++ '\'' :: after) = d.length := by
    rw [runLength_append hd, runLength_cons_of_not rfl, Nat.add_zero]
  have hx : x = 'x' ∨ x = 'X' := of_decide_eq_true hx
  simp [quotedHex?, hr, hx, hn, he]

theorem runLength_of_quotedHex (h : quotedHex? cs = some n) (p : Char → Bool)
    (hp : p '\'' = false) : runLength p cs < n := by
  obtain ⟨x, rest, rfl, -, -, -, -, rfl⟩ := quotedHex?_eq_some.1 h
  have hl : runLength p (x :: '\'' :: rest) ≤ 1 := by
    rw [runLength, List.takeWhile_cons]
    split <;> simp [hp]
  omega

theorem exists_quotedHex (h : quotedHex? cs = some n) : ∃ w, w <+: cs ∧ w.length = n ∧
    w ∈ ex * {['\'']} * plus (hex * hex) * {['\'']} := by
  obtain ⟨x, rest, rfl, hx, hq, hn, he, rfl⟩ := quotedHex?_eq_some.1 h
  obtain ⟨d, after, rfl, hl, hd, -⟩ := exists_run isHexDigit rest
  rw [hl] at hq hn he ⊢
  rw [List.getElem?_append_right (Nat.le_refl _), Nat.sub_self, ← List.head?_eq_getElem?] at hq
  obtain ⟨after, rfl⟩ := List.head?_eq_some_iff.1 hq
  refine ⟨x :: '\'' :: (d ++ ['\'']), ⟨after, by simp⟩, by simp, ?_⟩
  have hd : d ∈ plus (hex * hex) :=
    mem_plus_pair.2 ⟨fun h => hn (congrArg List.length h), he, hd⟩
  exact ⟨x :: '\'' :: d, ⟨[x, '\''], ⟨[x], ⟨x, decide_eq_true hx, rfl⟩, _, rfl, rfl⟩, d, hd, rfl⟩,
    _, rfl, by simp⟩

end Scan

namespace Rule
open Pattern Scan
open scoped Computability

variable {c : Char} {cs w : List Char}

theorem fits_hexadecimal : Fits cs hexadecimal w ↔ w <+: cs ∧
    (w ∈ {['0']} * ex * plus hex ∨ w ∈ ex * {['\'']} * plus (hex * hex) * {['\'']}) :=
  fits_iff rfl fun _ => rfl

theorem head_ex (h : w ∈ ex * {['\'']} * plus (hex * hex) * {['\'']}) :
    ∃ x t, w = x :: t ∧ (x = 'x' ∨ x = 'X') := by
  obtain ⟨_, ⟨_, ⟨_, ⟨x, hx, rfl⟩, _, rfl, rfl⟩, d, -, rfl⟩, q, -, rfl⟩ := h
  exact ⟨x, _, rfl, of_decide_eq_true hx⟩

theorem fits_hexadecimal_digit (hc : c.isDigit = true) :
    Fits (c :: cs) hexadecimal w ↔ w <+: c :: cs ∧ w ∈ {['0']} * ex * plus hex := by
  rw [fits_hexadecimal]
  refine and_congr_right fun hp => ⟨fun h => h.resolve_right fun h => ?_, .inl⟩
  obtain ⟨x, t, rfl, hx⟩ := head_ex h
  obtain ⟨rfl, -⟩ := List.cons_prefix_cons.1 hp
  obtain rfl | rfl := hx <;> exact absurd hc (by decide)

theorem fits_hexadecimal_letter (hc : c.isAlpha = true) :
    Fits (c :: cs) hexadecimal w ↔
      w <+: c :: cs ∧ w ∈ ex * {['\'']} * plus (hex * hex) * {['\'']} := by
  rw [fits_hexadecimal]
  refine and_congr_right fun hp => ⟨fun h => h.resolve_left fun h => ?_, .inr⟩
  obtain ⟨_, ⟨_, rfl, x, -, rfl⟩, d, -, rfl⟩ := h
  obtain ⟨rfl, -⟩ := List.cons_prefix_cons.1 hp
  exact absurd hc (by decide)

end Rule
end Cql
