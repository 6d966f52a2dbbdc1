import Cql.Proofs.Rule
import Cql.Scan.Number

/-!
Numbers are measured as far as any rule for them can take them.
-/
namespace Cql
namespace Scan
open Pattern Rule
open scoped Computability

variable {p : Char → Bool} {c : Char} {w after cs : List Char}

theorem runLength_append (h : ∀ c ∈ w, p c = true) :
    runLength p (w ++ after) = w.length + runLength p after := by
  rw [runLength, List.takeWhile_append_of_pos h, List.length_append, runLength]

theorem runLength_eq_zero (h : ∀ c ∈ cs.head?, p c = false) : runLength p cs = 0 := by
  cases cs with
  | nil => rfl
  | cons c cs => simp [runLength, h c rfl]

theorem runLength_cons_of_not (h : p c = false) : runLength p (c :: cs) = 0 :=
  runLength_eq_zero fun _ hc => Option.some.inj hc ▸ h

theorem exists_run (p : Char → Bool) (cs : List Char) : ∃ w after, cs = w ++ after ∧
    runLength p cs = w.length ∧ (∀ c ∈ w, p c = true) ∧ ∀ c ∈ after.head?, p c = false := by
  refine ⟨cs.takeWhile p, cs.dropWhile p, List.takeWhile_append_dropWhile.symm, rfl, ?_, ?_⟩
  · exact List.all_eq_true.1 List.all_takeWhile
  · intro c hc
    have h := List.head?_dropWhile_not p cs
    rw [hc] at h
    exact h

theorem signLength_eq {s : List Char} (hs : s ∈ opt sign)
    (h : ∀ c ∈ cs.head?, c.isDigit = true) : signLength (s ++ cs) = s.length := by
  obtain rfl | ⟨c, hc, rfl⟩ := hs
  · unfold signLength
    split
    case h_1 he => exact absurd (h '+' (congrArg List.head? he)) (by decide)
    case h_2 he => exact absurd (h '-' (congrArg List.head? he)) (by decide)
    case h_3 => rfl
  · obtain rfl | rfl := of_decide_eq_true hc <;> rfl

theorem exists_sign (cs : List Char) :
    ∃ s rest, cs = s ++ rest ∧ signLength cs = s.length ∧ s ∈ opt sign := by
  unfold signLength
  split
  · exact ⟨['+'], _, rfl, rfl, .inr ⟨'+', rfl, rfl⟩⟩
  · exact ⟨['-'], _, rfl, rfl, .inr ⟨'-', rfl, rfl⟩⟩
  · exact ⟨[], cs, rfl, rfl, .inl rfl⟩

theorem exponentLength_eq (after : List Char) {s d : List Char} (hc : c = 'e' ∨ c = 'E')
    (hs : s ∈ opt sign) (hd : d ∈ plus digit) :
    exponentLength (c :: (s ++ (d ++ after))) = d.length + digits after + s.length + 1 := by
  obtain ⟨hn, ha⟩ := mem_plus_one.1 hd
  have hs' : signLength (s ++ (d ++ after)) = s.length := by
    refine signLength_eq hs fun c hc => ha c ?_
    rw [List.head?_append_of_ne_nil _ hn] at hc
    exact List.mem_of_mem_head? hc
  have hl : 0 < d.length := List.length_pos_iff.2 hn
  have hr : digits (d ++ after) = d.length + digits after := runLength_append ha
  simp only [exponentLength, hs', List.drop_left, hr]
  rw [if_pos ⟨hc, by omega⟩]

theorem length_le_exponentLength (after : List Char) (h : w ∈ exponent) :
    w.length ≤ exponentLength (w ++ after) := by
  obtain ⟨_, ⟨_, ⟨c, hc, rfl⟩, s, hs, rfl⟩, d, hd, rfl⟩ := h
  have := exponentLength_eq after (of_decide_eq_true hc) hs hd
  simp at this ⊢
  omega

theorem exists_exponent (cs : List Char) :
    ∃ w after, cs = w ++ after ∧ exponentLength cs = w.length ∧ w ∈ opt exponent := by
  cases cs with
  | nil => exact ⟨[], [], rfl, rfl, .inl rfl⟩
  | cons c cs =>
    obtain ⟨s, rest, rfl, hs, hm⟩ := exists_sign cs
    obtain ⟨d, after, rfl, hl, hd, ha⟩ := exists_run Char.isDigit rest
    by_cases h : (c = 'e' ∨ c = 'E') ∧ d ≠ []
    · obtain ⟨hc, hn⟩ := h
      have hd : d ∈ plus digit := mem_plus_one.2 ⟨hn, hd⟩
      refine ⟨c :: (s ++ d), after, by simp, ?_, .inr ?_⟩
      · rw [exponentLength_eq after hc hm hd, digits, runLength_eq_zero ha]
        simp
        omega
      · exact ⟨c :: s, ⟨[c], ⟨c, decide_eq_true hc, rfl⟩, s, hm, rfl⟩, d, hd, rfl⟩
    · refine ⟨[], c :: (s ++ (d ++ after)), rfl, ?_, .inl rfl⟩
      simp only [exponentLength, hs, List.drop_left, digits, hl, ne_eq, List.length_eq_zero_iff]
      exact if_neg h

/-- What comes behind the whole part of a number and makes it a float. -/
def parts : Language Char := {['.']} * digit∗ * opt exponent + exponent

def partsLength (cs : List Char) : Nat :=
  fractionLength cs + exponentLength (cs.drop (fractionLength cs))

theorem head_parts {t : List Char} (h : t ∈ parts) :
    ∃ c cs, t = c :: cs ∧ c.isDigit = false := by
  obtain ⟨_, ⟨_, rfl, _, _, rfl⟩, _, _, rfl⟩ | ⟨_, ⟨_, ⟨c, hc, rfl⟩, _, _, rfl⟩, _, _, rfl⟩ := h
  · exact ⟨_, _, rfl, rfl⟩
  · obtain rfl | rfl := of_decide_eq_true hc
    · exact ⟨_, _, rfl, rfl⟩
    · exact ⟨_, _, rfl, rfl⟩

theorem length_le_partsLength (after : List Char) {t : List Char} (h : t ∈ parts) :
    t.length ≤ partsLength (t ++ after) := by
  obtain ⟨_, ⟨_, rfl, d, hd, rfl⟩, e, he, rfl⟩ | h := h
  · have hd := mem_many_one.1 hd
    obtain rfl | he := he
    · simp [partsLength, fractionLength, digits, runLength_append hd]
      omega
    · have hz : digits (e ++ after) = 0 := by
        obtain ⟨c, cs, rfl, hc⟩ := head_parts (.inr he)
        exact runLength_eq_zero (by simpa using hc)
      have hle := length_le_exponentLength after he
      have hf : fractionLength ('.' :: (d ++ (e ++ after))) = d.length + 1 := by
        have hz : runLength Char.isDigit (e ++ after) = 0 := hz
        rw [fractionLength, digits, runLength_append hd, hz, Nat.add_zero]
      simp [partsLength, hf]
      omega
  · have hz : fractionLength (t ++ after) = 0 := by
      obtain ⟨_, ⟨_, ⟨c, hc, rfl⟩, _, _, rfl⟩, _, _, rfl⟩ := h
      obtain rfl | rfl := of_decide_eq_true hc <;> rfl
    have := length_le_exponentLength after h
    simpa [partsLength, hz] using this

theorem exists_parts (cs : List Char) : ∃ t after, cs = t ++ after ∧ partsLength cs = t.length ∧
    t ∈ opt parts := by
  by_cases h : ∃ rest, cs = '.' :: rest
  · obtain ⟨rest, rfl⟩ := h
    obtain ⟨d, rest, rfl, hl, hd, -⟩ := exists_run Char.isDigit rest
    obtain ⟨e, after, rfl, he, hm⟩ := exists_exponent rest
    refine ⟨'.' :: (d ++ e), after, by simp, ?_, .inr (.inl ?_)⟩
    · simp [partsLength, fractionLength, digits, hl, he]
      omega
    · exact ⟨'.' :: d, ⟨_, rfl, d, mem_many_one.2 hd, rfl⟩, e, hm, rfl⟩
  · have hz : fractionLength cs = 0 := by
      unfold fractionLength
      split
      · exact absurd ⟨_, rfl⟩ h
      · rfl
    obtain ⟨e, after, rfl, he, hm⟩ := exists_exponent cs
    refine ⟨e, after, rfl, by simpa [partsLength, hz] using he, ?_⟩
    exact hm.imp id .inr

theorem number_eq {d rest : List Char} (hd : ∀ c ∈ d, c.isDigit = true)
    (hr : ∀ c ∈ rest.head?, c.isDigit = false) : number (d ++ rest) =
      ⟨if partsLength rest = 0 then .decimalLiteral else .floatLiteral,
        d.length + partsLength rest⟩ := by
  have hw : digits (d ++ rest) = d.length := by
    rw [digits, runLength_append hd, runLength_eq_zero hr, Nat.add_zero]
  simp [number, hw, partsLength, Nat.add_assoc]

theorem number_of_parts (after : List Char) {d t : List Char} (hd : ∀ c ∈ d, c.isDigit = true)
    (ht : t ∈ parts) : (number (d ++ t ++ after)).kind = .floatLiteral ∧
      (d ++ t).length ≤ (number (d ++ t ++ after)).length := by
  have hl := length_le_partsLength after ht
  obtain ⟨c, cs, rfl, hc⟩ := head_parts ht
  rw [List.append_assoc, number_eq hd (by simpa using hc)]
  simp at hl ⊢
  omega

theorem mem_wholeFloat : w ∈ wholeFloat ↔ ∃ d ∈ plus digit, ∃ t ∈ parts, d ++ t = w := by
  rw [← Language.mem_mul, wholeFloat, parts]
  simp only [mul_add, mul_assoc]

theorem number_of_wholeFloat (h : w ∈ wholeFloat) (hp : w <+: cs) :
    (number cs).kind = .floatLiteral ∧ w.length ≤ (number cs).length := by
  obtain ⟨after, rfl⟩ := hp
  obtain ⟨d, hd, t, ht, rfl⟩ := mem_wholeFloat.1 h
  exact number_of_parts after (mem_plus_one.1 hd).2 ht

theorem number_of_pointFloat (h : w ∈ pointFloat) (hp : w <+: cs) :
    (number cs).kind = .floatLiteral ∧ w.length ≤ (number cs).length := by
  obtain ⟨after, rfl⟩ := hp
  obtain ⟨_, ⟨_, rfl, d, hd, rfl⟩, e, he, rfl⟩ := h
  refine number_of_parts (d := []) after (List.forall_mem_nil _) (.inl ?_)
  refine ⟨_, ⟨_, rfl, d, ?_, rfl⟩, e, he, rfl⟩
  exact mem_many_one.2 (mem_plus_one.1 hd).2

theorem length_le_number (h : w ∈ plus digit) (hp : w <+: cs) :
    w.length ≤ (number cs).length := by
  obtain ⟨after, rfl⟩ := hp
  simp only [number, digits, runLength_append (mem_plus_one.1 h).2]
  omega

/-- Behind a digit the measure of a number is a match of the rule it belongs to. -/
theorem exists_number (hc : c.isDigit = true) (cs : List Char) :
    ∃ w, w <+: c :: cs ∧ (number (c :: cs)).length = w.length ∧
      ((number (c :: cs)).kind = .decimalLiteral ∧ w ∈ plus digit ∨
        (number (c :: cs)).kind = .floatLiteral ∧ w ∈ wholeFloat) := by
  obtain ⟨d, rest, he, -, hd, hr⟩ := exists_run Char.isDigit (c :: cs)
  obtain ⟨t, after, rfl, hl, ht⟩ := exists_parts rest
  have hn : d ≠ [] := by
    intro he
    subst he
    rw [← List.nil_append (t ++ after), ← he] at hr
    exact Bool.false_ne_true ((hr c rfl).symm.trans hc)
  have hd' : d ∈ plus digit := mem_plus_one.2 ⟨hn, hd⟩
  rw [he, number_eq hd hr, hl]
  refine ⟨d ++ t, ⟨after, by simp⟩, by simp, ?_⟩
  obtain rfl | ht := ht
  · exact .inl ⟨rfl, by simpa using hd'⟩
  · refine .inr ⟨if_neg ?_, mem_wholeFloat.2 ⟨d, hd', t, ht, rfl⟩⟩
    obtain ⟨_, _, rfl, -⟩ := head_parts ht
    exact Nat.succ_ne_zero _

theorem exists_point (hc : c.isDigit = true) (cs : List Char) :
    ∃ w, w <+: '.' :: c :: cs ∧ number ('.' :: c :: cs) = ⟨.floatLiteral, w.length⟩ ∧
      w ∈ pointFloat := by
  obtain ⟨d, rest, he, hl, hd, -⟩ := exists_run Char.isDigit (c :: cs)
  obtain ⟨e, after, rfl, hle, hm⟩ := exists_exponent rest
  have hn : d ≠ [] := by
    intro he
    subst he
    exact absurd hl (runLength_pos hc).ne'
  have hp : partsLength ('.' :: (d ++ (e ++ after))) = d.length + 1 + e.length := by
    rw [he] at hl
    simp [partsLength, fractionLength, digits, hl, hle]
  have hz : ∀ x ∈ ('.' :: (d ++ (e ++ after))).head?, x.isDigit = false := by
    intro d hd
    cases hd
    rfl
  have hk := number_eq (d := []) (List.forall_mem_nil _) hz
  rw [List.nil_append, hp, if_neg (by omega), ← he] at hk
  refine ⟨'.' :: (d ++ e), ⟨after, by simp [he]⟩, ?_, ?_⟩
  · rw [hk]
    simp
    omega
  · exact ⟨'.' :: d, ⟨_, rfl, d, mem_plus_one.2 ⟨hn, hd⟩, rfl⟩, e, hm, rfl⟩

end Scan

namespace Rule
open Pattern Scan

variable {c : Char} {cs v w : List Char}

theorem head_wholeFloat (h : w ∈ wholeFloat) : ∃ c t, w = c :: t ∧ c.isDigit = true := by
  obtain ⟨_, ⟨_, ⟨c, hc, rfl⟩, d, -, rfl⟩, t, -, rfl⟩ := mem_wholeFloat.1 h
  exact ⟨c, d ++ t, rfl, hc⟩

theorem head_pointFloat (h : w ∈ pointFloat) : ∃ c t, w = '.' :: c :: t ∧ c.isDigit = true := by
  obtain ⟨_, ⟨_, rfl, _, ⟨_, ⟨c, hc, rfl⟩, d, -, rfl⟩, rfl⟩, e, -, rfl⟩ := h
  exact ⟨c, d ++ e, rfl, hc⟩

theorem head_digits (h : w ∈ plus digit) : ∃ c t, w = c :: t ∧ c.isDigit = true := by
  obtain ⟨_, ⟨c, hc, rfl⟩, d, -, rfl⟩ := h
  exact ⟨c, d, rfl, hc⟩

theorem digit_of_prefix (hp : c :: v <+: cs) (hc : c.isDigit = true) :
    ¬ ∀ d ∈ cs.head?, d.isDigit = false := by
  obtain ⟨after, rfl⟩ := hp
  exact fun h => Bool.false_ne_true ((h c rfl).symm.trans hc)

theorem fits_float : Fits cs float w ↔ w <+: cs ∧
    ((w ∈ wholeFloat ∨ ∃ v ∈ wholeFloat, '-' :: v = w) ∨ w ∈ pointFloat) := by
  rw [fits_iff rfl fun _ => rfl, pattern, opt, add_mul, one_mul, Language.mem_add,
    Language.mem_add, mem_only_mul]
  rfl

theorem fits_decimal : Fits cs decimal w ↔ w <+: cs ∧
    (w ∈ plus digit ∨ ∃ v ∈ plus digit, '-' :: v = w) := by
  rw [fits_iff rfl fun _ => rfl, pattern, opt, add_mul, one_mul, Language.mem_add, mem_only_mul]
  rfl

theorem fits_float_digit (hc : c.isDigit = true) :
    Fits (c :: cs) float w ↔ w <+: c :: cs ∧ w ∈ wholeFloat := by
  rw [fits_float]
  refine and_congr_right fun hp => ⟨?_, fun h => .inl (.inl h)⟩
  intro h
  obtain (h | ⟨v, -, rfl⟩) | h := h
  · exact h
  · obtain ⟨rfl, -⟩ := List.cons_prefix_cons.1 hp
    exact absurd hc (by decide)
  · obtain ⟨_, t, rfl, -⟩ := head_pointFloat h
    obtain ⟨rfl, -⟩ := List.cons_prefix_cons.1 hp
    exact absurd hc (by decide)

theorem fits_decimal_digit (hc : c.isDigit = true) :
    Fits (c :: cs) decimal w ↔ w <+: c :: cs ∧ w ∈ plus digit := by
  rw [fits_decimal]
  refine and_congr_right fun hp => ⟨?_, .inl⟩
  intro h
  obtain h | ⟨v, -, rfl⟩ := h
  · exact h
  · obtain ⟨rfl, -⟩ := List.cons_prefix_cons.1 hp
    exact absurd hc (by decide)

theorem fits_float_point : Fits ('.' :: cs) float w ↔ w <+: '.' :: cs ∧ w ∈ pointFloat := by
  rw [fits_float]
  refine and_congr_right fun hp => ⟨?_, .inr⟩
  intro h
  obtain (h | ⟨v, -, rfl⟩) | h := h
  · obtain ⟨c, t, rfl, hc⟩ := head_wholeFloat h
    obtain ⟨rfl, -⟩ := List.cons_prefix_cons.1 hp
    exact absurd hc (by decide)
  · exact absurd (List.cons_prefix_cons.1 hp).1 (by decide)
  · exact h

theorem fits_float_dash :
    Fits ('-' :: cs) float w ↔ ∃ v ∈ wholeFloat, '-' :: v = w ∧ v <+: cs := by
  rw [fits_float]
  constructor
  · intro h
    obtain ⟨hp, (h | ⟨v, hv, rfl⟩) | h⟩ := h
    · obtain ⟨c, t, rfl, hc⟩ := head_wholeFloat h
      obtain ⟨rfl, -⟩ := List.cons_prefix_cons.1 hp
      exact absurd hc (by decide)
    · exact ⟨v, hv, rfl, (List.cons_prefix_cons.1 hp).2⟩
    · obtain ⟨_, t, rfl, -⟩ := head_pointFloat h
      exact absurd (List.cons_prefix_cons.1 hp).1 (by decide)
  · intro h
    obtain ⟨v, hv, rfl, hp⟩ := h
    exact ⟨List.cons_prefix_cons.2 ⟨rfl, hp⟩, .inl (.inr ⟨v, hv, rfl⟩)⟩

theorem fits_decimal_dash :
    Fits ('-' :: cs) decimal w ↔ ∃ v ∈ plus digit, '-' :: v = w ∧ v <+: cs := by
  rw [fits_decimal]
  constructor
  · intro h
    obtain ⟨hp, h | ⟨v, hv, rfl⟩⟩ := h
    · obtain ⟨c, t, rfl, hc⟩ := head_digits h
      obtain ⟨rfl, -⟩ := List.cons_prefix_cons.1 hp
      exact absurd hc (by decide)
    · exact ⟨v, hv, rfl, (List.cons_prefix_cons.1 hp).2⟩
  · intro h
    obtain ⟨v, hv, rfl, hp⟩ := h
    exact ⟨List.cons_prefix_cons.2 ⟨rfl, hp⟩, .inr ⟨v, hv, rfl⟩⟩

theorem not_fits_dash (hn : ∀ d ∈ cs.head?, d.isDigit = false) :
    ¬ Fits ('-' :: cs) float w ∧ ¬ Fits ('-' :: cs) decimal w := by
  constructor
  · intro h
    obtain ⟨v, hv, -, hp⟩ := fits_float_dash.1 h
    obtain ⟨c, t, rfl, hc⟩ := head_wholeFloat hv
    exact digit_of_prefix hp hc hn
  · intro h
    obtain ⟨v, hv, -, hp⟩ := fits_decimal_dash.1 h
    obtain ⟨c, t, rfl, hc⟩ := head_digits hv
    exact digit_of_prefix hp hc hn

theorem not_fits_point (hn : ∀ d ∈ cs.head?, d.isDigit = false) : ¬ Fits ('.' :: cs) float w := by
  intro h
  obtain ⟨hp, hw⟩ := fits_float_point.1 h
  obtain ⟨c, t, rfl, hc⟩ := head_pointFloat hw
  exact digit_of_prefix (List.cons_prefix_cons.1 hp).2 hc hn

end Rule
end Cql
