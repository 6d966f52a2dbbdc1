import Cql.Proofs.Rule.Best

/-!
The best match where numbers and words compete with UUIDs, comments and symbols: from a digit, a
letter, a point or a dash.
-/
namespace Cql
namespace Rule
open Pattern Scan

variable {c : Char} {cs w : List Char}

theorem numeric_point (cs : List Char) : numeric ('.' :: cs) = number ('.' :: cs) := by
  have hu : startsUuid ('.' :: cs) = false := rfl
  have hx : hexNumber? ('.' :: cs) = none := rfl
  rw [numeric, hu, hx]
  rfl

theorem wins_point (cs : List Char) : Wins ('.' :: cs) (point cs) := by
  have hlead : Lead.of '.' = .point := by decide
  have hdot (hn : ∀ c ∈ cs.head?, c.isDigit = false) : Wins ('.' :: cs) ⟨.symbol .dot, 1⟩ := by
    have hw : Fits ('.' :: cs) (symbol .dot) ['.'] := fits_symbol.2 ⟨⟨cs, rfl⟩, rfl, rfl⟩
    refine wins_of hlead hw rfl ?_
    simp only [Lead.rules, List.forall_mem_cons]
    exact ⟨yields_of_not fun w' => not_fits_point hn, yields_symbol_self, List.forall_mem_nil _⟩
  unfold point
  split
  · exact hdot fun _ h => by cases h
  · rename_i c cs
    split
    · rename_i hc
      obtain ⟨w, hp, hk, hm⟩ := exists_point hc cs
      rw [numeric_point, hk]
      refine wins_of hlead (fits_float_point.2 ⟨hp, hm⟩) rfl ?_
      simp only [Lead.rules, List.forall_mem_cons]
      refine ⟨yields_self fun w' h' => ?_, yields_symbol ?_, List.forall_mem_nil _⟩
      · obtain ⟨hp', hm'⟩ := fits_float_point.1 h'
        have := (number_of_pointFloat hm' hp').2
        rwa [hk] at this
      · obtain ⟨_, _, rfl, -⟩ := head_pointFloat hm
        exact Nat.le_add_left 2 _
    · rename_i hc
      exact hdot fun _ h => Option.some.inj h ▸ eq_false_of_ne_true hc

theorem wins_uuid (hu : startsUuid (c :: cs) = true) (hc : c.isDigit = true ∨ c.isAlpha = true) :
    Wins (c :: cs) ⟨.uuidLiteral, uuidShape.length⟩ := by
  obtain ⟨u, hu⟩ := startsUuid_iff.1 hu
  have hl := length_of_fits_uuid hu
  have hself : Yields (c :: cs) uuid u uuid :=
    yields_self fun w' h' => by rw [length_of_fits_uuid h', hl]
  have hhex : Yields (c :: cs) uuid u hexadecimal := yields_of_lt fun w' h' => by
    obtain ⟨hp, hm⟩ := (fits_iff rfl fun _ => rfl).1 h'
    exact length_lt_uuid hu hp (Nat.le_succ_of_le (dashesLe_hexadecimal w' hm))
  obtain hc | hc := hc
  · refine wins_of (Lead.of_digit hc) hu (by rw [hl]; rfl) ?_
    simp only [Lead.rules, List.forall_mem_cons]
    refine ⟨hself, hhex, yields_of_lt fun w' h' => ?_, yields_of_lt fun w' h' => ?_,
      List.forall_mem_nil _⟩
    · obtain ⟨hp, hm⟩ := (fits_float_digit hc).1 h'
      exact length_lt_uuid hu hp (dashesLe_wholeFloat w' hm)
    · obtain ⟨hp, hm⟩ := (fits_decimal_digit hc).1 h'
      exact length_lt_uuid hu hp (Nat.le_succ_of_le (dashesLe_digits w' hm))
  · refine wins_of (Lead.of_letter hc) hu (by rw [hl]; rfl) ?_
    simp only [Lead.rules, List.forall_mem_cons]
    refine ⟨hself, hhex, yields_of_lt fun w' h' => ?_, List.forall_mem_nil _⟩
    obtain ⟨hp, hm⟩ := (fits_iff rfl fun _ => rfl).1 h'
    exact length_lt_uuid hu hp (Nat.le_succ_of_le (dashesLe_word w' hm))

theorem wins_digit (hc : c.isDigit = true) (cs : List Char) :
    Wins (c :: cs) (numeric (c :: cs)) := by
  unfold numeric
  split
  case isTrue hu => exact wins_uuid hu (.inl hc)
  case isFalse hu =>
    have hno (w : List Char) : ¬ Fits (c :: cs) uuid w := fun h => hu (startsUuid_iff.2 ⟨w, h⟩)
    have hfloat {w' : List Char} (h' : Fits (c :: cs) float w') :
        (number (c :: cs)).kind = .floatLiteral ∧ w'.length ≤ (number (c :: cs)).length := by
      obtain ⟨hp, hm⟩ := (fits_float_digit hc).1 h'
      exact number_of_wholeFloat hm hp
    have hdecimal {w' : List Char} (h' : Fits (c :: cs) decimal w') :
        w'.length ≤ (number (c :: cs)).length := by
      obtain ⟨hp, hm⟩ := (fits_decimal_digit hc).1 h'
      exact length_le_number hm hp
    split
    case h_1 n hn =>
      obtain ⟨w, hp, rfl, hm⟩ := exists_hexNumber hn
      have hl := number_length_of_hex hn
      refine wins_of (Lead.of_digit hc) ((fits_hexadecimal_digit hc).2 ⟨hp, hm⟩) rfl ?_
      simp only [Lead.rules, List.forall_mem_cons]
      refine ⟨yields_of_not hno, yields_self fun w' h' => ?_, yields_of_lt fun w' h' => ?_,
        yields_of_lt fun w' h' => ?_, List.forall_mem_nil _⟩
      · obtain ⟨hp', hm'⟩ := (fits_hexadecimal_digit hc).1 h'
        obtain ⟨m, hm, hle⟩ := hexNumber?_of_mem hm' hp'
        cases hn.symm.trans hm
        exact hle
      · exact (hfloat h').2.trans_lt hl
      · exact (hdecimal h').trans_lt hl
    case h_2 hn =>
      have hnoHex (w : List Char) : ¬ Fits (c :: cs) hexadecimal w := fun h => by
        obtain ⟨hp, hm⟩ := (fits_hexadecimal_digit hc).1 h
        obtain ⟨m, hm, -⟩ := hexNumber?_of_mem hm hp
        cases hn.symm.trans hm
      obtain ⟨w, hp, hl, ⟨hk, hm⟩ | ⟨hk, hm⟩⟩ := exists_number hc cs
      · have hx : number (c :: cs) = ⟨.decimalLiteral, w.length⟩ := by rw [← hk, ← hl]
        refine wins_of (Lead.of_digit hc) ((fits_decimal_digit hc).2 ⟨hp, hm⟩) hx ?_
        simp only [Lead.rules, List.forall_mem_cons]
        refine ⟨yields_of_not hno, yields_of_not hnoHex, yields_of_not fun w' h' => ?_,
          yields_self fun w' h' => hl ▸ hdecimal h', List.forall_mem_nil _⟩
        cases hk.symm.trans (hfloat h').1
      · have hx : number (c :: cs) = ⟨.floatLiteral, w.length⟩ := by rw [← hk, ← hl]
        refine wins_of (Lead.of_digit hc) ((fits_float_digit hc).2 ⟨hp, hm⟩) hx ?_
        simp only [Lead.rules, List.forall_mem_cons]
        exact ⟨yields_of_not hno, yields_of_not hnoHex, yields_self fun w' h' => hl ▸ (hfloat h').2,
          yields_of_le (by decide) fun w' h' => hl ▸ hdecimal h', List.forall_mem_nil _⟩

theorem wins_letter (hc : c.isAlpha = true) (cs : List Char) :
    Wins (c :: cs) (Scan.word (c :: cs)) := by
  unfold Scan.word
  split
  case isTrue hu => exact wins_uuid hu (.inr hc)
  case isFalse hu =>
    have hno (w : List Char) : ¬ Fits (c :: cs) uuid w := fun h => hu (startsUuid_iff.2 ⟨w, h⟩)
    split
    case h_1 n hn =>
      obtain ⟨w, hp, rfl, hm⟩ := exists_quotedHex hn
      refine wins_of (Lead.of_letter hc) ((fits_hexadecimal_letter hc).2 ⟨hp, hm⟩) rfl ?_
      simp only [Lead.rules, List.forall_mem_cons]
      refine ⟨yields_of_not hno, yields_self fun w' h' => ?_, yields_of_lt fun w' h' => ?_,
        List.forall_mem_nil _⟩
      · obtain ⟨hp', hm'⟩ := (fits_hexadecimal_letter hc).1 h'
        exact (Option.some.inj (hn.symm.trans (quotedHex?_of_mem hm' hp'))).ge
      · exact (length_le_of_fits_word h').trans_lt (runLength_of_quotedHex hn isWordChar rfl)
    case h_2 hn =>
      have hw := List.all_eq_true.1 (List.all_takeWhile (p := isWordChar) (l := c :: cs))
      refine wins_of (Lead.of_letter hc) (fits_word hc cs) ?_ ?_
      · rw [wordKind_eq hw]
        rfl
      · simp only [Lead.rules, List.forall_mem_cons]
        refine ⟨yields_of_not hno, yields_of_not fun w' h' => ?_,
          yields_self fun w' h' => length_le_of_fits_word h', List.forall_mem_nil _⟩
        obtain ⟨hp', hm'⟩ := (fits_hexadecimal_letter hc).1 h'
        cases hn.symm.trans (quotedHex?_of_mem hm' hp')

/-- Two dashes begin a comment or are a symbol. -/
theorem wins_dashes (cs : List Char) : Wins ('-' :: '-' :: cs) (dashes cs) := by
  have hlead : Lead.of '-' = .dash := by decide
  have hnoNumber {w : List Char} :
      ¬ Fits ('-' :: '-' :: cs) float w ∧ ¬ Fits ('-' :: '-' :: cs) decimal w :=
    not_fits_dash fun _ h => Option.some.inj h ▸ rfl
  unfold dashes
  split
  · rename_i ho
    obtain ⟨w, hw, hl⟩ := exists_fits_dashes ho
    refine wins_of hlead hw (by rw [hl]; rfl) ?_
    simp only [Lead.rules, List.forall_mem_cons]
    refine ⟨yields_self fun w' h' => ?_, yields_of_not fun _ => hnoNumber.1,
      yields_of_not fun _ => hnoNumber.2, yields_of_le (by decide) fun w' h' => ?_,
      yields_symbol ?_, List.forall_mem_nil _⟩
    · obtain ⟨_, hc, -, hl'⟩ := h'.dashes
      cases hc
      rw [hl, hl']
    · rw [(fits_symbol.1 h').2.2, hl]
      exact Nat.le_add_left 2 _
    · rw [hl]
      exact Nat.le_add_left 2 _
  · rename_i ho
    have hw : Fits ('-' :: '-' :: cs) (symbol .minusMinus) ['-', '-'] :=
      fits_symbol.2 ⟨⟨cs, rfl⟩, rfl, rfl⟩
    refine wins_of hlead hw rfl ?_
    simp only [Lead.rules, List.forall_mem_cons]
    refine ⟨yields_of_not fun w' h' => ?_, yields_of_not fun _ => hnoNumber.1,
      yields_of_not fun _ => hnoNumber.2, yields_symbol_self, yields_symbol (by decide),
      List.forall_mem_nil _⟩
    obtain ⟨_, hc, ho', -⟩ := h'.dashes
    cases hc
    exact ho ho'

theorem wins_negative (hc : c.isDigit = true) (cs : List Char) :
    Wins ('-' :: c :: cs) ⟨(number (c :: cs)).kind, (number (c :: cs)).length + 1⟩ := by
  have hlead : Lead.of '-' = .dash := by decide
  have hd : c ≠ '-' := by
    intro he
    subst he
    exact absurd hc (by decide)
  have hline (w : List Char) : ¬ Fits ('-' :: c :: cs) lineComment w := fun h => by
    obtain ⟨_, he, -⟩ := h.dashes
    exact hd (List.cons.inj he).1
  have hdashes (w : List Char) : ¬ Fits ('-' :: c :: cs) (symbol .minusMinus) w := fun h => by
    obtain ⟨⟨after, he⟩, -, rfl⟩ := fits_symbol.1 h
    cases he
    exact hd rfl
  have hfloat {w' : List Char} (h' : Fits ('-' :: c :: cs) float w') :
      (number (c :: cs)).kind = .floatLiteral ∧ w'.length ≤ (number (c :: cs)).length + 1 := by
    obtain ⟨v, hv, rfl, hp⟩ := fits_float_dash.1 h'
    exact (number_of_wholeFloat hv hp).imp_right Nat.succ_le_succ
  have hdecimal {w' : List Char} (h' : Fits ('-' :: c :: cs) decimal w') :
      w'.length ≤ (number (c :: cs)).length + 1 := by
    obtain ⟨v, hv, rfl, hp⟩ := fits_decimal_dash.1 h'
    exact Nat.succ_le_succ (length_le_number hv hp)
  obtain ⟨v, hp, hl, hv⟩ := exists_number hc cs
  have hl' := congrArg (· + 1) hl
  obtain ⟨hk, hm⟩ | ⟨hk, hm⟩ := hv
  · obtain ⟨_, _, rfl, -⟩ := head_digits hm
    refine wins_of hlead (fits_decimal_dash.2 ⟨_, hm, rfl, hp⟩) (by rw [hk, hl]; rfl) ?_
    simp only [Lead.rules, List.forall_mem_cons]
    refine ⟨yields_of_not hline, yields_of_not fun w' h' => ?_,
      yields_self fun w' h' => (hdecimal h').trans_eq hl', yields_of_not hdashes,
      yields_symbol (Nat.le_add_left 2 _), List.forall_mem_nil _⟩
    cases hk.symm.trans (hfloat h').1
  · obtain ⟨_, _, rfl, -⟩ := head_wholeFloat hm
    refine wins_of hlead (fits_float_dash.2 ⟨_, hm, rfl, hp⟩) (by rw [hk, hl]; rfl) ?_
    simp only [Lead.rules, List.forall_mem_cons]
    exact ⟨yields_of_not hline, yields_self fun w' h' => (hfloat h').2.trans_eq hl',
      yields_of_le (by decide) fun w' h' => (hdecimal h').trans_eq hl', yields_of_not hdashes,
      yields_symbol (Nat.le_add_left 2 _), List.forall_mem_nil _⟩

theorem wins_dash (cs : List Char) : Wins ('-' :: cs) (dash cs) := by
  have hlead : Lead.of '-' = .dash := by decide
  have hminus (hn : ∀ c ∈ cs.head?, c.isDigit = false ∧ c ≠ '-') :
      Wins ('-' :: cs) ⟨.symbol .minus, 1⟩ := by
    have hw : Fits ('-' :: cs) (symbol .minus) ['-'] := fits_symbol.2 ⟨⟨cs, rfl⟩, rfl, rfl⟩
    have hnoNumber {w : List Char} := not_fits_dash (w := w) fun d hd => (hn d hd).1
    refine wins_of hlead hw rfl ?_
    simp only [Lead.rules, List.forall_mem_cons]
    refine ⟨yields_of_not fun w' h' => ?_, yields_of_not fun _ => hnoNumber.1,
      yields_of_not fun _ => hnoNumber.2, yields_of_not fun w' h' => ?_, yields_symbol_self,
      List.forall_mem_nil _⟩
    · obtain ⟨_, rfl, -⟩ := h'.dashes
      exact (hn '-' rfl).2 rfl
    · obtain ⟨⟨after, h⟩, -, rfl⟩ := fits_symbol.1 h'
      cases h
      exact (hn '-' rfl).2 rfl
  unfold dash
  split
  · exact hminus fun _ h => by cases h
  · rename_i c cs
    split
    · rename_i hc
      rw [hc]
      exact wins_dashes cs
    · rename_i hd
      split
      · rename_i hc
        exact wins_negative hc cs
      · rename_i hc
        exact hminus fun _ h => Option.some.inj h ▸ ⟨eq_false_of_ne_true hc, hd⟩

end Rule
end Cql
