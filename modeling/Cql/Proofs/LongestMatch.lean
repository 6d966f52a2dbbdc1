import Cql.Lexer.Located
import Cql.Proofs.Rule.BestNumber

/-!
A scan finds the best match of the rules and fails exactly where none fits. It compares no lengths:
the first character selects the case, and in each case the match is the best.
-/
namespace Cql
namespace Rule
open Pattern Scan

variable {c : Char} {cs : List Char} {x : Lexeme}

/-- A scan that succeeds finds the best match. -/
theorem scan_wins (h : scan (c :: cs) = .ok x) : Wins (c :: cs) x := by
  have hc {d : Char} : (Lead.of c).char? = some d → c = d := Lead.eq_of_char?
  cases hl : Lead.of c <;> simp only [scan, hl] at h <;> rw [hl] at hc
  case blank => cases h; exact wins_blank (Lead.isBlank_of hl) cs
  case digit => cases h; exact wins_digit (Lead.isDigit_of hl) cs
  case letter => cases h; exact wins_letter (Lead.isAlpha_of hl) cs
  case dash => cases h; rw [hc rfl]; exact wins_dash cs
  case hash => cases h; rw [hc rfl]; exact wins_hash cs
  case slash => cases h; rw [hc rfl]; exact wins_slash cs
  case quote =>
    obtain rfl := hc rfl
    exact (measures_string cs).wins hl rfl (fun _ => rfl) h
  case doubleQuote =>
    obtain rfl := hc rfl
    exact (measures_name cs).wins hl rfl (fun _ => rfl) h
  case dollar =>
    obtain rfl := hc rfl
    unfold dollar at h
    split at h
    · exact (measures_code _).wins hl rfl (fun _ => rfl) h
    · cases h
  case point => cases h; rw [hc rfl]; exact wins_point cs
  case less =>
    cases h
    obtain rfl := hc rfl
    exact wins_comparison hl rfl rfl rfl ⟨rfl, rfl⟩ cs
  case greater =>
    cases h
    obtain rfl := hc rfl
    exact wins_comparison hl rfl rfl rfl ⟨rfl, rfl⟩ cs
  case other =>
    unfold Scan.symbol at h
    split at h
    · cases h; exact wins_symbol hl ‹_› cs
    · cases h

/-- A scan that fails does so because no rule fits, and says why. -/
theorem scan_missing {fault : Fault} (h : scan (c :: cs) = .error fault) :
    (∀ rule w, ¬ Fits (c :: cs) rule w) ∧ fault = missing c cs := by
  have hc {d : Char} : (Lead.of c).char? = some d → c = d := Lead.eq_of_char?
  cases hl : Lead.of c <;> simp only [scan, hl] at h <;> rw [hl] at hc
  case quote =>
    obtain rfl := hc rfl
    exact (measures_string cs).not_fits hl rfl h
  case doubleQuote =>
    obtain rfl := hc rfl
    exact (measures_name cs).not_fits hl rfl h
  case dollar =>
    obtain rfl := hc rfl
    unfold dollar at h
    split at h
    · exact (measures_code _).not_fits hl rfl h
    · rename_i hn
      cases h
      refine ⟨not_fits_only hl rfl fun w hw => ?_, ?_⟩
      · obtain ⟨⟨after, he⟩, hm⟩ := (fits_iff rfl fun _ => rfl).1 hw
        obtain ⟨v, -, rfl⟩ := mem_only_mul.1 hm
        exact hn _ (List.cons.inj he).2.symm
      · unfold missing
        split
        case h_1 he => cases he
        case h_2 he => cases he
        case h_3 cs' _ => exact absurd rfl (hn cs')
        case h_4 => rfl
  case other =>
    unfold Scan.symbol at h
    split at h <;> cases h
    rename_i hs
    refine ⟨fun rule w => not_fits_other hl hs, ?_⟩
    unfold missing
    split
    all_goals first | rfl | exact absurd hl (by decide)
  all_goals cases h

end Rule

section
open Rule
variable {before cs : List Char} {c : Char} {x : Lexeme} {fault : Fault}

theorem scan_eq_ok : scan (c :: cs) = .ok x ↔
    ∃ rule w, Best (c :: cs) rule w ∧ x = ⟨rule.kind w, w.length⟩ := by
  refine ⟨scan_wins, ?_⟩
  intro h
  obtain ⟨rule, w, hb, rfl⟩ := h
  cases h : scan (c :: cs) with
  | error fault => exact absurd hb.1 ((scan_missing h).1 rule w)
  | ok x =>
    obtain ⟨rule', w', hb', rfl⟩ := scan_wins h
    obtain ⟨rfl, rfl⟩ := hb.unique hb'
    rfl

theorem scan_eq_error : scan (c :: cs) = .error fault ↔
    (∀ rule w, ¬ Fits (c :: cs) rule w) ∧ fault = missing c cs := by
  refine ⟨scan_missing, ?_⟩
  intro h
  obtain ⟨hn, rfl⟩ := h
  cases h : scan (c :: cs) with
  | error fault => rw [(scan_missing h).2]
  | ok x =>
    obtain ⟨rule, w, hb, -⟩ := scan_wins h
    exact absurd hb.1 (hn rule w)

theorem tokenAt_of_ok (h : scan (c :: cs) = .ok x) :
    tokenAt (before ++ c :: cs) (utf8Size before) =
      .ok ⟨.of x.kind ((c :: cs).take x.length) (.after before) 0,
        utf8Size (before ++ (c :: cs).take x.length)⟩ := by
  simp [tokenAt, Lexer.at?, Lexer.next_eq, h, Lexer.atEnd, Lexer.token, Lexer.pass]

theorem tokenAt_of_error (h : scan (c :: cs) = .error fault) :
    tokenAt (before ++ c :: cs) (utf8Size before) =
      .error (.lexical ⟨fault, .after before⟩) := by
  simp [tokenAt, Lexer.at?, Lexer.next_eq, h]

/-- Before the end of a text, the token at an offset is made of the best match of the rules there,
and there is an error exactly if no rule fits. -/
theorem tokenAt_takes_longest (before : List Char) (c : Char) (cs : List Char) :
    (∀ r, tokenAt (before ++ c :: cs) (utf8Size before) = .ok r ↔
      ∃ rule w, Best (c :: cs) rule w ∧
        r = ⟨.of (rule.kind w) w (.after before) 0, utf8Size (before ++ w)⟩) ∧
    ∀ e, tokenAt (before ++ c :: cs) (utf8Size before) = .error e ↔
      (∀ rule w, ¬ Fits (c :: cs) rule w) ∧ e = .lexical ⟨missing c cs, .after before⟩ := by
  have htake {rule : Rule} {w : List Char} (hb : Best (c :: cs) rule w) :
      (c :: cs).take w.length = w := by
    obtain ⟨⟨after, he, -⟩, -⟩ := hb
    rw [he, List.take_left]
  cases h : scan (c :: cs) with
  | ok x =>
    obtain ⟨rule, w, hb, rfl⟩ := scan_eq_ok.1 h
    rw [tokenAt_of_ok h, htake hb]
    constructor
    · intro r
      constructor
      · intro hr
        cases hr
        exact ⟨rule, w, hb, rfl⟩
      · intro hr
        obtain ⟨rule', w', hb', rfl⟩ := hr
        obtain ⟨rfl, rfl⟩ := hb.unique hb'
        rfl
    · intro e
      constructor
      · intro he
        cases he
      · intro he
        exact absurd hb.1 (he.1 rule w)
  | error fault =>
    obtain ⟨hn, rfl⟩ := scan_eq_error.1 h
    rw [tokenAt_of_error h]
    constructor
    · intro r
      constructor
      · intro hr
        cases hr
      · intro hr
        obtain ⟨rule, w, hb, -⟩ := hr
        exact absurd hb.1 (hn rule w)
    · intro e
      constructor
      · intro he
        cases he
        exact ⟨hn, rfl⟩
      · intro he
        rw [he.2]

end
end Cql
