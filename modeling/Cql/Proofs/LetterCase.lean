import Mathlib.Data.List.Forall2
import Cql.Proofs.Recovery
import Cql.Proofs.Rule.Lead
import Cql.Proofs.View

/-!
Texts that differ only in the case of letters are read alike: to a scan every text is the text in
capital letters.
-/
namespace Cql
open Scan

variable {c d : Char} {cs : List Char}

theorem toUpper_cases (c : Char) : ¬ (97 ≤ c.toNat ∧ c.toNat ≤ 122) ∧ c.toUpper = c ∨
    (97 ≤ c.toNat ∧ c.toNat ≤ 122) ∧ c.toUpper.toNat = c.toNat - 32 := by
  unfold Char.toUpper
  split
  case isTrue h =>
    have hn : 97 ≤ c.toNat ∧ c.toNat ≤ 122 := h
    -- the distance to the capital letter is negative and wraps around
    have hd : ('A'.val - 'a'.val).toNat = 2 ^ 32 - 32 := rfl
    refine .inr ⟨hn, ?_⟩
    change (c.val + ('A'.val - 'a'.val)).toNat = c.toNat - 32
    rw [UInt32.toNat_add, hd, Char.toNat_val]
    omega
  case isFalse h => exact .inl ⟨h, rfl⟩

theorem toUpper_of_not_isAlpha (h : c.isAlpha = false) : c.toUpper = c := by
  rw [← Bool.not_eq_true, isAlpha_iff] at h
  obtain ⟨-, hc⟩ | ⟨hn, -⟩ := toUpper_cases c
  · exact hc
  · exact absurd (.inr hn) h

@[simp] theorem isAlpha_toUpper (c : Char) : c.toUpper.isAlpha = c.isAlpha := by
  rw [Bool.eq_iff_iff, isAlpha_iff, isAlpha_iff]
  obtain ⟨-, hc⟩ | ⟨hn, hc⟩ := toUpper_cases c
  · rw [hc]
  · omega

@[simp] theorem toUpper_toUpper (c : Char) : c.toUpper.toUpper = c.toUpper := by
  obtain ⟨-, h⟩ | ⟨hn, -⟩ := toUpper_cases c.toUpper
  · exact h
  · obtain ⟨hn', hc⟩ | ⟨hn', hc⟩ := toUpper_cases c
    · exact absurd (hc ▸ hn) hn'
    · omega

@[simp] theorem toUpper_eq_iff (hd : d.isAlpha = false) : c.toUpper = d ↔ c = d := by
  cases hc : c.isAlpha with
  | false => rw [toUpper_of_not_isAlpha hc]
  | true =>
    have hu : c.toUpper.isAlpha = true := by rw [isAlpha_toUpper, hc]
    constructor <;> intro h <;> subst h
    · rw [hu] at hd
      cases hd
    · rw [hc] at hd
      cases hd

theorem apply_toUpper {p : Char → Bool} (hp : ∀ d, d.isAlpha = true → p d = false) (c : Char) :
    p c.toUpper = p c := by
  cases hc : c.isAlpha with
  | false => rw [toUpper_of_not_isAlpha hc]
  | true => rw [hp c hc, hp c.toUpper (by rw [isAlpha_toUpper, hc])]

@[simp] theorem isDigit_toUpper (c : Char) : c.toUpper.isDigit = c.isDigit :=
  apply_toUpper (fun _ => isDigit_of_isAlpha) c

@[simp] theorem isBlank_toUpper (c : Char) : isBlank c.toUpper = isBlank c :=
  apply_toUpper (fun _ hd => isBlank_eq_false hd rfl) c

@[simp] theorem isWordChar_toUpper (c : Char) : isWordChar c.toUpper = isWordChar c := by
  simp [isWordChar, Char.isAlphanum]

theorem toUpper_letter {a b : Char} (ha : 97 ≤ a.toNat ∧ a.toNat ≤ 122)
    (hb : b.toNat = a.toNat - 32) : (c.toUpper = a ∨ c.toUpper = b) ↔ (c = a ∨ c = b) := by
  simp only [← Char.toNat_inj]
  obtain ⟨hn, hc⟩ | ⟨hn, hc⟩ := toUpper_cases c
  · rw [hc]
  · rw [hc]
    omega

theorem isHexDigit_iff : isHexDigit c = true ↔
    c.isDigit = true ∨ 97 ≤ c.toNat ∧ c.toNat ≤ 102 ∨ 65 ≤ c.toNat ∧ c.toNat ≤ 70 := by
  simp only [isHexDigit, Bool.or_eq_true, Bool.and_eq_true, decide_eq_true_eq, Char.le_def,
    UInt32.le_iff_toNat_le, or_assoc]
  rfl

@[simp] theorem isHexDigit_toUpper (c : Char) : isHexDigit c.toUpper = isHexDigit c := by
  rw [Bool.eq_iff_iff, isHexDigit_iff, isHexDigit_iff, isDigit_toUpper]
  obtain ⟨hn, hc⟩ | ⟨hn, hc⟩ := toUpper_cases c
  · rw [hc]
  · rw [hc]
    exact or_congr_right (by omega)

@[simp] theorem Lead.of_toUpper (c : Char) : Lead.of c.toUpper = Lead.of c := by
  cases hc : c.isAlpha with
  | false => rw [toUpper_of_not_isAlpha hc]
  | true => rw [Lead.of_letter hc, Lead.of_letter (by rw [isAlpha_toUpper, hc])]

/-! Each measure of a text is that of the text in capital letters. -/

@[simp] theorem runLength_map {p : Char → Bool} (hp : ∀ c : Char, p c.toUpper = p c)
    (cs : List Char) : runLength p (cs.map Char.toUpper) = runLength p cs := by
  simp [runLength, List.takeWhile_map, Function.comp_def, hp]

@[simp] theorem digits_map (cs : List Char) : digits (cs.map Char.toUpper) = digits cs :=
  runLength_map isDigit_toUpper cs

@[simp] theorem fractionLength_map (cs : List Char) :
    fractionLength (cs.map Char.toUpper) = fractionLength cs := by
  fun_cases fractionLength cs with
  | case1 cs => simp [fractionLength]
  | case2 h => cases cs <;> simp_all [fractionLength]

@[simp] theorem signLength_map (cs : List Char) :
    signLength (cs.map Char.toUpper) = signLength cs := by
  fun_cases signLength cs with
  | case1 | case2 => simp [signLength]
  | case3 h h' => cases cs <;> simp_all [signLength]

@[simp] theorem exponentLength_map (cs : List Char) :
    exponentLength (cs.map Char.toUpper) = exponentLength cs := by
  cases cs with
  | nil => rfl
  | cons c cs =>
    have hc : (c.toUpper = 'e' ∨ c.toUpper = 'E') ↔ (c = 'e' ∨ c = 'E') :=
      toUpper_letter (by decide) rfl
    simp [exponentLength, ← List.map_drop, hc]

@[simp] theorem number_map (cs : List Char) : number (cs.map Char.toUpper) = number cs := by
  simp [number, ← List.map_drop]

@[simp] theorem isEx_toUpper (c : Char) :
    (c.toUpper = 'x' ∨ c.toUpper = 'X') ↔ (c = 'x' ∨ c = 'X') :=
  toUpper_letter (by decide) rfl

@[simp] theorem hexNumber?_map (cs : List Char) :
    hexNumber? (cs.map Char.toUpper) = hexNumber? cs := by
  cases cs with
  | nil => rfl
  | cons c cs =>
    cases cs with
    | nil => simp [hexNumber?]
    | cons x cs =>
      by_cases hc : c = '0'
      · subst hc
        simp [hexNumber?]
      · simp [hexNumber?, hc]

@[simp] theorem quotedHex?_map (cs : List Char) :
    quotedHex? (cs.map Char.toUpper) = quotedHex? cs := by
  cases cs with
  | nil => rfl
  | cons x cs =>
    cases cs with
    | nil => simp [quotedHex?]
    | cons c cs =>
      by_cases hc : c = '\''
      · subst hc
        simp [quotedHex?]
      · simp [quotedHex?, hc]

theorem frontMatches_map {ps : List (Char → Bool)} (hp : ∀ p ∈ ps, ∀ c : Char, p c.toUpper = p c)
    (cs : List Char) : frontMatches ps (cs.map Char.toUpper) = frontMatches ps cs := by
  induction ps generalizing cs with
  | nil => rfl
  | cons p ps ih =>
    obtain ⟨hp, hps⟩ := List.forall_mem_cons.1 hp
    cases cs with
    | nil => rfl
    | cons c cs => simp [frontMatches, hp, ih hps]

@[simp] theorem startsUuid_map (cs : List Char) :
    startsUuid (cs.map Char.toUpper) = startsUuid cs := by
  refine frontMatches_map (fun p hp c => ?_) cs
  obtain rfl | rfl := mem_uuidShape hp
  · simp
  · simp [isDash]

@[simp] theorem numeric_map (cs : List Char) : numeric (cs.map Char.toUpper) = numeric cs := by
  simp [numeric]

@[simp] theorem ascii_toUpper (c : Char) : c.toUpper.toNat < 128 ↔ c.toNat < 128 := by
  obtain ⟨hn, hc⟩ | ⟨hn, hc⟩ := toUpper_cases c
  · rw [hc]
  · rw [hc]
    omega

@[simp] theorem ofWord?_map (w : List Char) :
    Keyword.ofWord? (w.map Char.toUpper) = Keyword.ofWord? w := by
  simp [Keyword.ofWord?, Function.comp_def]

@[simp] theorem word_map (cs : List Char) : word (cs.map Char.toUpper) = word cs := by
  simp [word, wordKind, List.takeWhile_map, Function.comp_def]

@[simp] theorem lineLength_map (cs : List Char) :
    lineLength (cs.map Char.toUpper) = lineLength cs := by
  induction cs with
  | nil => rfl
  | cons c cs ih => simp [lineLength, ih]

@[simp] theorem closeLength_map (cs : List Char) :
    closeLength (cs.map Char.toUpper) = closeLength cs := by
  fun_induction closeLength cs with
  | case1 => rfl
  | case2 => simp [closeLength]
  | case3 c cs h ih => cases cs <;> simp_all [closeLength]

@[simp] theorem slash_map (cs : List Char) : slash (cs.map Char.toUpper) = slash cs := by
  fun_cases slash cs with
  | case1 | case2 => simp [slash]
  | case3 h h' => cases cs <;> simp_all [slash]

@[simp] theorem dashesOpenComment_map (cs : List Char) :
    dashesOpenComment (cs.map Char.toUpper) = dashesOpenComment cs := by
  cases cs with
  | nil => rfl
  | cons c cs =>
    rw [Bool.eq_iff_iff]
    simp [dashesOpenComment_cons]

@[simp] theorem dash_map (cs : List Char) : dash (cs.map Char.toUpper) = dash cs := by
  cases cs with
  | nil => rfl
  | cons c cs =>
    have hn := number_map (c :: cs)
    rw [List.map_cons] at hn ⊢
    simp [dash, dashes, hn]

@[simp] theorem comparison_map (alone orEqual : Symbol) (cs : List Char) :
    comparison alone orEqual (cs.map Char.toUpper) = comparison alone orEqual cs := by
  fun_cases comparison alone orEqual cs with
  | case1 => simp [comparison]
  | case2 h => cases cs <;> simp_all [comparison]

@[simp] theorem point_map (cs : List Char) : point (cs.map Char.toUpper) = point cs := by
  cases cs with
  | nil => rfl
  | cons c cs =>
    have h : numeric ('.' :: c.toUpper :: cs.map Char.toUpper) = numeric ('.' :: c :: cs) :=
      numeric_map ('.' :: c :: cs)
    simp [point, h]

@[simp] theorem stringBody?_map (cs : List Char) :
    stringBody? (cs.map Char.toUpper) = stringBody? cs := by
  fun_induction stringBody? cs with
  | case1 => rfl
  | case2 a cs ih => simp [stringBody?, ih]
  | case3 cs ih => simp [stringBody?, ih]
  | case4 cs h => cases cs <;> simp_all [stringBody?]
  | case5 c cs h1 h2 h3 ih => cases cs <;> simp_all [stringBody?]

@[simp] theorem nameBody?_map (cs : List Char) :
    nameBody? (cs.map Char.toUpper) = nameBody? cs := by
  fun_induction nameBody? cs with
  | case1 => rfl
  | case2 cs ih => simp [nameBody?, ih]
  | case3 cs h => cases cs <;> simp_all [nameBody?]
  | case4 c cs h1 h2 ih => cases cs <;> simp_all [nameBody?]

@[simp] theorem codeBody?_map (cs : List Char) :
    codeBody? (cs.map Char.toUpper) = codeBody? cs := by
  fun_induction codeBody? cs with
  | case1 => rfl
  | case2 => simp [codeBody?]
  | case3 c cs h ih => cases cs <;> simp_all [codeBody?]

@[simp] theorem dollar_map (cs : List Char) : dollar (cs.map Char.toUpper) = dollar cs := by
  fun_cases dollar cs with
  | case1 => simp [dollar]
  | case2 h => cases cs <;> simp_all [dollar]

@[simp] theorem scan_map (cs : List Char) : scan (cs.map Char.toUpper) = scan cs := by
  cases cs with
  | nil => rfl
  | cons c cs =>
    have hrun : runLength isBlank (c.toUpper :: cs.map Char.toUpper) =
        runLength isBlank (c :: cs) := runLength_map isBlank_toUpper (c :: cs)
    have hnumeric : numeric (c.toUpper :: cs.map Char.toUpper) = numeric (c :: cs) :=
      numeric_map (c :: cs)
    have hword : word (c.toUpper :: cs.map Char.toUpper) = word (c :: cs) := word_map (c :: cs)
    have hline : lineLength (c.toUpper :: cs.map Char.toUpper) = lineLength (c :: cs) :=
      lineLength_map (c :: cs)
    rw [List.map_cons, scan, scan, Lead.of_toUpper]
    cases hl : Lead.of c with
    | other =>
      have hc : c.isAlpha = false := by
        rw [← Bool.not_eq_true]
        intro hc
        rw [Lead.of_letter hc] at hl
        cases hl
      simp only [toUpper_of_not_isAlpha hc]
    | _ =>
      simp [hrun, hnumeric, hword, lineComment, hline]

@[simp] theorem utf8Size_toUpper (c : Char) : c.toUpper.utf8Size = c.utf8Size := by
  obtain ⟨-, hc⟩ | ⟨hn, hc⟩ := toUpper_cases c
  · rw [hc]
  · have hone {d : Char} (hd : d.toNat < 128) : d.utf8Size = 1 := by
      rw [Char.utf8Size_eq_one_iff, UInt32.le_iff_toNat_le]
      exact Nat.le_of_lt_succ hd
    rw [hone (by omega), hone (by omega)]

@[simp] theorem utf8Size_map (cs : List Char) : utf8Size (cs.map Char.toUpper) = utf8Size cs := by
  induction cs with
  | nil => rfl
  | cons c cs ih => simp [ih]

@[simp] theorem next_toUpper (p : Position) (c : Char) : p.next c.toUpper = p.next c := by
  simp [Position.next_eq]

@[simp] theorem advance_map (p : Position) (cs : List Char) :
    p.advance (cs.map Char.toUpper) = p.advance cs := by
  induction cs generalizing p with
  | nil => rfl
  | cons c cs ih => simpa [Position.advance] using ih (p.next c)

def View.upper : View where
  domain _ := True
  lexer l := { l with rest := l.rest.map Char.toUpper }
  token t := { t with text := t.text.map Char.toUpper }
  error := id
  domain_pass _ := id
  domain_skip := id
  scan_rest {l} _ := scan_map l.rest
  token_eq {l} x _ := by
    simp [Lexer.token, Token.of, ← List.map_take]
  error_eq _ _ := rfl
  pass_eq {l} x _ := by
    simp [Lexer.pass, ← List.map_take, ← List.map_drop]
  skip_eq {l} _ := by
    cases hr : l.rest <;> simp [Lexer.skip, hr]

/-- Tokens of two texts that differ at most in their words, and each word is cut out of its own
text. -/
def Token.Alike (s s' : List Char) (t t' : Token) : Prop :=
  t' = { t with text := t'.text } ∧ slice s t.start t.stop = some t.text ∧
    slice s' t.start t.stop = some t'.text

theorem forall₂_alike {s s' : List Char} {ts ts' : List Token}
    (h : ts.map View.upper.token = ts'.map View.upper.token)
    (hs : ∀ t ∈ ts, slice s t.start t.stop = some t.text)
    (hs' : ∀ t ∈ ts', slice s' t.start t.stop = some t.text) :
    List.Forall₂ (Token.Alike s s') ts ts' := by
  induction ts generalizing ts' with
  | nil =>
    obtain rfl := List.map_eq_nil_iff.1 h.symm
    exact .nil
  | cons t ts ih =>
    obtain ⟨t', us, rfl, ht, hus⟩ := List.map_eq_cons_iff.1 h.symm
    obtain ⟨hst, hts⟩ := List.forall_mem_cons.1 hs
    obtain ⟨hst', hus'⟩ := List.forall_mem_cons.1 hs'
    obtain ⟨k, w, ch, p, i, j, n⟩ := t
    obtain ⟨k', w', ch', p', i', j', n'⟩ := t'
    simp only [View.upper, Token.mk.injEq] at ht
    obtain ⟨rfl, -, rfl, rfl, rfl, rfl, rfl⟩ := ht
    exact .cons ⟨rfl, hst, hst'⟩ (ih hus.symm hts hus')

namespace Lexer

theorem Path.slice_answered {text : List Char} {l l' : Lexer} {es : List Event}
    (h : Path l es l') (hl : l.StandsIn text) :
    ∀ t ∈ taken es ++ [l'.endToken], slice text t.start t.stop = some t.text := by
  intro t ht
  rcases List.mem_append.1 ht with ht | ht
  · exact (h.slice_taken hl ht).2
  · obtain rfl := List.mem_singleton.1 ht
    exact (h.standsIn hl).slice_eq (w := []) rfl

/-- In two texts that differ only in the case of letters the same tokens and the same errors are
found, by stopping at the first error as well as by reading on behind it. -/
theorem letter_case_ignored {s s' : List Char} (h : s.map Char.toUpper = s'.map Char.toUpper)
    (config : Config) :
    let all := (ofText config s).tokenizeAll.result
    let all' := (ofText config s').tokenizeAll.result
    let recovered := (ofText config s).recover
    let recovered' := (ofText config s').recover
    (∀ e, all = .error e ↔ all' = .error e) ∧
      (∀ ts ts', all = .ok ts → all' = .ok ts' → List.Forall₂ (Token.Alike s s') ts ts') ∧
      List.Forall₂ (Token.Alike s s') recovered.tokens recovered'.tokens ∧
      recovered.errors = recovered'.errors := by
  intro all all' recovered recovered'
  have hs : (ofText config s).StandsIn s := (Begins.ofText config).standsIn
  have hs' : (ofText config s').StandsIn s' := (Begins.ofText config).standsIn
  have hup : View.upper.lexer (ofText config s) = View.upper.lexer (ofText config s') := by
    simp only [View.upper, ofText, h]
  have herror (l : Lexer) (e : LexicalError) : l.tokenizeAll.result = .error e ↔
      (View.upper.lexer l).tokenizeAll.result = .error e := by
    rw [View.upper.tokenizeAll_error_iff trivial]
    simp only [View.upper, id_eq, exists_eq_right]
  have hall : (all.map (List.map View.upper.token)).mapError View.upper.error =
      (all'.map (List.map View.upper.token)).mapError View.upper.error := by
    rw [← View.upper.tokenizeAll_eq trivial, hup, View.upper.tokenizeAll_eq trivial]
  have hrec := View.upper.recover_eq (l := ofText config s) trivial
  rw [hup, View.upper.recover_eq trivial, Recovery.mk.injEq] at hrec
  refine ⟨fun e => ?_, fun ts ts' hts hts' => ?_, ?_, ?_⟩
  · rw [herror, hup, ← herror]
  · rw [hts, hts'] at hall
    obtain ⟨-, rfl⟩ := tokenizeAll_ok hts
    obtain ⟨-, rfl⟩ := tokenizeAll_ok hts'
    exact forall₂_alike (Except.ok.inj hall) ((collect_path true _).slice_answered hs)
      ((collect_path true _).slice_answered hs')
  · obtain ⟨es, l, hp, -, hts, -, -⟩ := recover_path (ofText config s)
    obtain ⟨es', l', hp', -, hts', -, -⟩ := recover_path (ofText config s')
    apply forall₂_alike hrec.1.symm
    · exact hts ▸ hp.slice_answered hs
    · exact hts' ▸ hp'.slice_answered hs'
  · have herrors := hrec.2
    simp only [View.upper, List.map_id] at herrors
    exact herrors.symm

/-- A keyword, an error and a hexadecimal literal, each in letters of the other case. -/
theorem letter_case_ignored_mixed :
    let s := ['S', 'e', 'T', '$', 'X', '\'', 'a', 'F', '\'']
    let s' := ['s', 'e', 't', '$', 'x', '\'', 'A', 'f', '\'']
    s.map Char.toUpper = s'.map Char.toUpper ∧
      (ofText {} s).recover.tokens.map Token.kind =
        [.keyword .SET, .hexadecimalLiteral, .eof] ∧
      List.Forall₂ (Token.Alike s s') (ofText {} s).recover.tokens (ofText {} s').recover.tokens ∧
      (ofText {} s).recover.errors = (ofText {} s').recover.errors := by
  intro s s'
  have h : s.map Char.toUpper = s'.map Char.toUpper := by decide
  obtain ⟨-, -, ht, he⟩ := letter_case_ignored h {}
  exact ⟨h, by decide +kernel, ht, he⟩

end Lexer
end Cql
