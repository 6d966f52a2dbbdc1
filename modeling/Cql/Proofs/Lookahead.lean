import Cql.Proofs.LongestMatch

/-!
How far a scan looks ahead. Behind the end of a text most characters are as good as the end itself:
no token goes on with them, and no rule looks at what comes behind them.
-/
namespace Cql
namespace Scan
open Rule

/-- A character that no token goes on with, blanks, literals and comments apart. -/
structure Stops (d : Char) : Prop where
  word : isWordChar d = false
  point : d ≠ '.'
  plus : d ≠ '+'
  dash : d ≠ '-'
  quote : d ≠ '\''
  doubleQuote : d ≠ '"'
  equals : d ≠ '='
  slash : d ≠ '/'
  star : d ≠ '*'
  newline : d ≠ '\n'

/-- A text that is empty or begins with a character that stops what stands before it. -/
def Apart (more : List Char) : Prop := ∀ d ∈ more.head?, Stops d

variable {d : Char} {p : Char → Bool} {more cs : List Char} {n : Nat}

theorem Stops.apply_eq_false (h : Stops d) (hp : p d = true → isWordChar d = true) :
    p d = false := by
  rw [← Bool.not_eq_true]
  intro hd
  exact Bool.false_ne_true (h.word.symm.trans (hp hd))

theorem isWordChar_of_isDigit (h : d.isDigit = true) : isWordChar d = true := by
  simp [isWordChar, Char.isAlphanum, h]

theorem Stops.isDigit (h : Stops d) : d.isDigit = false :=
  h.apply_eq_false isWordChar_of_isDigit

theorem Stops.isHexDigit (h : Stops d) : isHexDigit d = false :=
  h.apply_eq_false fun hd =>
    (isDigit_or_isAlpha hd).elim isWordChar_of_isDigit isWordChar_of_isAlpha

theorem Stops.ne {c : Char} (h : Stops d) (hc : isWordChar c = true) : d ≠ c := by
  intro he
  exact Bool.false_ne_true (h.word.symm.trans (he ▸ hc))

theorem takeWhile_append (h : ∀ d ∈ more.head?, p d = false) (cs : List Char) :
    (cs ++ more).takeWhile p = cs.takeWhile p := by
  induction cs with
  | nil =>
    cases more with
    | nil => rfl
    | cons d more => simp [h d rfl]
  | cons c cs ih => simp only [List.cons_append, List.takeWhile_cons, ih]

theorem runLength_before (h : ∀ d ∈ more.head?, p d = false) (cs : List Char) :
    runLength p (cs ++ more) = runLength p cs := by
  rw [runLength, takeWhile_append h, runLength]

@[simp] theorem digits_append (h : Apart more) (cs : List Char) : digits (cs ++ more) = digits cs :=
  runLength_before (fun d hd => (h d hd).isDigit) cs

@[simp] theorem hexRun_append (h : Apart more) (cs : List Char) :
    runLength isHexDigit (cs ++ more) = runLength isHexDigit cs :=
  runLength_before (fun d hd => (h d hd).isHexDigit) cs

@[simp] theorem fractionLength_append (h : Apart more) (cs : List Char) :
    fractionLength (cs ++ more) = fractionLength cs := by
  cases cs with
  | nil =>
    cases more with
    | nil => rfl
    | cons d more => simp [fractionLength, (h d rfl).point]
  | cons c cs =>
    by_cases hc : c = '.'
    · subst hc
      simp [fractionLength, h]
    · simp [fractionLength, hc]

@[simp] theorem signLength_append (h : Apart more) (cs : List Char) :
    signLength (cs ++ more) = signLength cs := by
  cases cs with
  | nil =>
    cases more with
    | nil => rfl
    | cons d more => simp [signLength, (h d rfl).plus, (h d rfl).dash]
  | cons c cs =>
    by_cases hp : c = '+'
    · subst hp
      rfl
    · by_cases hm : c = '-'
      · subst hm
        rfl
      · simp [signLength, hp, hm]

@[simp] theorem exponentLength_append (h : Apart more) (cs : List Char) :
    exponentLength (cs ++ more) = exponentLength cs := by
  cases cs with
  | nil =>
    cases more with
    | nil => rfl
    | cons d more =>
      have hd : ¬ (d = 'e' ∨ d = 'E') := not_or.2 ⟨(h d rfl).ne rfl, (h d rfl).ne rfl⟩
      simp [exponentLength, hd]
  | cons c cs =>
    have hdrop : (cs ++ more).drop (signLength cs) = cs.drop (signLength cs) ++ more :=
      List.drop_append_of_le_length (Cursor.signLength_le cs)
    simp [exponentLength, h, hdrop]

@[simp] theorem number_append (h : Apart more) (cs : List Char) :
    number (cs ++ more) = number cs := by
  have hw := digits_le cs
  have hf : digits cs + fractionLength (cs.drop (digits cs)) ≤ cs.length := by
    have := fractionLength_le (cs.drop (digits cs))
    rw [List.length_drop] at this
    omega
  simp [number, h, List.drop_append_of_le_length hw, List.drop_append_of_le_length hf]

theorem Stops.not_ex (h : Stops d) : ¬ (d = 'x' ∨ d = 'X') := not_or.2 ⟨h.ne rfl, h.ne rfl⟩

@[simp] theorem hexNumber?_append (h : Apart more) (cs : List Char) :
    hexNumber? (cs ++ more) = hexNumber? cs := by
  match cs with
  | [] =>
    cases more with
    | nil => rfl
    | cons d more => simp [hexNumber?, (h d rfl).ne (c := '0') rfl]
  | [c] =>
    cases more with
    | nil => rfl
    | cons d more =>
      have hd := (h d rfl).not_ex
      by_cases hc : c = '0' <;> simp [hexNumber?, hc, hd]
  | c :: x :: cs => by_cases hc : c = '0' <;> simp [hexNumber?, hc, h]

theorem getElem?_append_quote (h : Apart more) (cs : List Char) {n : Nat} (hn : n ≤ cs.length) :
    (cs ++ more)[n]? = some '\'' ↔ cs[n]? = some '\'' := by
  obtain hn | rfl := Nat.lt_or_eq_of_le hn
  · rw [List.getElem?_append_left hn]
  · rw [List.getElem?_append_right (Nat.le_refl _), Nat.sub_self, ← List.head?_eq_getElem?,
      List.getElem?_eq_none (Nat.le_refl _)]
    constructor
    · intro hq
      exact absurd rfl (h _ hq).quote
    · intro hq
      cases hq

@[simp] theorem quotedHex?_append (h : Apart more) (cs : List Char) :
    quotedHex? (cs ++ more) = quotedHex? cs := by
  match cs with
  | [] =>
    match more with
    | [] => rfl
    | [d] => simp [quotedHex?]
    | d :: q :: more =>
      have hd := (h d rfl).not_ex
      by_cases hq : q = '\'' <;> simp [quotedHex?, hd, hq]
  | [x] =>
    cases more with
    | nil => rfl
    | cons d more => simp [quotedHex?, (h d rfl).quote]
  | x :: c :: cs =>
    have hq := getElem?_append_quote h cs (runLength_le isHexDigit cs)
    by_cases hc : c = '\'' <;> simp [quotedHex?, hc, h, hq]

theorem frontMatches_append {ps : List (Char → Bool)}
    (h : ∀ p ∈ ps, ∀ d ∈ more.head?, p d = false) (cs : List Char) :
    frontMatches ps (cs ++ more) = frontMatches ps cs := by
  induction ps generalizing cs with
  | nil => simp [frontMatches]
  | cons p ps ih =>
    obtain ⟨hp, hps⟩ := List.forall_mem_cons.1 h
    cases cs with
    | nil =>
      cases more with
      | nil => rfl
      | cons d more => simp [frontMatches, hp d rfl]
    | cons c cs => simp [frontMatches, ih hps]

@[simp] theorem startsUuid_append (h : Apart more) (cs : List Char) :
    startsUuid (cs ++ more) = startsUuid cs := by
  refine frontMatches_append (fun p hp d hd => ?_) cs
  obtain rfl | rfl := mem_uuidShape hp
  · exact (h d hd).isHexDigit
  · exact decide_eq_false (h d hd).dash

@[simp] theorem numeric_append (h : Apart more) (cs : List Char) :
    numeric (cs ++ more) = numeric cs := by
  simp [numeric, h]

@[simp] theorem word_append (h : Apart more) (cs : List Char) : word (cs ++ more) = word cs := by
  have hw : ∀ d ∈ more.head?, isWordChar d = false := fun d hd => (h d hd).word
  simp [word, h, takeWhile_append hw, runLength_before hw]

@[simp] theorem comparison_append (h : Apart more) (alone orEqual : Symbol) (cs : List Char) :
    comparison alone orEqual (cs ++ more) = comparison alone orEqual cs := by
  cases cs with
  | nil =>
    cases more with
    | nil => rfl
    | cons d more => simp [comparison, (h d rfl).equals]
  | cons c cs => by_cases hc : c = '=' <;> simp [comparison, hc]

@[simp] theorem point_append (h : Apart more) (cs : List Char) : point (cs ++ more) = point cs := by
  cases cs with
  | nil =>
    cases more with
    | nil => rfl
    | cons d more => simp [point, (h d rfl).isDigit]
  | cons c cs =>
    have hn := numeric_append h ('.' :: c :: cs)
    rw [List.cons_append, List.cons_append] at hn
    simp [point, hn]

theorem forall_head_append {P : Char → Prop} (hcs : ∀ c ∈ cs.head?, P c)
    (hmore : ∀ c ∈ more.head?, P c) : ∀ c ∈ (cs ++ more).head?, P c := by
  cases cs with
  | nil => exact hmore
  | cons c cs => exact hcs

theorem stringBody?_append (h : Apart more) (hn : stringBody? cs = some n) :
    stringBody? (cs ++ more) = some n := by
  obtain ⟨v, after, rfl, hv, ha⟩ := exists_stringBody hn
  rw [stringBody?_eq hv ha] at hn
  rw [List.append_assoc, stringBody?_eq hv, hn]
  exact forall_head_append ha fun d hd => decide_eq_false (h d hd).quote

theorem nameBody?_append (h : Apart more) (hn : nameBody? cs = some n) :
    nameBody? (cs ++ more) = some n := by
  obtain ⟨v, after, rfl, hv, ha⟩ := exists_nameBody hn
  rw [nameBody?_eq hv ha] at hn
  rw [List.append_assoc, nameBody?_eq hv, hn]
  exact forall_head_append ha fun d hd => decide_eq_false (h d hd).doubleQuote

theorem codeBody?_append (more : List Char) (hn : codeBody? cs = some n) :
    codeBody? (cs ++ more) = some n := by
  obtain ⟨v, after, rfl, hv⟩ := exists_codeBody hn
  rw [codeBody?_eq hv] at hn
  rw [List.append_assoc, codeBody?_eq hv, hn]

theorem literal_append {kind : TokenKind} {missing : Literal} {opening : Nat}
    {body body' : Option Nat} {x : Lexeme} (hb : ∀ n, body = some n → body' = some n)
    (hx : literal kind missing opening body = .ok x) :
    literal kind missing opening body' = .ok x := by
  cases body with
  | none => cases hx
  | some n => rwa [hb n rfl]

theorem dollar_append (more : List Char) {x : Lexeme} (hx : dollar cs = .ok x) :
    dollar (cs ++ more) = .ok x := by
  unfold dollar at hx
  split at hx
  · exact literal_append (fun _ => codeBody?_append more) hx
  · cases hx

/-- A comment at the front of a text finds its end there, and does not just end with the text. -/
def Closes (cs : List Char) : TokenKind → Prop
  | .lineComment => '\n' ∈ cs
  | .blockComment => ['*', '/'] <:+: cs.drop 2
  | _ => True

@[simp] theorem lineLength_append (h : '\n' ∈ cs) (more : List Char) :
    lineLength (cs ++ more) = lineLength cs := by
  induction cs with
  | nil => cases h
  | cons c cs ih =>
    by_cases hc : c = '\n'
    · simp [lineLength, hc]
    · simp [lineLength, hc, ih ((List.mem_cons.1 h).resolve_left (Ne.symm hc))]

@[simp] theorem closeLength_append (h : ['*', '/'] <:+: cs) (more : List Char) :
    closeLength (cs ++ more) = closeLength cs := by
  obtain ⟨v, after, rfl, hv | ⟨hv, rfl⟩⟩ := exists_endsBlock cs
  · rw [List.append_assoc, closeLength_eq (.inl hv), closeLength_eq (.inl hv)]
  · rw [List.append_nil] at h
    exact absurd h hv

theorem slash_append (h : Apart more) (hc : Closes ('/' :: cs) (slash cs).kind) :
    slash (cs ++ more) = slash cs := by
  cases cs with
  | nil =>
    cases more with
    | nil => rfl
    | cons d more => simp [slash, (h d rfl).slash, (h d rfl).star]
  | cons c cs =>
    by_cases hs : c = '/'
    · subst hs
      have hc : '\n' ∈ '/' :: '/' :: cs := hc
      have hc : '\n' ∈ cs := by simpa using hc
      simp [slash, hc]
    · by_cases hb : c = '*'
      · subst hb
        have hc : ['*', '/'] <:+: cs := hc
        simp [slash, hc]
      · simp [slash, hs, hb]

theorem dashesOpenComment_append (h : Apart more) (hcs : cs ≠ []) :
    dashesOpenComment (cs ++ more) = dashesOpenComment cs := by
  obtain ⟨c, cs, rfl⟩ := List.exists_cons_of_ne_nil hcs
  have hhead : (cs ++ more).head? = some '\n' ↔ cs.head? = some '\n' := by
    cases cs with
    | nil =>
      refine iff_of_false (fun hd => ?_) (by simp)
      exact (h _ hd).newline rfl
    | cons c cs => rfl
  rw [List.cons_append, Bool.eq_iff_iff, dashesOpenComment_cons, dashesOpenComment_cons, hhead]

theorem dashes_append (h : Apart more) (hc : Closes ('-' :: '-' :: cs) (dashes cs).kind) :
    dashes (cs ++ more) = dashes cs := by
  by_cases hcs : cs = []
  · -- the end of the text opens the comment, which then is not closed
    subst hcs
    have hc : '\n' ∈ ['-', '-'] := hc
    simp at hc
  · rw [dashes, dashes, dashesOpenComment_append h hcs] at *
    split
    case isTrue hd =>
      rw [if_pos hd] at hc
      have hc : '\n' ∈ '-' :: '-' :: cs := hc
      have hc : '\n' ∈ cs := by simpa using hc
      rw [lineLength_append hc]
    case isFalse => rfl

theorem dash_append (h : Apart more) (hc : Closes ('-' :: cs) (dash cs).kind) :
    dash (cs ++ more) = dash cs := by
  cases cs with
  | nil =>
    cases more with
    | nil => rfl
    | cons d more => simp [dash, (h d rfl).dash, (h d rfl).isDigit]
  | cons c cs =>
    have hn := number_append h (c :: cs)
    rw [List.cons_append] at hn ⊢
    rw [dash, dash, hn]
    by_cases hd : c = '-'
    · subst hd
      exact dashes_append h hc
    · rw [if_neg hd, if_neg hd]

end Scan

open Scan in
/-- A scan before the end of a text finds the same where the text goes on behind a character that
stops it, but blanks must not go on in blanks and comments must be closed. -/
theorem scan_append {more cs : List Char} {x : Lexeme} (h : Apart more) (hne : cs ≠ [])
    (hx : scan cs = .ok x) (hb : x.kind = .space → ∀ d ∈ more.head?, isBlank d = false)
    (hc : Closes cs x.kind) : scan (cs ++ more) = .ok x := by
  obtain ⟨c, cs, rfl⟩ := List.exists_cons_of_ne_nil hne
  rw [List.cons_append]
  cases hl : Lead.of c <;> simp only [scan, hl] at hx ⊢
  case blank =>
    cases hx
    rw [← List.cons_append, runLength_before (hb rfl)]
  case digit => rw [← List.cons_append, numeric_append h, hx]
  case letter => rw [← List.cons_append, word_append h, hx]
  case dash =>
    obtain rfl := Lead.eq_of_char? (d := '-') (by rw [hl]; rfl)
    cases hx
    rw [dash_append h hc]
  case hash =>
    cases hx
    have hc : '\n' ∈ c :: cs := hc
    rw [lineComment, lineComment, ← List.cons_append, lineLength_append hc]
  case slash =>
    obtain rfl := Lead.eq_of_char? (d := '/') (by rw [hl]; rfl)
    cases hx
    rw [slash_append h hc]
  case quote => exact literal_append (fun _ => stringBody?_append h) hx
  case doubleQuote => exact literal_append (fun _ => nameBody?_append h) hx
  case dollar => exact dollar_append more hx
  case point => rw [point_append h, hx]
  case less | greater => rw [comparison_append h, hx]
  case other => exact hx

end Cql
