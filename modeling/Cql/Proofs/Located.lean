import Mathlib.Data.String.Basic
import Cql.Lexer.Located
import Cql.Proofs.Ahead
import Cql.Proofs.Positions

/-!
A token read on its own at an offset is the token that a lexer reads there, whatever the lexer has
been through. Read one behind another from the start, they are the tokens of the text.
-/
namespace Cql
variable {text : List Char} {offset : Nat}

/-- An offset between two characters of a text, or at one of its ends. -/
def IsBoundary (text : List Char) (offset : Nat) : Prop :=
  (⟨offset⟩ : String.Pos.Raw).IsValid (String.ofList text)

theorem utf8Size_eq_utf8Len (cs : List Char) : utf8Size cs = String.utf8Len cs := by
  induction cs with
  | nil => rfl
  | cons c cs ih => simp [ih, Nat.add_comm]

theorem isBoundary_iff :
    IsBoundary text offset ↔ ∃ before rest, text = before ++ rest ∧ utf8Size before = offset := by
  rw [IsBoundary, String.Pos.Raw.isValid_ofList]
  constructor
  · intro h
    obtain ⟨i, hi⟩ := h
    refine ⟨text.take i, text.drop i, (List.take_append_drop i text).symm, ?_⟩
    rw [utf8Size_eq_utf8Len, ← String.utf8ByteSize_ofList]
    exact hi.symm
  · intro h
    obtain ⟨before, rest, rfl, rfl⟩ := h
    refine ⟨before.length, ?_⟩
    rw [List.take_left, String.utf8ByteSize_ofList, utf8Size_eq_utf8Len]

theorem isBoundary_of_split {before rest : List Char}
    (h : splitAtByte text offset = some (before, rest)) : IsBoundary text offset :=
  isBoundary_iff.2 ⟨before, rest, splitAtByte_eq_some h⟩

theorem splitAtByte_eq_none : splitAtByte text offset = none ↔ ¬ IsBoundary text offset := by
  constructor
  · intro hn hb
    obtain ⟨before, rest, rfl, rfl⟩ := isBoundary_iff.1 hb
    simp at hn
  · intro hb
    cases hs : splitAtByte text offset with
    | none => rfl
    | some s => exact absurd (isBoundary_of_split hs) hb

theorem IsBoundary.le (h : IsBoundary text offset) : offset ≤ utf8Size text := by
  obtain ⟨before, rest, rfl, rfl⟩ := isBoundary_iff.1 h
  simp

/-- A token on its own has no number but zero, and the next one starts behind it. -/
def Located.ofToken (t : Token) : Located := ⟨{ t with index := 0 }, t.stop⟩

def located (r : Except LexicalError Token) : Except Error Located :=
  (r.map Located.ofToken).mapError .lexical

theorem located_ne_invalidOffset (r : Except LexicalError Token) (n size : Nat) :
    located r ≠ .error (.invalidOffset n size) := by
  intro h
  cases r <;> cases h

namespace Lexer
variable {l : Lexer} {x : Lexeme}

theorem stop_token (l : Lexer) (x : Lexeme) : (l.token x).stop = (l.pass x).position.offset :=
  (Position.offset_advance _ _).symm

theorem stop_next {t : Token} (h : l.next.result = .ok t) :
    t.stop = l.next.lexer.position.offset := by
  obtain ⟨fault, -, hn⟩ | ⟨-, hn⟩ | ⟨x, -, -, -, hn⟩ := next_cases l <;> rw [hn] at h ⊢ <;> cases h
  · rfl
  · exact l.stop_token x

theorem StandsIn.isBoundary (hl : l.StandsIn text) : IsBoundary text l.position.offset := by
  obtain ⟨before, ht, hp⟩ := hl
  rw [isBoundary_iff, hp]
  exact ⟨before, l.rest, ht, rfl⟩

theorem tokenAt_of_at? (h : at? text offset = .ok l) : tokenAt text offset =
    (l.next.result.map fun t => ⟨t, l.next.lexer.position.offset⟩).mapError .lexical := by
  simp only [tokenAt, h]
  generalize l.next = step
  obtain ⟨result, l', events⟩ := step
  cases result <;> rfl

def fresh (l : Lexer) : Lexer := ⟨l.rest, l.position, 0, false, {}⟩

theorem StandsIn.at?_fresh (hl : l.StandsIn text) : at? text l.position.offset = .ok l.fresh :=
  hl.at?_eq

/-- Neither its number nor its settings tell in what a lexer reads. -/
theorem StandsIn.tokenAt_eq (hl : l.StandsIn text) :
    tokenAt text l.position.offset = located l.next.result := by
  rw [tokenAt_of_at? hl.at?_fresh]
  obtain ⟨fault, hf, hn⟩ | ⟨hr, hn⟩ | ⟨x, hr, hx, -, hn⟩ := next_cases l
  · rw [next_of_error (l := l.fresh) hf, hn]
    rfl
  · rw [next_of_nil (l := l.fresh) hr, hn]
    rfl
  · rw [next_of_ok (l := l.fresh) hr hx, hn]
    have hstop := l.fresh.stop_token x
    exact congrArg (fun n => Except.ok (Located.mk (l.fresh.token x) n)) hstop.symm

theorem tokensFrom_of_error {e : Error} (h : tokenAt text offset = .error e) :
    tokensFrom text offset = [.error e] := by
  rw [tokensFrom]
  split <;> rename_i he <;> rw [h] at he <;> cases he
  rfl

theorem tokensFrom_of_ok {r : Located} (h : tokenAt text offset = .ok r) :
    tokensFrom text offset =
      .ok r :: if r.token.isEof then [] else tokensFrom text r.next := by
  rw [tokensFrom]
  split <;> rename_i he <;> rw [h] at he <;> cases he
  split <;> simp_all

theorem StandsIn.tokensFrom_eq (hl : l.StandsIn text) : tokensFrom text l.position.offset =
    l.ahead.map (fun t => .ok (Located.ofToken t)) ++ [located l.ending] := by
  induction l using scan_induction with
  | fail l fault hf _ =>
    have ht := hl.tokenAt_eq
    rw [next_of_error hf] at ht
    rw [ahead_of_error hf, ending_of_error hf, tokensFrom_of_error ht]
    rfl
  | stop l hr =>
    have ht := hl.tokenAt_eq
    rw [next_of_nil hr] at ht
    rw [ahead_of_nil hr, ending_of_nil hr, tokensFrom_of_ok ht]
    rfl
  | pass l x hr hx ih =>
    have ht := hl.tokenAt_eq
    have ih := ih (hl.move (.take hr hx))
    have he : (Located.ofToken (l.token x)).token.isEof = false := isEof_token hr hx
    rw [next_of_ok hr hx] at ht
    rw [← stop_token] at ih
    rw [ahead_of_ok hr hx, ending_of_ok hr hx, tokensFrom_of_ok ht, he]
    exact congrArg (.ok (Located.ofToken (l.token x)) :: ·) ih

end Lexer

theorem tokenAt_cases (text : List Char) (offset : Nat) :
    (¬ IsBoundary text offset ∧
      tokenAt text offset = .error (.invalidOffset offset (utf8Size text))) ∨
    ∃ l : Lexer, l.StandsIn text ∧ l.position.offset = offset ∧
      tokenAt text offset = located l.next.result := by
  cases hs : splitAtByte text offset with
  | none =>
    refine .inl ⟨splitAtByte_eq_none.1 hs, ?_⟩
    simp [tokenAt, Lexer.at?, hs]
  | some s =>
    obtain ⟨before, rest⟩ := s
    obtain ⟨rfl, rfl⟩ := splitAtByte_eq_some hs
    have hl : (⟨rest, .after before, 0, false, {}⟩ : Lexer).StandsIn (before ++ rest) :=
      ⟨before, rfl, rfl⟩
    exact .inr ⟨_, hl, rfl, hl.tokenAt_eq⟩

/-- There is no place at an offset exactly if it lies beyond the end or inside a character. -/
theorem tokenAt_eq_invalidOffset {n size : Nat} :
    tokenAt text offset = .error (.invalidOffset n size) ↔
      (utf8Size text < offset ∨ ¬ IsBoundary text offset) ∧ n = offset ∧ size = utf8Size text := by
  obtain ⟨hb, ht⟩ | ⟨l, hl, rfl, ht⟩ := tokenAt_cases text offset
  · rw [ht]
    simp [hb, eq_comm]
  · have hb := hl.isBoundary
    have hle := Nat.not_lt.2 hb.le
    rw [ht]
    exact iff_of_false (located_ne_invalidOffset _ _ _) fun h => h.1.elim hle (absurd hb)

/-- A token on its own ends at a boundary behind its start, unless it is the end token. -/
theorem next_of_tokenAt {r : Located} (h : tokenAt text offset = .ok r) : IsBoundary text r.next ∧
    if offset = utf8Size text then r.token.isEof = true ∧ r.next = offset
    else r.token.isEof = false ∧ offset < r.next := by
  obtain ⟨-, ht⟩ | ⟨l, hl, rfl, ht⟩ := tokenAt_cases text offset
  · rw [ht] at h
    cases h
  · have hl' := l.next_path.standsIn hl
    rw [ht] at h
    obtain ⟨fault, -, hn⟩ | ⟨hr, hn⟩ | ⟨x, hr, -, he, hn⟩ := l.next_cases <;>
      rw [hn] at h hl' <;> cases h
    · rw [if_pos (hl.offset_eq hr)]
      exact ⟨hl.isBoundary, l.endToken_isEof, rfl⟩
    · have hlt := (Lexer.offset_lt_of_next hn he).2
      have hle : (l.pass x).position.offset ≤ utf8Size text := hl'.offset_le
      rw [if_neg (by omega)]
      change IsBoundary text (l.token x).stop ∧ _ ∧ _ < (l.token x).stop
      rw [l.stop_token]
      exact ⟨hl'.isBoundary, he, hlt⟩

/-- A lexer anywhere on a text, after any operations, reads what is read at its offset. A token is
read at every boundary and nowhere else, and token after token from the start are all the tokens of
the text, or those before an error and the error. -/
theorem tokenAt_reads_next {l : Lexer} (hl : Lexer.Begins text l) (ops : List Operation) :
    let m := ((Session.ofLexer l).after ops).lexer
    tokenAt text m.position.offset =
        (m.next.result.map fun t =>
          ⟨{ t with index := 0 }, m.next.lexer.position.offset⟩).mapError .lexical ∧
      (∀ offset n size, tokenAt text offset = .error (.invalidOffset n size) ↔
        (utf8Size text < offset ∨ ¬ IsBoundary text offset) ∧ n = offset ∧ size = utf8Size text) ∧
      (∀ offset r, tokenAt text offset = .ok r → IsBoundary text r.next ∧
        if offset = utf8Size text then r.token.isEof = true ∧ r.next = offset
        else r.token.isEof = false ∧ offset < r.next) ∧
      ∀ config, let all := (Lexer.ofText config text).tokenizeAll
        (∀ ts, all.result = .ok ts → tokensFrom text 0 = ts.map fun t => .ok (.ofToken t)) ∧
        ∀ e, all.result = .error e →
          tokensFrom text 0 = (taken all.events).map (fun t => .ok (.ofToken t)) ++
            [.error (.lexical e)] := by
  intro m
  have hm : m.StandsIn text := Session.after_standsIn hl.standsIn ops
  refine ⟨?_, fun _ _ _ => tokenAt_eq_invalidOffset, fun _ _ => next_of_tokenAt, fun config => ?_⟩
  · rw [hm.tokenAt_eq, located]
    cases h : m.next.result with
    | error e => rfl
    | ok t => rw [← Lexer.stop_next h]; rfl
  · have hall : tokensFrom text 0 = _ := (Lexer.Begins.ofText config).standsIn.tokensFrom_eq
    intro all
    constructor
    · intro ts hts
      obtain ⟨t, he, rfl⟩ := Lexer.tokenizeAll_eq_ok.1 hts
      rw [hall, he, List.map_append]
      rfl
    · intro e hts
      rw [hall, Lexer.tokenizeAll_eq_error.1 hts]
      rfl

/-- Behind a token, a failure and a character given up, in a lexer set aside and taken up again. -/
theorem tokenAt_reads_next_behind_failure :
    let text := ['é', 'a', '$', ';']
    let ops : List Operation := [.pull, .save, .pull, .restore, .skip]
    let l : Lexer := ⟨text.drop 1, ⟨1, 2, 2⟩, 0, false, {}⟩
    let m := ((Session.ofLexer l).after ops).lexer
    Lexer.Begins text l ∧ m = ⟨[';'], ⟨1, 4, 4⟩, 1, false, {}⟩ ∧
      tokenAt text m.position.offset = (m.next.result.map fun t =>
        ⟨{ t with index := 0 }, m.next.lexer.position.offset⟩).mapError .lexical := by
  intro text ops l
  have ha : Lexer.at? text 2 = .ok l := rfl
  have hl : Lexer.Begins text l := .at? ha
  have hm : ((Session.ofLexer l).after ops).lexer = ⟨[';'], ⟨1, 4, 4⟩, 1, false, {}⟩ := by
    decide +kernel
  exact ⟨hl, hm, (tokenAt_reads_next hl ops).1⟩

end Cql
