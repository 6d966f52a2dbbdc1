import Cql.Proofs.Ahead

/-!
Lexers that read alike. Where a change of lexers keeps what every scan finds, it carries over to all
that is read: tokens, errors and what is left of a text with errors.
-/
namespace Cql

/-- A change of lexers that no scan notices, and what it makes of tokens and errors. -/
structure View where
  domain : Lexer → Prop
  lexer : Lexer → Lexer
  token : Token → Token
  error : LexicalError → LexicalError
  domain_pass {l : Lexer} (x : Lexeme) : domain l → domain (l.pass x)
  domain_skip {l : Lexer} : domain l → domain l.skip.lexer
  scan_rest {l : Lexer} : domain l → scan (lexer l).rest = scan l.rest
  token_eq {l : Lexer} (x : Lexeme) : domain l → (lexer l).token x = token (l.token x)
  error_eq {l : Lexer} (fault : Fault) : domain l →
    ⟨fault, (lexer l).position⟩ = error ⟨fault, l.position⟩
  pass_eq {l : Lexer} (x : Lexeme) : domain l → (lexer l).pass x = lexer (l.pass x)
  skip_eq {l : Lexer} : domain l → (lexer l).skip.lexer = lexer l.skip.lexer

theorem scan_eq_eof {cs : List Char} : scan cs = .ok ⟨.eof, 0⟩ ↔ cs = [] := by
  cases cs with
  | nil => simp [scan]
  | cons c cs =>
    simp only [reduceCtorEq, iff_false]
    intro h
    exact scan_kind_ne_eof h rfl

/-- Where the tokens ahead of one lexer are behind others those of another, all that is read is. -/
theorem Lexer.tokenizeAll_of_ahead {l m : Lexer} (front : List Token) {f : Token → Token}
    {g : LexicalError → LexicalError} (ha : m.ahead = front ++ l.ahead.map f)
    (he : m.ending = (l.ending.map f).mapError g) : m.tokenizeAll.result =
      (l.tokenizeAll.result.map (front ++ ·.map f)).mapError g := by
  rw [tokenizeAll_result, tokenizeAll_result, ha, he]
  cases l.ending with
  | error e => rfl
  | ok t =>
    change Except.ok (front ++ l.ahead.map f ++ [f t]) = .ok (front ++ (l.ahead ++ [t]).map f)
    rw [List.append_assoc, List.map_append]
    rfl

namespace View
open Lexer
variable (v : View) {l : Lexer} {x : Lexeme} {fault : Fault}

theorem rest_eq_nil (hl : v.domain l) : (v.lexer l).rest = [] ↔ l.rest = [] := by
  rw [← scan_eq_eof, v.scan_rest hl, scan_eq_eof]

theorem ahead_eq (hl : v.domain l) : (v.lexer l).ahead = l.ahead.map v.token := by
  induction l using scan_induction with
  | fail l fault hf _ => simp [v.scan_rest hl, hf]
  | stop l hr => simp [v.rest_eq_nil hl, hr]
  | pass l x hr hx ih =>
    simp [v.rest_eq_nil hl, hr, v.scan_rest hl, hx, v.token_eq x hl, v.pass_eq x hl,
      ih (v.domain_pass x hl)]

theorem ending_eq (hl : v.domain l) :
    (v.lexer l).ending = (l.ending.map v.token).mapError v.error := by
  induction l using scan_induction with
  | fail l fault hf _ =>
    rw [ending_of_error ((v.scan_rest hl).trans hf), ending_of_error hf, v.error_eq fault hl]
    rfl
  | stop l hr =>
    rw [ending_of_nil ((v.rest_eq_nil hl).2 hr), ending_of_nil hr, endToken, v.token_eq _ hl]
    rfl
  | pass l x hr hx ih =>
    simp [v.rest_eq_nil hl, hr, v.scan_rest hl, hx, v.pass_eq x hl, ih (v.domain_pass x hl)]

theorem tokenizeAll_eq (hl : v.domain l) : (v.lexer l).tokenizeAll.result =
    (l.tokenizeAll.result.map (List.map v.token)).mapError v.error :=
  tokenizeAll_of_ahead [] (v.ahead_eq hl) (v.ending_eq hl)

theorem tokenizeAll_error_iff (hl : v.domain l) {e : LexicalError} :
    (v.lexer l).tokenizeAll.result = .error e ↔
      ∃ e', l.tokenizeAll.result = .error e' ∧ v.error e' = e := by
  rw [v.tokenizeAll_eq hl]
  cases l.tokenizeAll.result with
  | error e' =>
    constructor
    · intro h
      cases h
      exact ⟨e', rfl, rfl⟩
    · intro h
      obtain ⟨_, h, rfl⟩ := h
      cases h
      rfl
  | ok ts =>
    constructor
    · intro h
      cases h
    · intro h
      obtain ⟨_, h, -⟩ := h
      cases h

theorem recover_eq (hl : v.domain l) : (v.lexer l).recover =
    ⟨l.recover.tokens.map v.token, l.recover.errors.map v.error⟩ := by
  induction l using scan_induction with
  | fail l fault hf ih =>
    simp [v.scan_rest hl, hf, v.error_eq fault hl, v.skip_eq hl, ih (v.domain_skip hl)]
  | stop l hr => simp [v.rest_eq_nil hl, hr, endToken, v.token_eq _ hl]
  | pass l x hr hx ih =>
    simp [v.rest_eq_nil hl, hr, v.scan_rest hl, hx, v.token_eq x hl, v.pass_eq x hl,
      ih (v.domain_pass x hl)]

end View
end Cql
