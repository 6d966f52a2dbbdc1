import Cql.Proofs.Interfaces
import Cql.Proofs.Located

/-!
Tokens passed one after another. All that is read of a text is what is passed, and then what is read
from the place behind it.
-/
namespace Cql.Lexer

/-- The tokens are passed in this order, each found with all that is left of the text behind it. -/
inductive Passes : Lexer → List Token → Lexer → Prop where
  | refl (l : Lexer) : Passes l [] l
  | cons {l m : Lexer} {x : Lexeme} {ts : List Token} (hr : l.rest ≠ [])
      (hx : scan l.rest = .ok x) (later : Passes (l.pass x) ts m) : Passes l (l.token x :: ts) m

variable {l m : Lexer} {x : Lexeme} {ts : List Token}

theorem length_text_token (hx : scan l.rest = .ok x) : (l.token x).text.length = x.length :=
  List.length_take_of_le (scan_length_le hx)

theorem text_token_ne_nil (hr : l.rest ≠ []) (hx : scan l.rest = .ok x) :
    (l.token x).text ≠ [] := by
  obtain ⟨c, cs, hc⟩ := List.exists_cons_of_ne_nil hr
  have hpos := scan_length_pos (hc ▸ hx)
  rw [← length_text_token hx] at hpos
  exact List.ne_nil_of_length_pos hpos

namespace Passes

theorem trans {n : Lexer} {us : List Token} (h : Passes l ts m) (h' : Passes m us n) :
    Passes l (ts ++ us) n := by
  induction h with
  | refl l => exact h'
  | cons hr hx _ ih => exact .cons hr hx (ih h')

theorem path (h : Passes l ts m) : Path l (ts.map .scanned) m := by
  induction h with
  | refl l => exact .refl l
  | cons hr hx _ ih => exact (Path.single (.take hr hx)).trans ih

theorem rest_eq (h : Passes l ts m) : l.rest = ts.flatMap Token.text ++ m.rest := by
  induction h with
  | refl l => rfl
  | cons hr hx _ ih =>
    rw [List.flatMap_cons, List.append_assoc, ← ih]
    exact (List.take_append_drop _ _).symm

theorem eq (h : Passes l ts m) :
    m = { l with
      rest := m.rest
      position := l.position.advance (ts.flatMap Token.text)
      index := l.index + ts.length } := by
  induction h with
  | refl l => rfl
  | @cons l m x ts hr hx _ ih =>
    refine ih.trans ?_
    simp only [pass, token, Token.of, Position.advance, List.flatMap_cons, List.foldl_append,
      List.length_cons, Nat.add_assoc, Nat.add_comm 1]

theorem stop_getLast (h : Passes l ts m) : ∀ t ∈ ts.getLast?, t.stop = m.position.offset := by
  induction h with
  | refl l => exact fun t ht => absurd ht (Option.not_mem_none t)
  | @cons l m x ts hr hx later ih =>
    intro t ht
    cases later with
    | refl =>
      obtain rfl := Option.some.inj ht
      exact l.stop_token x
    | cons => exact ih t (by rwa [List.getLast?_cons_cons] at ht)

theorem ahead_eq (h : Passes l ts m) : l.ahead = ts ++ m.ahead := by
  induction h with
  | refl l => rfl
  | cons hr hx _ ih => simp [hr, hx, ih]

theorem ending_eq (h : Passes l ts m) : l.ending = m.ending := by
  induction h with
  | refl l => rfl
  | cons hr hx _ ih => simp [hr, hx, ih]

theorem recover_eq (h : Passes l ts m) :
    l.recover = { m.recover with tokens := ts ++ m.recover.tokens } := by
  induction h with
  | refl l => rfl
  | cons hr hx _ ih => simp [hr, hx, ih]

/-- Tokens that are passed through the end of a text are all of its tokens. -/
theorem tokenizeAll_of_nil (h : Passes l ts m) (hr : m.rest = []) :
    l.tokenizeAll.result = .ok (ts ++ [m.endToken]) := by
  simp [tokenizeAll_eq_ok, h.ending_eq, h.ahead_eq, hr]

end Passes

theorem Passes.eq_of_ofText {config : Config} {text : List Char}
    (h : Passes (ofText config text) ts m) :
    text = ts.flatMap Token.text ++ m.rest ∧
      m = ⟨m.rest, .after (ts.flatMap Token.text), ts.length, false, config⟩ := by
  refine ⟨h.rest_eq, h.eq.trans ?_⟩
  simp [ofText]

/-- All tokens ahead can be passed, and behind them there is none. -/
theorem passes_ahead (l : Lexer) : ∃ m, Passes l l.ahead m ∧ m.Stuck := by
  induction l using scan_induction with
  | fail l fault hf _ => exact ⟨l, by simpa [hf] using .refl l, .inr ⟨fault, hf⟩⟩
  | stop l hr => exact ⟨l, by simpa [hr] using .refl l, .inl hr⟩
  | pass l x hr hx ih =>
    obtain ⟨m, hm, hs⟩ := ih
    rw [ahead_of_ok hr hx]
    exact ⟨m, .cons hr hx hm, hs⟩

theorem passes_of_answers {saved : List Lexer}
    (h : (⟨l, saved⟩ : Session).answers (List.replicate ts.length .next) = ts.map .token)
    (he : ∀ t ∈ ts.getLast?, t.isEof = false) : ∃ m, Passes l ts m := by
  induction ts generalizing l with
  | nil => exact ⟨l, .refl l⟩
  | cons t ts ih =>
    obtain ⟨fault, -, hn⟩ | ⟨hr, -⟩ | ⟨x, hr, hx, -, hn⟩ := next_cases l
    · simp [List.replicate_succ, Session.perform, Session.report, hn, Answer.ofToken] at h
    · -- the end token is answered again and again, and so it is the last one
      have hend := Session.answers_next l saved (t :: ts).length
      simp only [hr, ahead_of_nil, ending_of_nil, List.length_nil, Nat.zero_add, h, List.map_nil,
        List.nil_append, List.map_eq_replicate_iff] at hend
      have hlast := List.getLast?_eq_some_getLast (List.cons_ne_nil t ts)
      obtain he' := Answer.token.inj (hend _ (List.getLast_mem (List.cons_ne_nil t ts)))
      rw [hlast, he'] at he
      cases (he _ rfl).symm.trans l.endToken_isEof
    · simp only [List.length_cons, List.replicate_succ, Session.answers_cons, Session.perform,
        Session.report, hn, Answer.ofToken, List.map_cons, List.cons.injEq,
        Answer.token.injEq] at h
      obtain ⟨rfl, hts⟩ := h
      obtain ⟨m, hm⟩ := ih hts fun t ht => he t (by rw [List.getLast?_cons, ht]; rfl)
      exact ⟨m, .cons hr hx hm⟩

end Cql.Lexer
