import Cql.Lexer

/-!
Many tokens at once. Each loop ends because a token before the end takes at least one character.
-/
namespace Cql.Lexer

def nextSignificant (l : Lexer) : Step (Except LexicalError Token) :=
  match _ : l.next with
  | ⟨.error e, l', events⟩ => ⟨.error e, l', events⟩
  | ⟨.ok t, l', events⟩ =>
    if _ : t.isHidden then
      let s := nextSignificant l'
      { s with events := events ++ s.events }
    else ⟨.ok t, l', events⟩
termination_by l.rest.length
decreasing_by exact length_rest_next ‹_› (not_eof_of_hidden ‹_› ‹_›)

/-- The tokens through the end token, hidden ones only if wanted. The first error ends them. -/
def collect (hidden : Bool) (l : Lexer) : Step (Except LexicalError (List Token)) :=
  match _ : l.next with
  | ⟨.error e, l', events⟩ => ⟨.error e, l', events⟩
  | ⟨.ok t, l', events⟩ =>
    let kept := if hidden || !t.isHidden then [t] else []
    if _ : t.isEof then ⟨.ok kept, l', events⟩
    else
      let s := collect hidden l'
      ⟨s.result.map (kept ++ ·), s.lexer, events ++ s.events⟩
termination_by l.rest.length
decreasing_by exact length_rest_next ‹_› (eq_false_of_ne_true ‹_›)

def tokenize (l : Lexer) : Step (Except LexicalError (List Token)) :=
  l.collect l.config.emitHidden

def tokenizeAll (l : Lexer) : Step (Except LexicalError (List Token)) := l.collect true

/-- A bound on the tokens and errors still to be pulled. -/
def pending (l : Lexer) : Nat := if l.finished then 0 else l.rest.length + 1

theorem pending_pull {l l' : Lexer} {x : Except LexicalError Token} {events : List Event}
    (h : l.pull = ⟨some x, l', events⟩) : l'.pending < l.pending := by
  unfold pull at h
  split at h
  · cases h
  · rename_i hf
    have hp : l.pending = l.rest.length + 1 := if_neg hf
    rw [hp]
    split at h
    · cases h
      exact Nat.succ_pos _
    · rename_i hn
      split at h
      · cases h
      · rename_i ht
        cases h
        have hlt := length_rest_next hn (eq_false_of_ne_true ht)
        unfold pending
        split <;> omega

def pullAll (l : Lexer) : List (Except LexicalError Token) :=
  match _ : l.pull with
  | ⟨none, _, _⟩ => []
  | ⟨some x, l', _⟩ => x :: pullAll l'
termination_by l.pending
decreasing_by exact pending_pull ‹_›

end Cql.Lexer
