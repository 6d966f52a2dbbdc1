import Cql.Lexer

/-!
All the tokens that can be had from a text with errors: behind each error one character is given up.
-/
namespace Cql

structure Recovery where
  tokens : List Token
  errors : List LexicalError
deriving DecidableEq

namespace Lexer

theorem length_rest_skip {l l' l'' : Lexer} {e : LexicalError} {c : Char}
    {events events' : List Event}
    (h : l.next = ⟨.error e, l', events⟩) (hs : l'.skip = ⟨some c, l'', events'⟩) :
    l''.rest.length < l.rest.length := by
  cases eq_of_next_error h
  unfold skip at hs
  split at hs
  · simp at hs
  · rename_i hr
    simp at hs
    simp [← hs.2.1, hr]

def recover (l : Lexer) : Recovery :=
  match _ : l.next with
  | ⟨.ok t, l', _⟩ =>
    if _ : t.isEof then ⟨[t], []⟩
    else
      let r := recover l'
      { r with tokens := t :: r.tokens }
  | ⟨.error e, l', _⟩ =>
    match _ : l'.skip with
    | ⟨none, _, _⟩ => ⟨[], [e]⟩
    | ⟨some _, l'', _⟩ =>
      let r := recover l''
      { r with errors := e :: r.errors }
termination_by l.rest.length
decreasing_by
  · exact length_rest_next ‹_› (eq_false_of_ne_true ‹_›)
  · exact length_rest_skip ‹_› ‹_›

end Lexer
end Cql
