import Cql.Lexer

/-!
Scanning without a lexer at hand: the token at a byte offset, and the chain of tokens from there.
-/
namespace Cql

/-- A token read on its own, and the offset behind it. -/
structure Located where
  token : Token
  next : Nat
deriving DecidableEq

def tokenAt (text : List Char) (offset : Nat) : Except Error Located :=
  match Lexer.at? text offset with
  | .error e => .error e
  | .ok l =>
    match l.next with
    | ⟨.ok t, l', _⟩ => .ok ⟨t, l'.position.offset⟩
    | ⟨.error e, _, _⟩ => .error (.lexical e)

theorem Lexer.offset_lt_of_next {l l' : Lexer} {t : Token} {events : List Event}
    (h : l.next = ⟨.ok t, l', events⟩) (ht : t.isEof = false) :
    l.rest ≠ [] ∧ l.position.offset < l'.position.offset := by
  obtain ⟨x, hr, hx, rfl, rfl⟩ := eq_of_next_token h ht
  obtain ⟨c, cs, hc⟩ := List.exists_cons_of_ne_nil hr
  have hpos := scan_length_pos (hc ▸ hx)
  have hp : 0 < utf8Size (l.rest.take x.length) := utf8Size_pos (by simp [hc]; omega)
  exact ⟨hr, by simpa [pass] using hp⟩

theorem tokenAt_next {text : List Char} {offset : Nat} {r : Located}
    (h : tokenAt text offset = .ok r) (ht : r.token.isEof = false) :
    utf8Size text - r.next < utf8Size text - offset := by
  unfold tokenAt Lexer.at? at h
  cases hs : splitAtByte text offset with
  | none => simp [hs] at h
  | some s =>
    obtain ⟨rfl, rfl⟩ := splitAtByte_eq_some hs
    simp only [hs] at h
    generalize hn : Lexer.next _ = step at h
    obtain ⟨result, l', events⟩ := step
    cases result with
    | error e => cases h
    | ok t =>
      cases h
      obtain ⟨hr, hlt⟩ := Lexer.offset_lt_of_next hn ht
      have : 0 < utf8Size s.2 := utf8Size_pos hr
      simp at hlt ⊢
      omega

/-- Token after token from an offset, through the end token or the first error. -/
def tokensFrom (text : List Char) (offset : Nat) : List (Except Error Located) :=
  match _ : tokenAt text offset with
  | .error e => [.error e]
  | .ok r => if _ : r.token.isEof then [.ok r] else .ok r :: tokensFrom text r.next
termination_by utf8Size text - offset
decreasing_by exact tokenAt_next ‹_› (eq_false_of_ne_true ‹_›)

end Cql
