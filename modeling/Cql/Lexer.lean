import Cql.Cursor.Scan
import Cql.Event

/-!
A lexer is a place in a text that moves over one token after another.
-/
namespace Cql

/-- The unread text and its position, the index of the next token, and whether a reader that pulls
tokens has come to its end. -/
structure Lexer where
  rest : List Char
  position : Position
  index : Nat
  finished : Bool
  config : Config
deriving DecidableEq

/-- What an operation answers, the lexer after it, and what happened on the way. -/
structure Step (α : Type) where
  result : α
  lexer : Lexer
  events : List Event

namespace Lexer

def ofText (config : Config) (text : List Char) : Lexer := ⟨text, .start, 0, false, config⟩

def at? (text : List Char) (offset : Nat) : Except Error Lexer :=
  match splitAtByte text offset with
  | some (before, rest) => .ok ⟨rest, .after before, 0, false, {}⟩
  | none => .error (.invalidOffset offset (utf8Size text))

def atEnd (l : Lexer) : Bool := l.rest.isEmpty

def token (l : Lexer) (x : Lexeme) : Token :=
  .of x.kind (l.rest.take x.length) l.position l.index

def pass (l : Lexer) (x : Lexeme) : Lexer :=
  { l with
    rest := l.rest.drop x.length
    position := l.position.advance (l.rest.take x.length)
    index := l.index + 1 }

/-- The lexer where the scan of a token began, from where its cursor has come to stand behind it. -/
def back (l : Lexer) (passed : List Char) (start : Position) : Lexer :=
  { l with
    rest := passed ++ l.rest
    position := { l.position with
      offset := start.offset
      line := start.line
      column := start.column } }

/-- The token here, cut out of the text where the cursor comes to rest. At the end that is the end
token, time and again. Wherever the cursor is when a scan fails, it goes back to the start. -/
def next (l : Lexer) : Step (Except LexicalError Token) :=
  match l.rest with
  | [] => ⟨.ok (l.token ⟨.eof, 0⟩), l, []⟩
  | c :: cs =>
    let start := l.position
    let scanned := Cursor.scanToken c cs start
    let cut := Cursor.cut c cs start
    let moved : Lexer := { l with rest := cut.2, position := scanned.2.position }
    match scanned.1 with
    | .error fault =>
      ⟨.error ⟨fault, start⟩, moved.back cut.1 start, [.failed ⟨fault, start⟩]⟩
    | .ok kind =>
      let t := Token.of kind cut.1 start moved.index
      ⟨.ok t, { moved with index := moved.index + 1 }, [.scanned t]⟩

def untraced (l : Lexer) : Lexer := { l with config := { l.config with traceTokens := false } }

@[simp] theorem rest_untraced (l : Lexer) : l.untraced.rest = l.rest := by rw [untraced]

/-- The token here, without taking it: a copy that traces nothing scans it. -/
def peek (l : Lexer) : Step (Except LexicalError Token) :=
  let probe := l.untraced.next
  ⟨probe.result, l, probe.events.filter (Event.isLogged probe.lexer.config)⟩

/-- Gives up one character, so that scanning can go on behind it. -/
def skip (l : Lexer) : Step (Option Char) :=
  match l.rest with
  | [] => ⟨none, l, []⟩
  | c :: cs =>
    ⟨some c, { l with rest := cs, position := l.position.next c, finished := false },
      [.skipped c (l.position.next c)]⟩

/-- The next token of a sequence that ends before the end token or after the first error. -/
def pull (l : Lexer) : Step (Option (Except LexicalError Token)) :=
  if l.finished then ⟨none, l, []⟩
  else match l.next with
    | ⟨.error e, l', events⟩ => ⟨some (.error e), { l' with finished := true }, events⟩
    | ⟨.ok t, l', events⟩ =>
      if t.isEof then ⟨none, { l' with finished := true }, events⟩
      else ⟨some (.ok t), l', events⟩

/-- Behind all that a scan does to the cursor, a fault leaves the lexer as it was. -/
theorem next_eq (l : Lexer) : l.next =
    match scan l.rest with
    | .error fault => ⟨.error ⟨fault, l.position⟩, l, [.failed ⟨fault, l.position⟩]⟩
    | .ok x =>
      if l.atEnd then ⟨.ok (l.token x), l, []⟩
      else ⟨.ok (l.token x), l.pass x, [.scanned (l.token x)]⟩ := by
  unfold next
  split
  case h_1 hr => simp [hr, scan, atEnd]
  case h_2 c cs hr =>
    simp only [Cursor.cut_eq, Cursor.scanToken_eq, hr]
    cases hs : scan (c :: cs) with
    | error fault =>
      -- what the scan has gone over and what is left are the text again
      have hback (k : Cursor) (n : Nat) : back ⟨(c :: cs).drop n, k.position, l.index, l.finished,
          l.config⟩ ((c :: cs).take n) l.position = l := by
        rw [back, List.take_append_drop, ← hr]
      exact congrArg (Step.mk _ · _) (hback _ _)
    | ok x =>
      have hn : l.atEnd = false := by rw [atEnd, hr]; rfl
      simp only [hr, hn, token, pass]
      rfl

/-- The copy finds the token here and writes of nothing but its failure. -/
theorem peek_eq (l : Lexer) :
    l.peek = ⟨l.next.result, l, l.next.events.filter Event.isFailure⟩ := by
  simp only [peek, next_eq, rest_untraced]
  cases scan l.rest with
  | error fault => rfl
  | ok x =>
    have hend : l.untraced.atEnd = l.atEnd := rfl
    rw [hend]
    cases l.atEnd <;> rfl

theorem eq_of_next_ok {l l' : Lexer} {t : Token} {events : List Event}
    (h : l.next = ⟨.ok t, l', events⟩) :
    ∃ x, scan l.rest = .ok x ∧ t = l.token x ∧
      (l.rest = [] ∧ l' = l ∨ l.rest ≠ [] ∧ l' = l.pass x) := by
  rw [next_eq] at h
  cases hx : scan l.rest with
  | error fault => simp [hx] at h
  | ok x =>
    rw [hx] at h
    by_cases hr : l.rest = []
    · obtain ⟨rfl, rfl, -⟩ : l.token x = t ∧ l = l' ∧ [] = events := by
        simpa [atEnd, hr] using h
      exact ⟨x, rfl, rfl, .inl ⟨hr, rfl⟩⟩
    · obtain ⟨rfl, rfl, -⟩ : l.token x = t ∧ l.pass x = l' ∧ [.scanned (l.token x)] = events := by
        simpa [atEnd, hr] using h
      exact ⟨x, rfl, rfl, .inr ⟨hr, rfl⟩⟩

theorem eq_of_next_error {l l' : Lexer} {e : LexicalError} {events : List Event}
    (h : l.next = ⟨.error e, l', events⟩) : l' = l := by
  rw [next_eq] at h
  cases hx : scan l.rest with
  | error fault =>
    rw [hx] at h
    exact (congrArg Step.lexer h).symm
  | ok x => cases hn : l.atEnd <;> simp [hx, hn] at h

theorem eq_of_next_token {l l' : Lexer} {t : Token} {events : List Event}
    (h : l.next = ⟨.ok t, l', events⟩) (ht : t.isEof = false) :
    ∃ x, l.rest ≠ [] ∧ scan l.rest = .ok x ∧ t = l.token x ∧ l' = l.pass x := by
  obtain ⟨x, hx, rfl, ⟨hr, -⟩ | ⟨hr, rfl⟩⟩ := eq_of_next_ok h
  · rw [hr] at hx
    cases hx
    simp [token, Token.of, Token.isEof] at ht
  · exact ⟨x, hr, hx, rfl, rfl⟩

theorem length_rest_next {l l' : Lexer} {t : Token} {events : List Event}
    (h : l.next = ⟨.ok t, l', events⟩) (ht : t.isEof = false) :
    l'.rest.length < l.rest.length := by
  obtain ⟨x, hr, hx, rfl, rfl⟩ := eq_of_next_token h ht
  obtain ⟨c, cs, hc⟩ := List.exists_cons_of_ne_nil hr
  have hpos := scan_length_pos (hc ▸ hx)
  simp [pass, hc]
  omega

theorem not_eof_of_hidden {l l' : Lexer} {t : Token} {events : List Event}
    (h : l.next = ⟨.ok t, l', events⟩) (ht : t.isHidden = true) : t.isEof = false := by
  obtain ⟨x, _, rfl, _⟩ := eq_of_next_ok h
  rw [token, Token.isHidden_of] at ht
  cases hk : x.kind <;> simp_all [token, Token.of, Token.isEof, TokenKind.isHidden]

end Lexer
end Cql
