import Cql.Proofs.View

/-!
Texts behind other texts. What is read of a text that stands behind another one is what is read of
it alone, moved to its place.
-/
namespace Cql

namespace Position
variable (place : Position)

/-- A place in a text, moved as the text is when its start comes to stand at `place`. Only the first
line goes on in a line that has begun before. -/
def shift (p : Position) : Position where
  line := place.line + (p.line - 1)
  column := if p.line = 1 then place.column + (p.column - 1) else p.column
  offset := place.offset + p.offset

/-- A place in a text, in the text behind another one: lines by the newlines before them, columns on
the first line by the characters behind the last newline, and offsets by the bytes. -/
def translate (before : List Char) (p : Position) : Position where
  line := p.line + before.count '\n'
  column := if p.line = 1 then p.column + (lastLine before).length else p.column
  offset := p.offset + utf8Size before

@[simp] theorem offset_shift (p : Position) :
    (place.shift p).offset = place.offset + p.offset := rfl

theorem next_shift {p : Position} (hl : 1 ≤ p.line) (hc : 1 ≤ p.column) (c : Char) :
    (place.shift p).next c = place.shift (p.next c) := by
  rw [next_eq, next_eq]
  by_cases hn : c = '\n'
  · simp only [if_pos hn, shift, mk.injEq]
    refine ⟨by omega, ?_, Nat.add_assoc _ _ _⟩
    rw [if_neg (by omega)]
  · simp only [if_neg hn, shift, mk.injEq, true_and]
    refine ⟨?_, Nat.add_assoc _ _ _⟩
    by_cases hf : p.line = 1
    · rw [if_pos hf, if_pos hf]
      omega
    · rw [if_neg hf, if_neg hf]

@[simp] theorem next_shift_after (before : List Char) (c : Char) :
    (place.shift (after before)).next c = place.shift (after (before ++ [c])) := by
  rw [← next_after]
  exact next_shift place (Nat.le_add_right 1 _) (Nat.le_add_right 1 _) c

theorem advance_advance (p : Position) (cs cs' : List Char) :
    (p.advance cs).advance cs' = p.advance (cs ++ cs') := List.foldl_append.symm

@[simp] theorem advance_shift (before cs : List Char) :
    (place.shift (after before)).advance cs = place.shift ((after before).advance cs) := by
  induction cs generalizing before with
  | nil => rfl
  | cons c cs ih => simpa [advance] using ih (before ++ [c])

/-- Lines and columns are counted from one, so both ways to move a place agree. -/
theorem shift_eq_translate (before : List Char) {p : Position} (hl : 1 ≤ p.line)
    (hc : 1 ≤ p.column) : (after before).shift p = p.translate before := by
  simp only [shift, translate, after, mk.injEq]
  refine ⟨by omega, ?_, Nat.add_comm _ _⟩
  split <;> omega

end Position

variable (place : Position) (n : Nat)

def Token.shift (t : Token) : Token :=
  { t with
    position := place.shift t.position
    start := place.offset + t.start
    stop := place.offset + t.stop
    index := n + t.index }

def LexicalError.shift (e : LexicalError) : LexicalError :=
  { e with position := place.shift e.position }

def Token.translate (before : List Char) (n : Nat) (t : Token) : Token :=
  { t with
    position := t.position.translate before
    start := t.start + utf8Size before
    stop := t.stop + utf8Size before
    index := t.index + n }

def LexicalError.translate (before : List Char) (e : LexicalError) : LexicalError :=
  { e with position := e.position.translate before }

theorem Token.shift_eq_translate {before : List Char} {t : Token}
    (hp : (Position.after before).shift t.position = t.position.translate before) :
    t.shift (.after before) n = t.translate before n := by
  rw [shift, translate, hp, mk.injEq]
  exact ⟨rfl, rfl, rfl, rfl, Nat.add_comm _ _, Nat.add_comm _ _, Nat.add_comm _ _⟩

/-- Lexers on a text, and on the text moved to `place` behind `n` other tokens. -/
def View.moved : View where
  domain l := ∃ before, l.position = .after before
  lexer l := { l with position := place.shift l.position, index := n + l.index }
  token := .shift place n
  error := .shift place
  domain_pass {l} x h := by
    obtain ⟨before, hl⟩ := h
    exact ⟨before ++ l.rest.take x.length, by simp [Lexer.pass, hl]⟩
  domain_skip {l} h := by
    obtain ⟨before, hl⟩ := h
    cases hr : l.rest with
    | nil => exact ⟨before, by simp [Lexer.skip, hr, hl]⟩
    | cons c cs => exact ⟨before ++ [c], by simp [Lexer.skip, hr, hl]⟩
  scan_rest _ := rfl
  token_eq x _ := by
    simp [Lexer.token, Token.of, Token.shift, Nat.add_assoc]
  error_eq _ _ := rfl
  pass_eq {l} x h := by
    obtain ⟨before, hl⟩ := h
    simp [Lexer.pass, hl, Nat.add_assoc]
  skip_eq {l} h := by
    obtain ⟨before, hl⟩ := h
    cases hr : l.rest with
    | nil => simp [Lexer.skip, hr]
    | cons c cs => simp [Lexer.skip, hr, hl]

/-- A lexer that begins anew on a text, behind `n` tokens and at a place, reads what is read of the
text alone. -/
theorem View.moved_ofText (config : Config) (text : List Char) :
    (View.moved place n).domain (.ofText config text) ∧
      (View.moved place n).lexer (.ofText config text) = ⟨text, place, n, false, config⟩ :=
  ⟨⟨[], rfl⟩, rfl⟩

theorem View.shift_position {l : Lexer} (hl : ∃ cs, l.position = .after cs) (before : List Char) :
    (Position.after before).shift l.position = l.position.translate before := by
  obtain ⟨cs, hl⟩ := hl
  rw [hl]
  exact Position.shift_eq_translate before (Nat.le_add_right 1 _) (Nat.le_add_right 1 _)

def View.behind (before : List Char) (n : Nat) : View :=
  { View.moved (.after before) n with
    token := .translate before n
    error := .translate before
    token_eq := by
      intro l x hl
      rw [(View.moved (.after before) n).token_eq x hl]
      exact Token.shift_eq_translate n (View.shift_position hl before)
    error_eq := by
      intro l fault hl
      exact congrArg (LexicalError.mk fault) (View.shift_position hl before) }

namespace Lexer
variable (before text : List Char)

/-- A lexer that begins behind the front of a text reads what is read of the rest alone, moved by
the front: its tokens, or those before an error and the error. -/
theorem tokenizeAll_behind : ∃ l, at? (before ++ text) (utf8Size before) = .ok l ∧
    let alone := (ofText {} text).tokenizeAll
    l.tokenizeAll.result =
        (alone.result.map (List.map (.translate before 0))).mapError (.translate before) ∧
      taken l.tokenizeAll.events = (taken alone.events).map (.translate before 0) := by
  have hl : at? (before ++ text) (utf8Size before) =
      .ok ((View.behind before 0).lexer (ofText {} text)) := by
    rw [at?, splitAtByte_append]
    rfl
  have hdomain : (View.behind before 0).domain (ofText {} text) := ⟨[], rfl⟩
  exact ⟨_, hl, (View.behind before 0).tokenizeAll_eq hdomain,
    (View.behind before 0).ahead_eq hdomain⟩

end Lexer
end Cql
