import Cql.Cursor
import Cql.Scan.Comment

/-!
The readers of blanks and comments.
-/
namespace Cql.Cursor
open Scan

def readBlanks (k : Cursor) : TokenKind × Cursor :=
  (.space, k.advanceBy (k.countWhile 0 isBlank))

def passLine (k : Cursor) : Cursor :=
  let k := k.advanceBy (k.countWhile 0 (· ≠ '\n'))
  if k.peek 0 = some '\n' then k.advance else k

def readLineComment (opening : Nat) (k : Cursor) : TokenKind × Cursor :=
  (.lineComment, (k.advanceBy opening).passLine)

/-- Through the first `*/`, or to the end. -/
def closeBlock : List UInt8 → Position → Cursor
  | [], p => ⟨[], p⟩
  | b :: bs, p =>
    let k : Cursor := ⟨b :: bs, p⟩
    if k.peek 0 = some '*' ∧ k.peek 1 = some '/' then k.advanceBy 2
    else closeBlock bs (p.nextByte b)

def readBlockComment (k : Cursor) : TokenKind × Cursor :=
  let k := k.advanceBy 2
  (.blockComment, closeBlock k.bytes k.position)

variable {w : List Char}

theorem isBlank_ascii (c : Char) (h : isBlank c = true) : c.toNat < 128 := by
  have h : ((c = ' ' ∨ c = '\t') ∨ c = '\r') ∨ c = '\n' := by simpa [isBlank] using h
  obtain ((rfl | rfl) | rfl) | rfl := h <;> decide

theorem readBlanks_eq (cs : List Char) (p : Position) :
    readBlanks (ofText cs p) = Lexeme.found ⟨.space, runLength isBlank cs⟩ cs p := by
  rw [readBlanks, countWhile_run isBlank_ascii,
    advanceBy_front (run_ascii isBlank_ascii) (runLength_le _ cs)]
  rfl

theorem passLine_eq (cs : List Char) (p : Position) :
    (ofText cs p).passLine = behind cs p (lineLength cs) := by
  have hcount := countWhile_zero (blind_ne (d := '\n') (by decide))
  induction cs generalizing p with
  | nil => rfl
  | cons c cs ih =>
    rw [passLine, hcount, lineLength]
    by_cases hc : c = '\n'
    · subst hc
      have hp : (ofText ('\n' :: cs) p).peek 0 = some '\n' := (peek_zero (by decide)).2 rfl
      rw [if_pos rfl]
      exact (if_pos hp).trans (advance_cons (by decide))
    · have ht : (c :: cs).takeWhile (· ≠ '\n') = c :: cs.takeWhile (· ≠ '\n') :=
        List.takeWhile_cons_of_pos (decide_eq_true hc)
      rw [ht, if_neg hc, behind_cons, ← ih, passLine, hcount, utf8Size_cons, advanceBy_add,
        advanceBy_cons]

theorem readLineComment_eq (hw : ∀ c ∈ w, c.toNat < 128) (cs : List Char) (p : Position) :
    readLineComment w.length (ofText (w ++ cs) p) =
      Lexeme.found ⟨.lineComment, lineLength cs + w.length⟩ (w ++ cs) p := by
  rw [readLineComment, advanceBy_ascii hw, passLine_eq, Lexeme.found, behind_append]

theorem closeBlock_append {bs : List UInt8} (h : ∀ b ∈ bs, Char.ofUInt8 b ≠ '*')
    (rest : List UInt8) (p : Position) :
    closeBlock (bs ++ rest) p = closeBlock rest (bs.foldl Position.nextByte p) := by
  refine pass_append (fun b bs p hb => ?_) h rest p
  have hn : ¬ (some (Char.ofUInt8 b) = some '*') := fun h => hb (Option.some.inj h)
  exact if_neg fun h => hn h.1

theorem closeBlock_eq (cs : List Char) (p : Position) :
    closeBlock (utf8 cs) p = behind cs p (closeLength cs) := by
  fun_induction closeLength cs generalizing p with
  | case1 => rfl
  | case2 cs => rfl
  | case3 c cs hn ih =>
    rw [behind_cons, ← ih]
    by_cases hc : c = '*'
    · subst hc
      refine if_neg fun h => ?_
      have h := (peek_one (c := '*') (d := '/') (by decide) (by decide) cs p).1 h.2
      obtain ⟨rest, rfl⟩ := List.head?_eq_some_iff.1 h
      exact hn rest rfl rfl
    · exact closeBlock_append (fun b hb => ne_of_mem (by decide) hc hb) (utf8 cs) p

theorem readBlockComment_eq (cs : List Char) (p : Position) :
    readBlockComment (ofText ('/' :: '*' :: cs) p) =
      Lexeme.found ⟨.blockComment, closeLength cs + 2⟩ ('/' :: '*' :: cs) p := by
  have h : ∀ c ∈ ['/', '*'], c.toNat < 128 := by simp
  have hk : (ofText ('/' :: '*' :: cs) p).advanceBy 2 = _ := advanceBy_ascii h cs p
  rw [readBlockComment, hk]
  exact congrArg _ (closeBlock_eq cs _)

end Cql.Cursor
