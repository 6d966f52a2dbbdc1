import Cql.Scan.Lexeme

/-!
Comments, and the symbols that could have begun one.
-/
namespace Cql.Scan

/-- A line through its newline, or through the end of the text. -/
def lineLength : List Char → Nat
  | [] => 0
  | c :: cs => if c = '\n' then 1 else lineLength cs + 1

/-- A text through its first `*/`, or all of it. -/
def closeLength : List Char → Nat
  | [] => 0
  | '*' :: '/' :: _ => 2
  | _ :: cs => closeLength cs + 1

def lineComment (cs : List Char) : Lexeme := ⟨.lineComment, lineLength cs⟩

def slash : List Char → Lexeme
  | '/' :: cs => ⟨.lineComment, lineLength cs + 2⟩
  | '*' :: cs => ⟨.blockComment, closeLength cs + 2⟩
  | _ => ⟨.symbol .divide, 1⟩

/-- Two dashes comment out their line only if a space or the end of the line follows. -/
def dashesOpenComment : List Char → Bool
  | [] | ' ' :: _ | '\n' :: _ | '\r' :: '\n' :: _ => true
  | _ => false

def dashes (cs : List Char) : Lexeme :=
  if dashesOpenComment cs then ⟨.lineComment, lineLength cs + 2⟩ else ⟨.symbol .minusMinus, 2⟩

theorem lineLength_le (cs : List Char) : lineLength cs ≤ cs.length := by
  induction cs with
  | nil => exact Nat.le_refl 0
  | cons c cs ih =>
    unfold lineLength
    split
    · simp
    · simpa using ih

theorem closeLength_le (cs : List Char) : closeLength cs ≤ cs.length := by
  fun_induction closeLength cs with
  | case1 => exact Nat.le_refl 0
  | case2 => simp
  | case3 => simp; omega

end Cql.Scan
