import Cql.Scan.Number

/-!
What begins with a digit, a point or a letter: UUIDs before numbers and words, hexadecimal before
either.
-/
namespace Cql.Scan

/-- The predicates hold of the characters at the front, one of each. -/
def frontMatches : List (Char → Bool) → List Char → Bool
  | [], _ => true
  | _ :: _, [] => false
  | p :: ps, c :: cs => p c && frontMatches ps cs

def isDash (c : Char) : Bool := c = '-'

def hexGroup (n : Nat) : List (Char → Bool) := List.replicate n isHexDigit

/-- Hexadecimal digits in groups of 8, 4, 4, 4 and 12 with dashes between the groups. -/
def uuidShape : List (Char → Bool) :=
  hexGroup 8 ++ isDash :: hexGroup 4 ++ isDash :: hexGroup 4 ++ isDash :: hexGroup 4 ++
    isDash :: hexGroup 12

def startsUuid (cs : List Char) : Bool := frontMatches uuidShape cs

def numeric (cs : List Char) : Lexeme :=
  if startsUuid cs then ⟨.uuidLiteral, uuidShape.length⟩
  else match hexNumber? cs with
    | some n => ⟨.hexadecimalLiteral, n⟩
    | none => number cs

def wordKind (w : List Char) : TokenKind :=
  match Keyword.ofWord? w with
  | some k => .keyword k
  | none => .objectName

def word (cs : List Char) : Lexeme :=
  if startsUuid cs then ⟨.uuidLiteral, uuidShape.length⟩
  else match quotedHex? cs with
    | some n => ⟨.hexadecimalLiteral, n⟩
    | none => ⟨wordKind (cs.takeWhile isWordChar), runLength isWordChar cs⟩

theorem frontMatches_le {ps : List (Char → Bool)} {cs : List Char}
    (h : frontMatches ps cs = true) : ps.length ≤ cs.length := by
  induction ps generalizing cs with
  | nil => exact Nat.zero_le _
  | cons p ps ih =>
    cases cs with
    | nil => cases h
    | cons c cs =>
      simp [frontMatches] at h
      simpa using ih h.2

theorem numeric_length_le (cs : List Char) : (numeric cs).length ≤ cs.length := by
  unfold numeric
  split
  · exact frontMatches_le ‹_›
  · split
    · exact hexNumber?_le ‹_›
    · exact number_length_le cs

theorem word_length_le (cs : List Char) : (word cs).length ≤ cs.length := by
  unfold word
  split
  · exact frontMatches_le ‹_›
  · split
    · exact quotedHex?_le ‹_›
    · exact runLength_le _ cs

end Cql.Scan
