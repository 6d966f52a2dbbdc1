import Cql.Proofs.Located
import Cql.Proofs.Tiling

/-!
The scanner once more, with every index it takes into the whole text. A byte that must be there, a
run of bytes from an index on, a window of them and a slice of the text are had only where they are
in range, a slice only between characters; else there is no result at all. Where a cursor stands in
the text there always is one, and it is that of the scanner that never looks outside.
-/
namespace Cql

/-- The cursor stands in the text: the bytes of the text end with those not read yet, and the offset
counts the bytes before them. -/
def Cursor.StandsIn (k : Cursor) (text : List Char) : Prop :=
  ∃ front, utf8 text = front ++ k.bytes ∧ k.position.offset = front.length

namespace Cursor.StandsIn
variable {text : List Char} {k : Cursor}

theorem ofText {before cs : List Char} {p : Position} (ht : text = before ++ cs)
    (hp : p.offset = utf8Size before) : (Cursor.ofText cs p).StandsIn text := by
  exact ⟨utf8 before, by simp [ht, Cursor.ofText], by simpa [Cursor.ofText] using hp⟩

theorem advance (h : k.StandsIn text) : k.advance.StandsIn text := by
  obtain ⟨front, ht, ho⟩ := h
  obtain ⟨bytes, p⟩ := k
  cases bytes with
  | nil => exact ⟨front, ht, ho⟩
  | cons b bs =>
    exact ⟨front ++ [b], by simpa [Cursor.advance] using ht, by simpa [Cursor.advance] using ho⟩

theorem advanceBy (h : k.StandsIn text) (n : Nat) : (k.advanceBy n).StandsIn text := by
  induction n generalizing k with
  | zero => exact h
  | succ n ih => exact ih h.advance

end Cursor.StandsIn

namespace Indexed
open Scan

def byteAt? (text : List Char) (i : Nat) : Option Char := (utf8 text)[i]?.map Char.ofUInt8

/-- The bytes from an index on, which may be the end. -/
def bytesFrom? (text : List Char) (i : Nat) : Option (List UInt8) :=
  if i ≤ (utf8 text).length then some ((utf8 text).drop i) else none

def window? (bs : List UInt8) (n : Nat) : Option (List UInt8) :=
  if n ≤ bs.length then some (bs.take n) else none

/-- The first character of the text from an index on. There is none where no character begins. -/
def charAt? (text : List Char) (i : Nat) : Option Char :=
  (splitAtByte text i).bind fun s => s.2.head?

def cursor (text : List Char) (p : Position) : Cursor := ⟨(utf8 text).drop p.offset, p⟩

section Readers
variable (text : List Char)

def countWhile (k : Cursor) (n : Nat) (q : Char → Bool) : Option Nat := do
  let bs ← bytesFrom? text (min (k.position.offset + n) (utf8 text).length)
  return (bs.takeWhile fun b => q (Char.ofUInt8 b)).length

def readBlanks (k : Cursor) : Option (TokenKind × Cursor) := do
  let n ← countWhile text k 0 isBlank
  return (.space, k.advanceBy n)

def passLine (k : Cursor) : Option Cursor := do
  let n ← countWhile text k 0 (· ≠ '\n')
  let k := k.advanceBy n
  return if k.peek 0 = some '\n' then k.advance else k

def readLineComment (opening : Nat) (k : Cursor) : Option (TokenKind × Cursor) := do
  let k ← passLine text (k.advanceBy opening)
  return (.lineComment, k)

def exponentBytes? (k : Cursor) : Option (Option Nat) :=
  if k.peek 0 = some 'e' ∨ k.peek 0 = some 'E' then do
    let sign := if k.peek 1 = some '+' ∨ k.peek 1 = some '-' then 1 else 0
    let power ← countWhile text k (1 + sign) Char.isDigit
    return if 0 < power then some (1 + sign + power) else none
  else return none

def readExponent (kind : TokenKind) (k : Cursor) : Option (TokenKind × Cursor) := do
  match ← exponentBytes? text k with
  | some n => return (.floatLiteral, k.advanceBy n)
  | none => return (kind, k)

def readFraction (whole : Nat) (k : Cursor) : Option (TokenKind × Cursor) :=
  if k.peek 0 = some '.' then do
    let fraction ← countWhile text k 1 Char.isDigit
    if 0 < whole ∨ 0 < fraction then
      readExponent text .floatLiteral (k.advanceBy (1 + fraction))
    else return (.decimalLiteral, k)
  else if 0 < whole then readExponent text .decimalLiteral k
  else return (.decimalLiteral, k)

def readDecimalOrFloat (k : Cursor) : Option (TokenKind × Cursor) := do
  let whole ← countWhile text k 0 Char.isDigit
  readFraction text whole (k.advanceBy whole)

/-- The window is taken only of bytes that fill it. -/
def uuidAhead (k : Cursor) : Option Bool := do
  let rest ← bytesFrom? text k.position.offset
  if rest.length < Cursor.uuidLength then return false
  let front ← window? rest Cursor.uuidLength
  return front.zipIdx.all fun x => Cursor.isUuidByte x.2 (Char.ofUInt8 x.1)

def hexBytes? (k : Cursor) : Option (Option Nat) :=
  if k.peek 0 = some '0' ∧ (k.peek 1 = some 'x' ∨ k.peek 1 = some 'X') then do
    let n ← countWhile text k 2 isHexDigit
    return if 0 < n then some (2 + n) else none
  else return none

def quotedHexBytes? (k : Cursor) : Option (Option Nat) :=
  if (k.peek 0 = some 'x' ∨ k.peek 0 = some 'X') ∧ k.peek 1 = some '\'' then do
    let n ← countWhile text k 2 isHexDigit
    return if k.peek (2 + n) = some '\'' ∧ 0 < n ∧ n % 2 = 0 then some (3 + n) else none
  else return none

def readNumber (k : Cursor) : Option (TokenKind × Cursor) := do
  if ← uuidAhead text k then return (.uuidLiteral, k.advanceBy Cursor.uuidLength)
  match ← hexBytes? text k with
  | some n => return (.hexadecimalLiteral, k.advanceBy n)
  | none => readDecimalOrFloat text k

def readIdentifier (k : Cursor) : Option (TokenKind × Cursor) := do
  let n ← countWhile text k 0 isWordChar
  let word ← slice text k.position.offset (k.position.offset + n)
  return (wordKind word, k.advanceBy n)

def readWord (k : Cursor) : Option (TokenKind × Cursor) := do
  if ← uuidAhead text k then return (.uuidLiteral, k.advanceBy Cursor.uuidLength)
  match ← quotedHexBytes? text k with
  | some n => return (.hexadecimalLiteral, k.advanceBy n)
  | none => readIdentifier text k

def readMinus (k : Cursor) : Option (TokenKind × Cursor) :=
  if k.peek 1 = some '-' then
    if k.peek 2 = some ' ' ∨ k.peek 2 = none ∨ k.peek 2 = some '\n' ∨
        k.peek 2 = some '\r' ∧ k.peek 3 = some '\n' then
      readLineComment text 2 k
    else return k.readTwo (.symbol .minusMinus)
  else if (k.peek 1).any Char.isDigit then readDecimalOrFloat text k.advance
  else return k.readOne (.symbol .minus)

def readSlash (k : Cursor) : Option (TokenKind × Cursor) :=
  if k.peek 1 = some '/' then readLineComment text 2 k
  else if k.peek 1 = some '*' then return k.readBlockComment
  else return k.readOne (.symbol .divide)

/-- The fault where no token begins. A replacement stands for the character where none begins. -/
def unrecognized (k : Cursor) : Fault :=
  .unrecognized ((charAt? text k.position.offset).getD '\uFFFD')

def readDollar (k : Cursor) : Except Fault TokenKind × Cursor :=
  if k.peek 1 = some '$' then k.readLiteral .codeBlock .codeBlock 2 Cursor.closeCode
  else (.error (unrecognized text k), k)

def readPoint (k : Cursor) : Option (TokenKind × Cursor) :=
  if (k.peek 1).any Char.isDigit then readNumber text k else return k.readOne (.symbol .dot)

/-- The readers that only look ahead byte by byte take no index that could be out of range. -/
def scanToken (k : Cursor) : Option (Except Fault TokenKind × Cursor) := do
  let b ← byteAt? text k.position.offset
  match Lead.of b with
  | .blank => Cursor.accept <$> readBlanks text k
  | .dash => Cursor.accept <$> readMinus text k
  | .hash => Cursor.accept <$> readLineComment text 1 k
  | .slash => Cursor.accept <$> readSlash text k
  | .quote => return k.readLiteral .stringLiteral .string 1 Cursor.closeString
  | .doubleQuote => return k.readLiteral .objectName .quotedName 1 Cursor.closeName
  | .dollar => return readDollar text k
  | .digit => Cursor.accept <$> readNumber text k
  | .point => Cursor.accept <$> readPoint text k
  | .letter => Cursor.accept <$> readWord text k
  | .less | .greater => return Cursor.accept k.readComparison
  | .other =>
    match Symbol.ofChar? b with
    | some s => return Cursor.accept (k.readOne (.symbol s))
    | none => return (.error (unrecognized text k), k)

/-- The token at a position and the position behind it. After a fault the cursor, wherever it has
come to, goes back to the position. -/
def next (p : Position) (index : Nat) : Option (Except LexicalError Token × Position) := do
  if utf8Size text ≤ p.offset then return (.ok (.of .eof [] p index), p)
  let (found, k) ← scanToken text (cursor text p)
  match found with
  | .error fault =>
    let back : Position :=
      { k.position with
        offset := p.offset
        line := p.line
        column := p.column }
    return (.error ⟨fault, p⟩, back)
  | .ok kind =>
    let w ← slice text p.offset k.position.offset
    return (.ok (.of kind w p index), k.position)

def skip (p : Position) : Option Char × Position :=
  match charAt? text p.offset with
  | none => (none, p)
  | some c => (some c, ((cursor text p).advanceBy c.utf8Size).position)

/-- The position at an offset, counted from two slices: all that is before it, and all behind the
last newline of that. -/
def at? (offset : Nat) : Option (Except Error Position) := do
  if utf8Size text < offset ∨ (splitAtByte text offset).isNone then
    return .error (.invalidOffset offset (utf8Size text))
  let before ← slice text 0 offset
  let lineStart := utf8Size (before.reverse.dropWhile (· != '\n')).reverse
  let line ← slice before lineStart (utf8Size before)
  return .ok ⟨1 + before.count '\n', 1 + line.length, offset⟩

end Readers

variable {text before cs : List Char} {c : Char} {p : Position} {k : Cursor}

theorem bytesFrom?_offset (h : k.StandsIn text) :
    bytesFrom? text k.position.offset = some k.bytes := by
  obtain ⟨front, ht, ho⟩ := h
  have hle : front.length ≤ (front ++ k.bytes).length := by simp
  rw [bytesFrom?, ht, ho, if_pos hle, List.drop_left]

theorem countWhile_eq (h : k.StandsIn text) (n : Nat) (q : Char → Bool) :
    countWhile text k n q = some (k.countWhile n q) := by
  obtain ⟨front, ht, ho⟩ := h
  have hdrop : (front ++ k.bytes).drop (min (front.length + n) (front ++ k.bytes).length) =
      k.bytes.drop n := by
    obtain hn | hn := Nat.le_total n k.bytes.length
    · rw [Nat.min_eq_left (by simpa using hn), List.drop_length_add_append]
    · -- beyond the end both sides have no bytes
      rw [Nat.min_eq_right (by simpa using hn), List.drop_length, List.drop_eq_nil_of_le hn]
  rw [countWhile, bytesFrom?, if_pos (Nat.min_le_right _ _), ht, ho, hdrop]
  rfl

theorem readBlanks_eq (h : k.StandsIn text) : readBlanks text k = some k.readBlanks := by
  rw [readBlanks, countWhile_eq h]
  rfl

theorem passLine_eq (h : k.StandsIn text) : passLine text k = some k.passLine := by
  rw [passLine, countWhile_eq h]
  rfl

theorem readLineComment_eq (h : k.StandsIn text) (opening : Nat) :
    readLineComment text opening k = some (k.readLineComment opening) := by
  rw [readLineComment, passLine_eq (h.advanceBy opening)]
  rfl

theorem exponentBytes?_eq (h : k.StandsIn text) :
    exponentBytes? text k = some k.exponentBytes? := by
  unfold exponentBytes? Cursor.exponentBytes?
  split
  · dsimp only
    rw [countWhile_eq h]
    rfl
  · rfl

theorem readExponent_eq (h : k.StandsIn text) (kind : TokenKind) :
    readExponent text kind k = some (k.readExponent kind) := by
  rw [readExponent, exponentBytes?_eq h, Cursor.readExponent]
  cases k.exponentBytes? <;> rfl

theorem readFraction_eq (h : k.StandsIn text) (whole : Nat) :
    readFraction text whole k = some (k.readFraction whole) := by
  unfold readFraction Cursor.readFraction
  by_cases hp : k.peek 0 = some '.'
  · rw [if_pos hp, countWhile_eq h]
    by_cases hd : 0 < whole ∨ 0 < k.countWhile 1 Char.isDigit
    · rw [if_pos ⟨hp, hd⟩, ← readExponent_eq (h.advanceBy _)]
      exact if_pos hd
    · -- a point with no digit on either side stays where it is
      rw [if_neg fun h => hd h.2, if_neg fun h => hd (.inl h)]
      exact if_neg hd
  · have hn : ¬ (k.peek 0 = some '.' ∧ (0 < whole ∨ 0 < k.countWhile 1 Char.isDigit)) :=
      fun h => hp h.1
    rw [if_neg hp, if_neg hn, readExponent_eq h]
    split <;> rfl

theorem readDecimalOrFloat_eq (h : k.StandsIn text) :
    readDecimalOrFloat text k = some k.readDecimalOrFloat := by
  rw [readDecimalOrFloat, countWhile_eq h]
  exact readFraction_eq (h.advanceBy _) _

theorem uuidAhead_eq (h : k.StandsIn text) : uuidAhead text k = some k.uuidAhead := by
  rw [uuidAhead, bytesFrom?_offset h, Cursor.uuidAhead]
  by_cases hl : k.bytes.length < Cursor.uuidLength
  · rw [decide_eq_false (Nat.not_le.2 hl)]
    exact if_pos hl
  · have hw : window? k.bytes Cursor.uuidLength = some (k.bytes.take Cursor.uuidLength) :=
      if_pos (Nat.not_lt.1 hl)
    rw [decide_eq_true (Nat.not_lt.1 hl)]
    refine (if_neg hl).trans ?_
    rw [hw]
    rfl

theorem hexBytes?_eq (h : k.StandsIn text) : hexBytes? text k = some k.hexBytes? := by
  unfold hexBytes? Cursor.hexBytes?
  split
  · rw [countWhile_eq h]
    rfl
  · rfl

theorem quotedHexBytes?_eq (h : k.StandsIn text) :
    quotedHexBytes? text k = some k.quotedHexBytes? := by
  unfold quotedHexBytes? Cursor.quotedHexBytes?
  split
  · rw [countWhile_eq h]
    rfl
  · rfl

theorem readNumber_eq (h : k.StandsIn text) : readNumber text k = some k.readNumber := by
  rw [readNumber, uuidAhead_eq h, hexBytes?_eq h, readDecimalOrFloat_eq h, Cursor.readNumber]
  cases k.uuidAhead
  · cases k.hexBytes? <;> rfl
  · rfl

theorem slice_here (ht : text = before ++ cs) (hp : p.offset = utf8Size before) (n : Nat) :
    slice text p.offset (p.offset + n) = (splitAtByte cs n).map Prod.fst := by
  simp [slice, ht, hp]

theorem readIdentifier_eq (ht : text = before ++ cs) (hp : p.offset = utf8Size before) :
    readIdentifier text (.ofText cs p) = some (Cursor.readIdentifier cs p) := by
  have hword := slice_here ht hp ((Cursor.ofText cs p).countWhile 0 isWordChar)
  rw [← Option.some_get (Cursor.isSome_word cs p), Option.map_some] at hword
  rw [readIdentifier, countWhile_eq (.ofText ht hp)]
  exact congrArg (Option.bind · _) hword

theorem readWord_eq (ht : text = before ++ cs) (hp : p.offset = utf8Size before) :
    readWord text (.ofText cs p) = some (Cursor.readWord cs p) := by
  have h : (Cursor.ofText cs p).StandsIn text := .ofText ht hp
  rw [readWord, uuidAhead_eq h, quotedHexBytes?_eq h, readIdentifier_eq ht hp, Cursor.readWord]
  cases (Cursor.ofText cs p).uuidAhead
  · cases (Cursor.ofText cs p).quotedHexBytes? <;> rfl
  · rfl

theorem readMinus_eq (h : k.StandsIn text) : readMinus text k = some k.readMinus := by
  rw [readMinus, readLineComment_eq h, readDecimalOrFloat_eq h.advance, Cursor.readMinus]
  split
  · split <;> rfl
  · split <;> rfl

theorem readSlash_eq (h : k.StandsIn text) : readSlash text k = some k.readSlash := by
  rw [readSlash, readLineComment_eq h, Cursor.readSlash]
  split
  · rfl
  · split <;> rfl

theorem readPoint_eq (h : k.StandsIn text) : readPoint text k = some k.readPoint := by
  rw [readPoint, readNumber_eq h, Cursor.readPoint]
  split <;> rfl

theorem charAt?_eq (ht : text = before ++ cs) (hp : p.offset = utf8Size before) :
    charAt? text p.offset = cs.head? := by
  simp [charAt?, ht, hp]

theorem byteAt?_eq (ht : text = before ++ c :: cs) (hp : p.offset = utf8Size before) :
    byteAt? text p.offset = some (Cursor.firstByte c) := by
  obtain ⟨b, bs, he⟩ := List.exists_cons_of_ne_nil (utf8EncodeChar_ne_nil c)
  have hb : Cursor.firstByte c = Char.ofUInt8 b := by simp [Cursor.firstByte, he]
  have hu : utf8 (c :: cs) = b :: (bs ++ utf8 cs) := by
    rw [utf8, List.flatMap_cons, he]
    rfl
  rw [byteAt?, hp, ht, utf8_append, ← length_utf8, List.getElem?_append_right (Nat.le_refl _),
    Nat.sub_self, hu, hb]
  rfl

/-- The replacement is never used. -/
theorem unrecognized_eq (ht : text = before ++ c :: cs) (hp : p.offset = utf8Size before) :
    unrecognized text (.ofText (c :: cs) p) = .unrecognized c := by
  have h : charAt? text (Cursor.ofText (c :: cs) p).position.offset = some c := charAt?_eq ht hp
  rw [unrecognized, h]
  rfl

/-- Inside a character it would be. -/
example : next ['é'] ⟨1, 1, 1⟩ 0 =
    some (.error ⟨.unrecognized '\uFFFD', ⟨1, 1, 1⟩⟩, ⟨1, 1, 1⟩) := rfl

theorem readDollar_eq (ht : text = before ++ '$' :: cs) (hp : p.offset = utf8Size before) :
    readDollar text (.ofText ('$' :: cs) p) = (Cursor.ofText ('$' :: cs) p).readDollar := by
  rw [readDollar, unrecognized_eq ht hp, Cursor.readDollar]

theorem scanToken_eq (ht : text = before ++ c :: cs) (hp : p.offset = utf8Size before) :
    scanToken text (.ofText (c :: cs) p) = some (Cursor.scanToken c cs p) := by
  have h : (Cursor.ofText (c :: cs) p).StandsIn text := .ofText ht hp
  have hb : byteAt? text (Cursor.ofText (c :: cs) p).position.offset =
      some (Cursor.firstByte c) := byteAt?_eq ht hp
  rw [scanToken, hb, readBlanks_eq h, readMinus_eq h, readLineComment_eq h, readSlash_eq h,
    readNumber_eq h, readPoint_eq h, readWord_eq ht hp, unrecognized_eq ht hp, Cursor.scanToken]
  dsimp only [Option.bind_eq_bind, Option.bind_some]
  cases hl : Lead.of (Cursor.firstByte c)
  case dollar =>
    -- a lone dollar is a fault at the character here, which the lead says is the dollar
    rw [Cursor.lead_firstByte] at hl
    obtain rfl : c = '$' := Lead.eq_of_char? (congrArg Lead.char? hl)
    exact congrArg some (readDollar_eq ht hp)
  case other => cases Symbol.ofChar? (Cursor.firstByte c) <;> rfl
  all_goals rfl

theorem cursor_eq (h : k.StandsIn text) : cursor text k.position = k := by
  obtain ⟨front, ht, ho⟩ := h
  rw [cursor, ht, ho, List.drop_left]

variable {l : Lexer}

/-- Wherever a lexer stands, a scan is in range, and a token is cut out between characters. -/
theorem next_eq (hl : l.StandsIn text) :
    next text l.position l.index = some (l.next.result, l.next.lexer.position) := by
  obtain ⟨before, ht, hafter⟩ := id hl
  have hp : l.position.offset = utf8Size before := by simp [hafter]
  cases hr : l.rest with
  | nil =>
    have hend : utf8Size text ≤ l.position.offset := Nat.le_of_eq (hl.offset_eq hr).symm
    rw [Lexer.next_of_nil hr]
    simp only [Lexer.endToken, Lexer.token, hr]
    exact if_pos hend
  | cons c cs =>
    have hin : ¬ utf8Size text ≤ l.position.offset := Nat.not_le.2 (hl.offset_lt (by simp [hr]))
    have hk : cursor text l.position = .ofText (c :: cs) l.position :=
      cursor_eq (.ofText (hr ▸ ht) hp)
    refine (if_neg hin).trans ?_
    rw [hk, scanToken_eq (hr ▸ ht) hp]
    rw [Cursor.scanToken_eq]
    cases hx : scan (c :: cs) with
    | error fault =>
      rw [Lexer.next_of_error (hr ▸ hx)]
      rfl
    | ok x =>
      -- the bytes end where the scan over characters does, so the cut is between characters
      have hcut := hl.slice_eq (List.take_append_drop x.length l.rest).symm
      rw [← Position.offset_advance, hr] at hcut
      rw [Lexer.next_of_ok (by simp [hr]) (hr ▸ hx)]
      refine (congrArg (Option.bind · _) hcut).trans ?_
      simp only [Lexer.token, Lexer.pass, hr]
      rfl

theorem skip_eq (hl : l.StandsIn text) :
    skip text l.position = (l.skip.result, l.skip.lexer.position) := by
  obtain ⟨before, ht, hafter⟩ := id hl
  have hp : l.position.offset = utf8Size before := by simp [hafter]
  rw [skip, charAt?_eq ht hp, Lexer.skip]
  cases hr : l.rest with
  | nil => rfl
  | cons c cs =>
    have hk : cursor text l.position = .ofText (c :: cs) l.position :=
      cursor_eq (.ofText (hr ▸ ht) hp)
    have ha := Cursor.advanceBy_cons c cs l.position
    rw [← hk] at ha
    simp only [List.head?_cons, ha]
    rfl

theorem slice_lastLine (cs : List Char) :
    slice cs (utf8Size (cs.reverse.dropWhile (· != '\n')).reverse) (utf8Size cs) =
      some (Position.lastLine cs) := by
  have hsplit : (cs.reverse.dropWhile (· != '\n')).reverse ++ Position.lastLine cs = cs := by
    rw [Position.lastLine, ← List.reverse_append, List.takeWhile_append_dropWhile,
      List.reverse_reverse]
  have h := slice_append (cs.reverse.dropWhile (· != '\n')).reverse (Position.lastLine cs) []
  rwa [List.append_nil, ← utf8Size_append, hsplit] at h

theorem at?_eq (text : List Char) (offset : Nat) :
    at? text offset = some ((Lexer.at? text offset).map Lexer.position) := by
  rw [at?, Lexer.at?]
  cases hs : splitAtByte text offset with
  | none => exact if_pos (.inr rfl)
  | some s =>
    obtain ⟨before, rest⟩ := s
    obtain ⟨rfl, rfl⟩ := splitAtByte_eq_some hs
    have hin : ¬ (utf8Size (before ++ rest) < utf8Size before ∨
        (some (before, rest)).isNone = true) := by
      simp
    have hbefore : slice (before ++ rest) 0 (utf8Size before) = some before := by
      have h := slice_append [] before rest
      rwa [utf8Size_nil, Nat.zero_add] at h
    refine (if_neg hin).trans ((congrArg (Option.bind · _) hbefore).trans ?_)
    exact congrArg (Option.bind · _) (slice_lastLine before)

end Indexed
end Cql
