import Cql.Cursor.Number
import Cql.Scan.Word

/-!
The readers of what begins with a digit or a letter.
-/
namespace Cql.Cursor
open Scan

def uuidLength : Nat := 36

def isUuidByte (i : Nat) (c : Char) : Bool :=
  if i = 8 ∨ i = 13 ∨ i = 18 ∨ i = 23 then c = '-' else isHexDigit c

def uuidAhead (k : Cursor) : Bool :=
  uuidLength ≤ k.bytes.length &&
    (k.bytes.take uuidLength).zipIdx.all fun x => isUuidByte x.2 (Char.ofUInt8 x.1)

def hexBytes? (k : Cursor) : Option Nat :=
  if k.peek 0 = some '0' ∧ (k.peek 1 = some 'x' ∨ k.peek 1 = some 'X') then
    let n := k.countWhile 2 isHexDigit
    if 0 < n then some (2 + n) else none
  else none

def quotedHexBytes? (k : Cursor) : Option Nat :=
  if (k.peek 0 = some 'x' ∨ k.peek 0 = some 'X') ∧ k.peek 1 = some '\'' then
    let n := k.countWhile 2 isHexDigit
    if k.peek (2 + n) = some '\'' ∧ 0 < n ∧ n % 2 = 0 then some (3 + n) else none
  else none

def readNumber (k : Cursor) : TokenKind × Cursor :=
  if k.uuidAhead then (.uuidLiteral, k.advanceBy uuidLength)
  else match k.hexBytes? with
    | some n => (.hexadecimalLiteral, k.advanceBy n)
    | none => k.readDecimalOrFloat

theorem isWordChar_blind : Blind isWordChar := blind_of_ascii fun _ h => toNat_of_isWordChar h

theorem isSome_word (cs : List Char) (p : Position) :
    (splitAtByte cs ((ofText cs p).countWhile 0 isWordChar)).isSome := by
  rw [splitAtByte_countWhile isWordChar_blind]
  rfl

/-- The word is cut out of the text to be looked up. -/
def readIdentifier (cs : List Char) (p : Position) : TokenKind × Cursor :=
  let k := ofText cs p
  let n := k.countWhile 0 isWordChar
  (wordKind ((splitAtByte cs n).get (isSome_word cs p)).1, k.advanceBy n)

def readWord (cs : List Char) (p : Position) : TokenKind × Cursor :=
  let k := ofText cs p
  if k.uuidAhead then (.uuidLiteral, k.advanceBy uuidLength)
  else match k.quotedHexBytes? with
    | some n => (.hexadecimalLiteral, k.advanceBy n)
    | none => readIdentifier cs p

variable {cs : List Char} {p : Position}

theorem isHexDigit_ascii (c : Char) (h : isHexDigit c = true) : c.toNat < 128 := by
  simp only [isHexDigit, Bool.or_eq_true, Bool.and_eq_true, decide_eq_true_eq, Char.le_def,
    UInt32.le_iff_toNat_le] at h
  obtain (h | ⟨-, h⟩) | ⟨-, h⟩ := h
  · exact isDigit_ascii c h
  · exact Nat.lt_of_le_of_lt h (by decide)
  · exact Nat.lt_of_le_of_lt h (by decide)

theorem uuidShape_eq : uuidShape = (List.range' 0 uuidLength).map isUuidByte := rfl

theorem frontMatches_range (cs : List Char) (start n : Nat) :
    frontMatches ((List.range' start n).map isUuidByte) cs =
      (decide (n ≤ cs.length) && ((cs.take n).zipIdx start).all fun x => isUuidByte x.2 x.1) := by
  induction n generalizing cs start with
  | zero => simp [frontMatches]
  | succ n ih =>
    cases cs with
    | nil => simp [List.range'_succ, frontMatches]
    | cons c cs =>
      rw [List.range'_succ, List.map_cons, frontMatches, ih]
      simp [List.zipIdx_cons, Bool.and_left_comm]

theorem frontMatches_utf8 {ps : List (Char → Bool)} (h : ∀ q ∈ ps, ∀ c, q c = true → c.toNat < 128)
    (cs : List Char) : frontMatches ps ((utf8 cs).map Char.ofUInt8) = frontMatches ps cs := by
  induction ps generalizing cs with
  | nil => rfl
  | cons q ps ih =>
    obtain ⟨hq, hps⟩ := List.forall_mem_cons.1 h
    cases cs with
    | nil => rfl
    | cons c cs =>
      by_cases hc : c.toNat < 128
      · obtain ⟨b, he, hb⟩ := utf8EncodeChar_of_ascii hc
        have hu : (utf8 (c :: cs)).map Char.ofUInt8 = c :: (utf8 cs).map Char.ofUInt8 := by
          rw [utf8, List.flatMap_cons, he, ← hb]
          rfl
        rw [hu, frontMatches, frontMatches, ih hps]
      · obtain ⟨b, bs, he⟩ := List.exists_cons_of_ne_nil (utf8EncodeChar_ne_nil c)
        have hn : q c = false := eq_false_of_ne_true fun h => hc (hq c h)
        have hb : q (Char.ofUInt8 b) = false :=
          ((blind_of_ascii hq).byte (he ▸ List.mem_cons_self)).trans hn
        have hu : (utf8 (c :: cs)).map Char.ofUInt8 =
            Char.ofUInt8 b :: (bs ++ utf8 cs).map Char.ofUInt8 := by
          rw [utf8, List.flatMap_cons, he]
          rfl
        rw [hu, frontMatches, frontMatches, hn, hb, Bool.false_and, Bool.false_and]

theorem isUuidByte_ascii (i : Nat) (c : Char) (h : isUuidByte i c = true) : c.toNat < 128 := by
  unfold isUuidByte at h
  split at h
  · rw [of_decide_eq_true h]
    decide
  · exact isHexDigit_ascii c h

theorem uuidShape_ascii : ∀ q ∈ uuidShape, ∀ c, q c = true → c.toNat < 128 := by
  rw [uuidShape_eq]
  intro q hq
  obtain ⟨i, -, rfl⟩ := List.mem_map.1 hq
  exact isUuidByte_ascii i

theorem uuidAhead_eq (cs : List Char) (p : Position) : (ofText cs p).uuidAhead = startsUuid cs := by
  rw [startsUuid, ← frontMatches_utf8 uuidShape_ascii, uuidShape_eq, frontMatches_range, uuidAhead,
    List.length_map, ← List.map_take, List.zipIdx_map, List.all_map]
  rfl

theorem countWhile_hex (cs : List Char) (p : Position) :
    (ofText cs p).countWhile 0 isHexDigit = runLength isHexDigit cs :=
  countWhile_run isHexDigit_ascii cs p

theorem peek_ex (cs : List Char) (p : Position) :
    (ofText cs p).peek 0 = some 'x' ∨ (ofText cs p).peek 0 = some 'X' ↔
      ∃ x rest, cs = x :: rest ∧ x.toNat < 128 ∧ (x = 'x' ∨ x = 'X') := by
  rw [peek_zero (by decide), peek_zero (by decide)]
  constructor
  · intro h
    obtain h | h := h
    · obtain ⟨rest, rfl⟩ := List.head?_eq_some_iff.1 h
      exact ⟨'x', rest, rfl, by decide, .inl rfl⟩
    · obtain ⟨rest, rfl⟩ := List.head?_eq_some_iff.1 h
      exact ⟨'X', rest, rfl, by decide, .inr rfl⟩
  · intro h
    obtain ⟨x, rest, rfl, -, hx⟩ := h
    exact hx.imp (congrArg some) (congrArg some)

theorem ascii_ex {x : Char} (hx : x = 'x' ∨ x = 'X') : x.toNat < 128 := by
  obtain rfl | rfl := hx <;> decide

theorem hexBytes?_eq (cs : List Char) (p : Position) :
    (ofText cs p).hexBytes? = hexNumber? cs := by
  unfold hexBytes? hexNumber?
  split
  case isTrue h =>
    rw [peek_zero (by decide)] at h
    obtain ⟨h0, hx⟩ := h
    obtain ⟨cs, rfl⟩ := List.head?_eq_some_iff.1 h0
    rw [peek_succ (by decide), peek_ex] at hx
    obtain ⟨x, rest, rfl, hx', hx⟩ := hx
    rw [countWhile_succ (by decide), countWhile_succ hx', countWhile_hex]
    simp [hx, Nat.pos_iff_ne_zero, Nat.add_comm]
  case isFalse h =>
    split
    · rename_i x cs
      have hx : ¬ (x = 'x' ∨ x = 'X') := by
        intro hx
        refine h ⟨(peek_zero (by decide)).2 rfl, ?_⟩
        rw [peek_succ (by decide), peek_ex]
        exact ⟨x, cs, rfl, ascii_ex hx, hx⟩
      simp [hx]
    · rfl

theorem quotedHexBytes?_eq (cs : List Char) (p : Position) :
    (ofText cs p).quotedHexBytes? = quotedHex? cs := by
  unfold quotedHexBytes? quotedHex?
  split
  case isTrue h =>
    rw [peek_ex] at h
    obtain ⟨⟨x, rest, rfl, hx', hx⟩, hq⟩ := h
    rw [peek_succ hx', peek_zero (by decide)] at hq
    obtain ⟨rest, rfl⟩ := List.head?_eq_some_iff.1 hq
    have hc : (ofText (x :: '\'' :: rest) p).countWhile 2 isHexDigit =
        runLength isHexDigit rest := by
      rw [countWhile_succ hx', countWhile_succ (by decide), countWhile_hex]
    have hp : (ofText (x :: '\'' :: rest) p).peek (2 + runLength isHexDigit rest) = some '\'' ↔
        rest[runLength isHexDigit rest]? = some '\'' := by
      rw [Nat.add_comm, peek_succ hx', peek_succ (by decide),
        peek_drop (run_ascii isHexDigit_ascii) (runLength_le _ rest) p p, peek_zero (by decide),
        List.head?_drop]
    simp only [hc, hp]
    simp [hx, Nat.pos_iff_ne_zero, Nat.add_comm]
  case isFalse h =>
    split
    · rename_i x cs
      have hx : ¬ (x = 'x' ∨ x = 'X') := by
        intro hx
        refine h ⟨(peek_ex _ p).2 ⟨x, _, rfl, ascii_ex hx, hx⟩, ?_⟩
        rw [peek_succ (ascii_ex hx), peek_zero (by decide)]
        rfl
      simp [hx]
    · rfl

theorem frontMatches_ascii {ps : List (Char → Bool)}
    (h : ∀ q ∈ ps, ∀ c, q c = true → c.toNat < 128) {cs : List Char}
    (hm : frontMatches ps cs = true) : ∀ c ∈ cs.take ps.length, c.toNat < 128 := by
  induction ps generalizing cs with
  | nil => exact fun c hc => by cases hc
  | cons q ps ih =>
    obtain ⟨hq, hps⟩ := List.forall_mem_cons.1 h
    cases cs with
    | nil => exact fun c hc => by cases hc
    | cons c cs =>
      rw [frontMatches, Bool.and_eq_true] at hm
      exact List.forall_mem_cons.2 ⟨hq c hm.1, ih hps hm.2⟩

theorem advanceBy_uuid (h : startsUuid cs = true) :
    (ofText cs p).advanceBy uuidLength = behind cs p uuidShape.length :=
  advanceBy_front (frontMatches_ascii uuidShape_ascii h) (frontMatches_le h) p

theorem advanceBy_hex {n : Nat} (h : hexNumber? cs = some n) :
    (ofText cs p).advanceBy n = behind cs p n := by
  refine advanceBy_front ?_ (hexNumber?_le h) p
  obtain ⟨x, rest, rfl, hx, -, rfl⟩ := hexNumber?_eq_some.1 h
  refine List.forall_mem_cons.2 ⟨by decide, List.forall_mem_cons.2 ⟨ascii_ex hx, ?_⟩⟩
  exact run_ascii isHexDigit_ascii

theorem advanceBy_quotedHex {n : Nat} (h : quotedHex? cs = some n) :
    (ofText cs p).advanceBy n = behind cs p n := by
  refine advanceBy_front ?_ (quotedHex?_le h) p
  obtain ⟨x, rest, rfl, hx, hq, -, -, rfl⟩ := quotedHex?_eq_some.1 h
  refine List.forall_mem_cons.2 ⟨ascii_ex hx, List.forall_mem_cons.2 ⟨by decide, ?_⟩⟩
  rw [List.take_add_one, hq]
  exact List.forall_mem_append.2 ⟨run_ascii isHexDigit_ascii, by simp⟩

theorem readNumber_eq (h : 0 < digits cs ∨ ∃ c rest, cs = '.' :: c :: rest ∧ c.isDigit = true)
    (p : Position) : readNumber (ofText cs p) = (numeric cs).found cs p := by
  rw [readNumber, numeric, uuidAhead_eq, hexBytes?_eq]
  split
  case isTrue hu => exact congrArg _ (advanceBy_uuid hu)
  case isFalse =>
    cases hx : hexNumber? cs with
    | some n => exact congrArg _ (advanceBy_hex hx)
    | none => exact readDecimalOrFloat_eq h p

theorem readIdentifier_eq (cs : List Char) (p : Position) : readIdentifier cs p =
    Lexeme.found ⟨wordKind (cs.takeWhile isWordChar), runLength isWordChar cs⟩ cs p := by
  have hk : (ofText cs p).advanceBy ((ofText cs p).countWhile 0 isWordChar) =
      behind cs p (runLength isWordChar cs) := by
    have ha (c : Char) (h : isWordChar c = true) : c.toNat < 128 := toNat_of_isWordChar h
    rw [countWhile_run ha, advanceBy_front (run_ascii ha) (runLength_le _ cs)]
  simp only [readIdentifier, hk, splitAtByte_countWhile isWordChar_blind, Option.get_some]
  rfl

theorem readWord_eq (cs : List Char) (p : Position) : readWord cs p = (word cs).found cs p := by
  rw [readWord, word, uuidAhead_eq, quotedHexBytes?_eq]
  split
  case isTrue hu => exact congrArg _ (advanceBy_uuid hu)
  case isFalse =>
    cases hx : quotedHex? cs with
    | some n => exact congrArg _ (advanceBy_quotedHex hx)
    | none => exact readIdentifier_eq cs p

end Cql.Cursor
