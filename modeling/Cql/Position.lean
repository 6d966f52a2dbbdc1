/-!
Places in a text. `Position.advance` counts on from a place byte by byte, `Position.after` counts
the characters of a whole text at once, and the two agree. `splitAtByte` finds the place that a byte
offset names.
-/
namespace Cql

/-- Lines and columns count from one, columns in characters; the offset counts bytes of UTF-8. -/
structure Position where
  line : Nat
  column : Nat
  offset : Nat
deriving DecidableEq

def utf8 (cs : List Char) : List UInt8 := cs.flatMap String.utf8EncodeChar

def utf8Size (cs : List Char) : Nat := (utf8 cs).length

@[simp] theorem utf8Size_nil : utf8Size [] = 0 := rfl

@[simp] theorem utf8Size_cons (c : Char) (cs : List Char) :
    utf8Size (c :: cs) = c.utf8Size + utf8Size cs := by
  simp [utf8Size, utf8]

theorem utf8Size_singleton (c : Char) : utf8Size [c] = c.utf8Size :=
  utf8Size_cons c []

@[simp] theorem utf8Size_append (xs ys : List Char) :
    utf8Size (xs ++ ys) = utf8Size xs + utf8Size ys := by
  simp [utf8Size, utf8]

theorem utf8Size_pos {cs : List Char} (h : cs ≠ []) : 0 < utf8Size cs := by
  cases cs with
  | nil => exact absurd rfl h
  | cons c cs => exact utf8Size_cons c cs ▸ Nat.add_pos_left c.utf8Size_pos _

namespace Position

def start : Position := ⟨1, 1, 0⟩

/-- Every byte of UTF-8 moves the offset. A newline starts a line, and a continuation byte starts no
character. -/
def nextByte (p : Position) (b : UInt8) : Position :=
  if b = 10 then ⟨p.line + 1, 1, p.offset + 1⟩
  else if b &&& 0xC0 = 0x80 then ⟨p.line, p.column, p.offset + 1⟩
  else ⟨p.line, p.column + 1, p.offset + 1⟩

def next (p : Position) (c : Char) : Position := (String.utf8EncodeChar c).foldl nextByte p

def advance (p : Position) (cs : List Char) : Position := cs.foldl next p

theorem nextByte_ascii (p : Position) {v : Nat} (hv : v ≤ 0x7F) :
    p.nextByte (UInt8.ofNat v) =
      if v = 10 then ⟨p.line + 1, 1, p.offset + 1⟩ else ⟨p.line, p.column + 1, p.offset + 1⟩ := by
  have h : ∀ r < 0x80, (UInt8.ofNat r = 10 ↔ r = 10) ∧ UInt8.ofNat r &&& 0xC0 ≠ 0x80 := by decide
  obtain ⟨hn, hc⟩ := h v (by omega)
  rw [nextByte, if_neg hc]
  simp only [hn]

theorem nextByte_lead (p : Position) {v : Nat} (hl : 0xC0 ≤ v) (hv : v < 0x100) :
    p.nextByte (UInt8.ofNat v) = ⟨p.line, p.column + 1, p.offset + 1⟩ := by
  have h : ∀ r < 0x40, UInt8.ofNat (r + 0xC0) ≠ 10 ∧ UInt8.ofNat (r + 0xC0) &&& 0xC0 ≠ 0x80 := by
    decide
  obtain ⟨hn, hc⟩ := h (v - 0xC0) (by omega)
  rw [Nat.sub_add_cancel hl] at hn hc
  rw [nextByte, if_neg hn, if_neg hc]

theorem nextByte_continuation (p : Position) (v : Nat) :
    p.nextByte (UInt8.ofNat (v % 0x40 + 0x80)) = ⟨p.line, p.column, p.offset + 1⟩ := by
  have h : ∀ r < 0x40, UInt8.ofNat (r + 0x80) ≠ 10 ∧ UInt8.ofNat (r + 0x80) &&& 0xC0 = 0x80 := by
    decide
  obtain ⟨hn, hc⟩ := h (v % 0x40) (Nat.mod_lt v (by decide))
  rw [nextByte, if_neg hn, if_pos hc]

@[simp] theorem offset_nextByte (p : Position) (b : UInt8) :
    (p.nextByte b).offset = p.offset + 1 := by
  unfold nextByte
  split
  · rfl
  · split <;> rfl

/-- The bytes of one character count as one character. -/
theorem next_eq (p : Position) (c : Char) : p.next c =
    if c = '\n' then ⟨p.line + 1, 1, p.offset + c.utf8Size⟩
    else ⟨p.line, p.column + 1, p.offset + c.utf8Size⟩ := by
  have hn : c = '\n' ↔ c.val.toNat = 10 := by
    rw [Char.ext_iff, ← UInt32.toNat_inj]; rfl
  rw [← String.length_utf8EncodeChar, next]
  simp only [hn]
  fun_cases String.utf8EncodeChar c with
  | case1 v h => exact nextByte_ascii p h
  | case2 v h _ | case3 v _ h _ | case4 v _ _ h =>
    rw [if_neg (by omega)]
    simp only [List.foldl, nextByte_continuation]
    rw [nextByte_lead p (by omega) (by omega)]
    rfl

@[simp] theorem offset_next (p : Position) (c : Char) :
    (p.next c).offset = p.offset + c.utf8Size := by
  rw [next_eq]; split <;> rfl

@[simp] theorem offset_advance (p : Position) (cs : List Char) :
    (p.advance cs).offset = p.offset + utf8Size cs := by
  induction cs generalizing p with
  | nil => rfl
  | cons c cs ih => simpa [advance, Nat.add_assoc] using ih (p.next c)

def lastLine (cs : List Char) : List Char := (cs.reverse.takeWhile (· != '\n')).reverse

/-- The place reached by reading all of a text from its start. -/
def after (cs : List Char) : Position :=
  ⟨1 + cs.count '\n', 1 + (lastLine cs).length, utf8Size cs⟩

@[simp] theorem offset_after (cs : List Char) : (after cs).offset = utf8Size cs := rfl

theorem lastLine_concat (cs : List Char) (c : Char) :
    lastLine (cs ++ [c]) = if c = '\n' then [] else lastLine cs ++ [c] := by
  by_cases h : c = '\n' <;> simp [lastLine, h]

@[simp] theorem next_after (cs : List Char) (c : Char) : (after cs).next c = after (cs ++ [c]) := by
  rw [next_eq, after, after, lastLine_concat]
  by_cases h : c = '\n' <;> simp [h, Nat.add_assoc]

@[simp] theorem advance_after (before cs : List Char) :
    (after before).advance cs = after (before ++ cs) := by
  induction cs generalizing before with
  | nil => simp [advance]
  | cons c cs ih => simpa [advance] using ih (before ++ [c])

@[simp] theorem advance_start (cs : List Char) : start.advance cs = after cs := advance_after [] cs

def display (p : Position) : String := toString p.line ++ ":" ++ toString p.column

end Position

/-- The text before a byte offset and the text from there on. There is none inside a character or
beyond the end. -/
def splitAtByte : List Char → Nat → Option (List Char × List Char)
  | cs, 0 => some ([], cs)
  | [], _ => none
  | c :: cs, n =>
    if c.utf8Size ≤ n then (splitAtByte cs (n - c.utf8Size)).map fun s => (c :: s.1, s.2) else none

theorem splitAtByte_eq_some {cs before rest : List Char} {n : Nat}
    (h : splitAtByte cs n = some (before, rest)) : cs = before ++ rest ∧ utf8Size before = n := by
  induction cs generalizing n before with
  | nil =>
    cases n with
    | zero => simp [splitAtByte] at h; simp [h]
    | succ n => simp [splitAtByte] at h
  | cons c cs ih =>
    cases n with
    | zero => simp [splitAtByte] at h; simp [h]
    | succ n =>
      simp only [splitAtByte] at h
      split at h
      · obtain ⟨⟨b, r⟩, hs, he⟩ := Option.map_eq_some_iff.1 h
        obtain ⟨rfl, rfl⟩ := Prod.mk.inj he
        obtain ⟨rfl, hn⟩ := ih hs
        simp at hn ⊢
        omega
      · cases h

@[simp] theorem splitAtByte_append (before rest : List Char) :
    splitAtByte (before ++ rest) (utf8Size before) = some (before, rest) := by
  induction before with
  | nil => cases rest <;> rfl
  | cons c cs ih =>
    have hp : 0 < c.utf8Size := c.utf8Size_pos
    cases hn : utf8Size (c :: cs) with
    | zero => simp only [utf8Size_cons] at hn; omega
    | succ n =>
      have hc : c.utf8Size ≤ n + 1 := by simp only [utf8Size_cons] at hn; omega
      have hs : n + 1 - c.utf8Size = utf8Size cs := by simp only [utf8Size_cons] at hn; omega
      simp only [List.cons_append, splitAtByte, if_pos hc, hs, ih, Option.map_some]

end Cql
