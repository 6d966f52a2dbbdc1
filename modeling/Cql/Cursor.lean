import Cql.Scan.Lexeme
import Cql.Utf8

/-!
A cursor that moves over the bytes of a text one at a time, and where among the characters it comes
to stand.
-/
namespace Cql

/-- A place between two bytes: those not read yet, and its position. -/
structure Cursor where
  bytes : List UInt8
  position : Position
deriving DecidableEq

namespace Cursor

def ofText (cs : List Char) (p : Position) : Cursor := ⟨utf8 cs, p⟩

def advance (k : Cursor) : Cursor :=
  match k.bytes with
  | [] => k
  | b :: bs => ⟨bs, k.position.nextByte b⟩

def advanceBy : Nat → Cursor → Cursor
  | 0, k => k
  | n + 1, k => advanceBy n k.advance

def peek (k : Cursor) (n : Nat) : Option Char := k.bytes[n]?.map Char.ofUInt8

def countWhile (k : Cursor) (n : Nat) (p : Char → Bool) : Nat :=
  ((k.bytes.drop n).takeWhile fun b => p (Char.ofUInt8 b)).length

variable {c d : Char} {cs w : List Char} {p : Position} {q : Char → Bool} {n : Nat}

theorem advanceBy_append (bs rest : List UInt8) (p : Position) :
    advanceBy bs.length ⟨bs ++ rest, p⟩ = ⟨rest, bs.foldl Position.nextByte p⟩ := by
  induction bs generalizing p with
  | nil => rfl
  | cons b bs ih => exact ih (p.nextByte b)

@[simp] theorem foldl_utf8 (w : List Char) (p : Position) :
    (utf8 w).foldl Position.nextByte p = p.advance w :=
  List.foldl_flatMap

@[simp] theorem advanceBy_utf8 (w cs : List Char) (p : Position) :
    advanceBy (utf8Size w) (ofText (w ++ cs) p) = ofText cs (p.advance w) := by
  have h := advanceBy_append (utf8 w) (utf8 cs) p
  simpa [ofText] using h

/-- The place behind so many characters of a text. -/
def behind (cs : List Char) (p : Position) (n : Nat) : Cursor :=
  ofText (cs.drop n) (p.advance (cs.take n))

theorem advanceBy_take (cs : List Char) (p : Position) (n : Nat) :
    advanceBy (utf8Size (cs.take n)) (ofText cs p) = behind cs p n := by
  have h := advanceBy_utf8 (cs.take n) (cs.drop n) p
  rwa [List.take_append_drop] at h

theorem advanceBy_add (m n : Nat) (k : Cursor) :
    advanceBy (m + n) k = advanceBy n (advanceBy m k) := by
  induction m generalizing k with
  | zero => rw [Nat.zero_add]; rfl
  | succ m ih => rw [Nat.succ_add]; exact ih k.advance

theorem advanceBy_cons (c : Char) (cs : List Char) (p : Position) :
    advanceBy c.utf8Size (ofText (c :: cs) p) = ofText cs (p.next c) :=
  utf8Size_singleton c ▸ advanceBy_utf8 [c] cs p

theorem advance_cons (hc : c.toNat < 128) :
    (ofText (c :: cs) p).advance = ofText cs (p.next c) := by
  have h := advanceBy_cons c cs p
  obtain ⟨b, he, -⟩ := utf8EncodeChar_of_ascii hc
  rwa [← String.length_utf8EncodeChar, he] at h

theorem behind_cons (c : Char) (cs : List Char) (p : Position) (n : Nat) :
    behind (c :: cs) p (n + 1) = behind cs (p.next c) n := rfl

theorem advanceBy_ascii (hw : ∀ c ∈ w, c.toNat < 128) (cs : List Char) (p : Position) :
    advanceBy w.length (ofText (w ++ cs) p) = ofText cs (p.advance w) := by
  simp [← utf8Size_of_ascii hw]

@[simp] theorem behind_append (w cs : List Char) (p : Position) (n : Nat) :
    behind (w ++ cs) p (n + w.length) = behind cs (p.advance w) n := by
  induction w generalizing p with
  | nil => rfl
  | cons c w ih => exact ih (p.next c)

/-- Where a search for a delimiter ends: behind it if there is one, else at the end of the text. -/
def closing (body : Option Nat) (cs : List Char) (p : Position) : Bool × Cursor :=
  (body.isSome, behind cs p (body.getD cs.length))

theorem closing_append (body : Option Nat) (w cs : List Char) (p : Position) :
    closing (body.map (· + w.length)) (w ++ cs) p = closing body cs (p.advance w) := by
  cases body with
  | none => simp [closing, Nat.add_comm w.length]
  | some n => simp [closing]

theorem behind_behind (cs : List Char) (p : Position) (m n : Nat) :
    behind (cs.drop m) (p.advance (cs.take m)) n = behind cs p (m + n) := by
  rw [behind, behind, List.drop_drop, List.take_add, Position.advance, Position.advance,
    Position.advance, List.foldl_append]

theorem bytes_ofText_cons (c : Char) (cs : List Char) (p : Position) :
    (ofText (c :: cs) p).bytes = String.utf8EncodeChar c ++ (ofText cs p).bytes := rfl

theorem peek_zero_cons (c : Char) (cs : List Char) (p : Position) :
    ∃ b ∈ String.utf8EncodeChar c, (ofText (c :: cs) p).peek 0 = some (Char.ofUInt8 b) := by
  obtain ⟨b, bs, he⟩ := List.exists_cons_of_ne_nil (utf8EncodeChar_ne_nil c)
  refine ⟨b, he ▸ List.mem_cons_self, ?_⟩
  rw [peek, bytes_ofText_cons, he]
  rfl

theorem peek_zero_any (hq : Blind q) (cs : List Char) (p : Position) :
    ((ofText cs p).peek 0).any q = cs.head?.any q := by
  cases cs with
  | nil => rfl
  | cons c cs =>
    obtain ⟨b, hb, he⟩ := peek_zero_cons c cs p
    rw [he]
    exact hq.byte hb

theorem peek_zero (hd : d.toNat < 128) :
    (ofText cs p).peek 0 = some d ↔ cs.head? = some d := by
  have hq : Blind (· == d) := blind_of_ascii fun c hc => by rwa [eq_of_beq hc]
  have hs (o : Option Char) : o.any (· == d) = true ↔ o = some d := by
    cases o <;> simp
  rw [← hs, ← hs, peek_zero_any hq]

theorem peek_zero_eq_none : (ofText cs p).peek 0 = none ↔ cs = [] := by
  cases cs with
  | nil => exact iff_of_true rfl rfl
  | cons c cs =>
    obtain ⟨b, -, he⟩ := peek_zero_cons c cs p
    simp [he]

theorem peek_succ (hc : c.toNat < 128) :
    (ofText (c :: cs) p).peek (n + 1) = (ofText cs p).peek n := by
  obtain ⟨b, he, -⟩ := utf8EncodeChar_of_ascii hc
  rw [peek, bytes_ofText_cons, he]
  rfl

theorem peek_one (hc : c.toNat < 128) (hd : d.toNat < 128) (cs : List Char) (p : Position) :
    (ofText (c :: cs) p).peek 1 = some d ↔ cs.head? = some d := by
  rw [peek_succ hc, peek_zero hd]

theorem countWhile_succ (hc : c.toNat < 128) :
    (ofText (c :: cs) p).countWhile (n + 1) q = (ofText cs p).countWhile n q := by
  obtain ⟨b, he, -⟩ := utf8EncodeChar_of_ascii hc
  rw [countWhile, bytes_ofText_cons, he]
  rfl

theorem countWhile_zero (hq : Blind q) (cs : List Char) (p : Position) :
    (ofText cs p).countWhile 0 q = utf8Size (cs.takeWhile q) := by
  induction cs with
  | nil => rfl
  | cons c cs ih =>
    rw [countWhile, bytes_ofText_cons, List.drop_zero]
    by_cases hc : q c = true
    · rw [List.takeWhile_append_of_pos fun b hb => (hq.byte hb).trans hc, List.length_append,
        String.length_utf8EncodeChar, List.takeWhile_cons_of_pos hc, utf8Size_cons, ← ih]
      rfl
    · obtain ⟨b, bs, he⟩ := List.exists_cons_of_ne_nil (utf8EncodeChar_ne_nil c)
      have hb : ¬ q (Char.ofUInt8 b) = true := by
        rwa [hq.byte (he ▸ List.mem_cons_self : b ∈ String.utf8EncodeChar c)]
      rw [he, List.cons_append, List.takeWhile_cons_of_neg (p := fun b => q (Char.ofUInt8 b)) hb,
        List.takeWhile_cons_of_neg hc]
      rfl

theorem bytes_drop {m : Nat} (h : ∀ c ∈ cs.take m, c.toNat < 128) (hm : m ≤ cs.length)
    (p p' : Position) : (ofText cs p).bytes.drop m = (ofText (cs.drop m) p').bytes := by
  have hl : (utf8 (cs.take m)).length = m := by
    rw [length_utf8, utf8Size_of_ascii h, List.length_take, Nat.min_eq_left hm]
  have hs := utf8_append (cs.take m) (cs.drop m)
  rw [List.take_append_drop] at hs
  rw [ofText, hs]
  exact List.drop_left' hl

theorem countWhile_drop {m : Nat} (h : ∀ c ∈ cs.take m, c.toNat < 128) (hm : m ≤ cs.length)
    (p p' : Position) :
    (ofText cs p).countWhile m q = (ofText (cs.drop m) p').countWhile 0 q := by
  rw [countWhile, bytes_drop h hm p p']
  rfl

theorem peek_drop {m : Nat} (h : ∀ c ∈ cs.take m, c.toNat < 128) (hm : m ≤ cs.length)
    (p p' : Position) : (ofText cs p).peek m = (ofText (cs.drop m) p').peek 0 := by
  rw [peek, peek, ← bytes_drop h hm p p', List.getElem?_drop]
  rfl

theorem advanceBy_front (h : ∀ c ∈ cs.take n, c.toNat < 128) (hn : n ≤ cs.length) (p : Position) :
    (ofText cs p).advanceBy n = behind cs p n := by
  have hl : utf8Size (cs.take n) = n := by
    rw [utf8Size_of_ascii h, List.length_take, Nat.min_eq_left hn]
  rw [← advanceBy_take, hl]

/-- A reader that goes on behind each of some bytes goes on behind them all. -/
theorem pass_append {α : Type} {read : List UInt8 → Position → α} {P : UInt8 → Prop}
    {bs : List UInt8} (hread : ∀ b bs p, P b → read (b :: bs) p = read bs (p.nextByte b))
    (h : ∀ b ∈ bs, P b) (rest : List UInt8) (p : Position) :
    read (bs ++ rest) p = read rest (bs.foldl Position.nextByte p) := by
  induction bs generalizing p with
  | nil => rfl
  | cons b bs ih =>
    obtain ⟨hb, hbs⟩ := List.forall_mem_cons.1 h
    rw [List.cons_append, hread b _ p hb, ih hbs]
    rfl

theorem splitAtByte_countWhile (hq : Blind q) (cs : List Char) (p : Position) :
    splitAtByte cs ((ofText cs p).countWhile 0 q) = some (cs.takeWhile q, cs.dropWhile q) := by
  have h := splitAtByte_append (cs.takeWhile q) (cs.dropWhile q)
  rwa [List.takeWhile_append_dropWhile, ← countWhile_zero hq cs p] at h

theorem take_runLength (q : Char → Bool) (cs : List Char) :
    cs.take (Scan.runLength q cs) = cs.takeWhile q :=
  (List.prefix_iff_eq_take.1 (List.takeWhile_prefix q)).symm

theorem run_ascii (hq : ∀ c, q c = true → c.toNat < 128) :
    ∀ c ∈ cs.take (Scan.runLength q cs), c.toNat < 128 := by
  rw [take_runLength]
  exact fun c hc => hq c (List.all_eq_true.1 List.all_takeWhile c hc)

theorem countWhile_run (hq : ∀ c, q c = true → c.toNat < 128) (cs : List Char) (p : Position) :
    (ofText cs p).countWhile 0 q = Scan.runLength q cs := by
  rw [countWhile_zero (blind_of_ascii hq), ← take_runLength, utf8Size_of_ascii (run_ascii hq),
    take_runLength]
  rfl

end Cursor

/-- The kind of what a scan finds, and the cursor behind it. -/
def Lexeme.found (x : Lexeme) (cs : List Char) (p : Position) : TokenKind × Cursor :=
  (x.kind, Cursor.behind cs p x.length)

end Cql
