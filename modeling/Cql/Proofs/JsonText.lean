import Mathlib.Data.List.Nodup
import Mathlib.Tactic.SplitIfs
import Cql.TokenStream

/-!
The text of a stream tells its tokens. What is written for a value is told from what follows it: a
string ends with the first quote that nothing escapes, and a number before the first character that
is no digit. So the parts of a list or a record are told from its text one after the other,
whatever quotes, brackets and commas the texts of the tokens hold themselves.
-/
namespace Cql
namespace Json
variable {α β : Type} {z : Char} {cs ds r r' x : List Char} {xs ys : List (List Char)}

/-- No number goes on here. -/
def Closed (r : List Char) : Prop := ∀ c ∈ r.head?, c.isDigit = false

/-- Longer texts that begin with the two are the same only if the two are, and their rests are. -/
def Apart (x y : List Char) : Prop :=
  ∀ r r', Closed r → Closed r' → x ++ r = y ++ r' → x = y ∧ r = r'

/-- Values are written so that the text tells the value and where it ends. -/
def Legible (write : α → List Char) : Prop :=
  ∀ a b r r', Closed r → Closed r' → write a ++ r = write b ++ r' → a = b ∧ r = r'

theorem closed_nil : Closed [] := by simp [Closed]

theorem closed_cons (hz : z.isDigit = false) (r : List Char) : Closed (z :: r) := by
  simp [Closed, hz]

namespace Legible
variable {write : α → List Char}

theorem injective (h : Legible write) : Function.Injective write := fun a b he =>
  (h a b [] [] closed_nil closed_nil (congrArg (· ++ []) he)).1

theorem apart (h : Legible write) (a b : α) : Apart (write a) (write b) := by
  intro r r' hr hr' he
  obtain ⟨rfl, rfl⟩ := h a b r r' hr hr' he
  exact ⟨rfl, rfl⟩

theorem comp (h : Legible write) {f : β → α} (hf : Function.Injective f) :
    Legible fun b => write (f b) := by
  intro a b r r' hr hr' he
  obtain ⟨hab, he⟩ := h (f a) (f b) r r' hr hr' he
  exact ⟨hf hab, he⟩

end Legible

theorem takeWhile_natural (n : Nat) (hr : Closed r) :
    (natural n ++ r).takeWhile (·.isDigit) = natural n := by
  have hd (c) (hc : c ∈ natural n) : c.isDigit = true :=
    Nat.isDigit_of_mem_toDigits (by decide) (by decide) hc
  rw [List.takeWhile_append_of_pos hd]
  cases r with
  | nil => simp
  | cons c r => simp [hr c rfl]

theorem natural_injective : Function.Injective natural := by
  intro n m h
  rw [← Nat.ofDigitChars_ten_toDigits (n := n), ← Nat.ofDigitChars_ten_toDigits (n := m)]
  exact congrArg (Nat.ofDigitChars 10 · 0) h

theorem legible_natural : Legible natural := by
  intro n m r r' hr hr' he
  have hn : natural n = natural m := by
    rw [← takeWhile_natural n hr, he, takeWhile_natural m hr']
  rw [hn] at he
  exact ⟨natural_injective hn, List.append_cancel_left he⟩

def unescapeLetter (c : Char) : Char :=
  if c = 'b' then '\x08' else if c = 't' then '\t' else if c = 'n' then '\n'
  else if c = 'f' then '\x0c' else if c = 'r' then '\r' else c

def hexDigit (c : Char) : Nat := if c.isDigit then c.toNat - 48 else c.toNat - 87

def readEscape : List Char → Option (Char × List Char)
  | 'u' :: '0' :: '0' :: h :: l :: r => some (Char.ofNat (16 * hexDigit h + hexDigit l), r)
  | c :: r => some (unescapeLetter c, r)
  | [] => none

/-- The next character of a string, and the rest of the text. A quote ends the string. -/
def readChar : List Char → Option (Char × List Char)
  | [] => none
  | c :: r => if c = '"' then none else if c = '\\' then readEscape r else some (c, r)

theorem hexDigit_digitChar : ∀ n < 16, hexDigit n.digitChar = n := by decide

theorem readChar_escape (c : Char) (r : List Char) : readChar (escape c ++ r) = some (c, r) := by
  unfold escape
  split_ifs with hq hb _ _ _ _ _ hc
  any_goals (subst c; rfl)
  · have hh := hexDigit_digitChar (c.toNat / 16) (by omega)
    have hl := hexDigit_digitChar (c.toNat % 16) (by omega)
    change some (Char.ofNat (16 * hexDigit _ + hexDigit _), r) = _
    rw [hh, hl, Nat.div_add_mod, Char.ofNat_toNat]
  · simp [readChar, hq, hb]

theorem flatMap_escape_inj (h : cs.flatMap escape ++ '"' :: r = ds.flatMap escape ++ '"' :: r') :
    cs = ds ∧ r = r' := by
  have hread := congrArg readChar h
  induction cs generalizing ds with
  | nil =>
    cases ds with
    | nil => exact ⟨rfl, (List.cons.inj h).2⟩
    | cons d ds =>
      rw [List.flatMap_cons, List.append_assoc, readChar_escape] at hread
      cases hread
  | cons c cs ih =>
    rw [List.flatMap_cons, List.append_assoc, readChar_escape] at hread
    cases ds with
    | nil => cases hread
    | cons d ds =>
      rw [List.flatMap_cons, List.append_assoc, readChar_escape] at hread
      obtain ⟨rfl, ht⟩ := Prod.mk.inj (Option.some.inj hread)
      obtain ⟨rfl, hr⟩ := ih ht (congrArg readChar ht)
      exact ⟨rfl, hr⟩

theorem legible_string : Legible string := by
  intro cs ds r r' _ _ he
  apply flatMap_escape_inj
  simpa [string] using he

def Opens (z : Char) (x : List Char) : Prop := ∃ c ∈ x.head?, c ≠ z

theorem Opens.ne (hx : Opens z x) (s r : List Char) : x ++ s ≠ z :: r := by
  intro he
  obtain ⟨c, hc, hn⟩ := hx
  have hh := congrArg List.head? he
  rw [List.head?_append, Option.mem_def.1 hc] at hh
  exact hn (Option.some.inj hh)

theorem flatMap_comma (x : List Char) (xs : List (List Char)) :
    (x :: xs).flatMap (',' :: ·) = ',' :: commaSeparated (x :: xs) := by
  induction xs generalizing x with
  | nil => simp [commaSeparated]
  | cons y ys ih => rw [List.flatMap_cons, ih, commaSeparated, List.cons_append]

theorem flatMap_comma_inj (hz : z.isDigit = false) (hc : z ≠ ',')
    (ha : ∀ p ∈ xs.zip ys, Apart p.1 p.2)
    (he : xs.flatMap (',' :: ·) ++ z :: r = ys.flatMap (',' :: ·) ++ z :: r') :
    xs = ys ∧ r = r' := by
  have hclosed (xs : List (List Char)) (r : List Char) :
      Closed (xs.flatMap (',' :: ·) ++ z :: r) := by
    cases xs <;> exact closed_cons (by first | rfl | exact hz) _
  induction xs generalizing ys with
  | nil =>
    cases ys with
    | nil => exact ⟨rfl, (List.cons.inj he).2⟩
    | cons y ys => exact absurd (List.cons.inj he).1 hc
  | cons x xs ih =>
    cases ys with
    | nil => exact absurd (List.cons.inj he).1.symm hc
    | cons y ys =>
      rw [List.zip_cons_cons, List.forall_mem_cons] at ha
      rw [List.flatMap_cons, List.flatMap_cons, List.append_assoc, List.append_assoc] at he
      obtain ⟨hxy, ht⟩ := ha.1 _ _ (hclosed xs r) (hclosed ys r') (List.cons.inj he).2
      obtain ⟨rfl, hr⟩ := ih ha.2 ht
      exact ⟨congrArg (· :: xs) hxy, hr⟩

/-- Parts that are told apart one by one are told apart with commas between them and a bracket
behind them. -/
theorem commaSeparated_inj (hz : z.isDigit = false) (hc : z ≠ ',')
    (hx : ∀ x ∈ xs, Opens z x) (hy : ∀ y ∈ ys, Opens z y) (ha : ∀ p ∈ xs.zip ys, Apart p.1 p.2)
    (he : commaSeparated xs ++ z :: r = commaSeparated ys ++ z :: r') : xs = ys ∧ r = r' := by
  have hopens {x : List Char} (hx : Opens z x) (xs : List (List Char)) :
      Opens z (commaSeparated (x :: xs)) := by
    obtain ⟨c, hc, hn⟩ := hx
    exact ⟨c, by cases xs <;> simp_all [commaSeparated], hn⟩
  cases xs with
  | nil =>
    cases ys with
    | nil => exact ⟨rfl, (List.cons.inj he).2⟩
    -- no part opens with the bracket that ends the list, so both lists end together
    | cons y ys => exact absurd he.symm ((hopens (hy y (by simp)) ys).ne _ _)
  | cons x xs =>
    cases ys with
    | nil => exact absurd he ((hopens (hx x (by simp)) xs).ne _ _)
    | cons y ys =>
      apply flatMap_comma_inj hz hc ha
      rw [flatMap_comma, flatMap_comma, List.cons_append, List.cons_append, he]

theorem legible_array {write : α → List Char} (h : Legible write)
    (hw : ∀ a, Opens ']' (write a)) : Legible fun as : List α => array (as.map write) := by
  intro as bs r r' _ _ he
  have hparts : commaSeparated (as.map write) ++ ']' :: r =
      commaSeparated (bs.map write) ++ ']' :: r' := by
    simpa [array] using he
  have hx (as : List α) : ∀ x ∈ as.map write, Opens ']' x :=
    List.forall_mem_map.2 fun a _ => hw a
  have ha : ∀ p ∈ (as.map write).zip (bs.map write), Apart p.1 p.2 := by
    rw [List.zip_map, List.forall_mem_map]
    exact fun p _ => h.apart p.1 p.2
  obtain ⟨hm, hr⟩ := commaSeparated_inj rfl (by decide) (hx as) (hx bs) ha hparts
  exact ⟨h.injective.list_map hm, hr⟩

def member (f : String × List Char) : List Char := string f.1.toList ++ ':' :: f.2

theorem object_eq (fields : List (String × List Char)) :
    object fields = '{' :: commaSeparated (fields.map member) ++ ['}'] := rfl

theorem eq_of_member_append {f g : String × List Char} (he : member f ++ r = member g ++ r') :
    f.1 = g.1 ∧ f.2 ++ r = g.2 ++ r' := by
  simp only [member, List.append_assoc, List.cons_append] at he
  obtain ⟨hk, ht⟩ := legible_string _ _ _ _ (closed_cons rfl _) (closed_cons rfl _) he
  exact ⟨String.toList_injective hk, (List.cons.inj ht).2⟩

theorem member_injective : Function.Injective member := by
  intro f g he
  obtain ⟨hk, hv⟩ := eq_of_member_append (congrArg (· ++ []) he)
  exact Prod.ext hk (List.append_cancel_right hv)

theorem apart_member {f g : String × List Char} (hv : Apart f.2 g.2) :
    Apart (member f) (member g) := by
  intro r r' hr hr' he
  obtain ⟨hk, ht⟩ := eq_of_member_append he
  obtain ⟨hv, rfl⟩ := hv r r' hr hr' ht
  exact ⟨congrArg member (Prod.ext hk hv), rfl⟩

/-- A record is told by its fields, which are always written in the same order. -/
theorem legible_object {fields : α → List (String × List Char)} (hf : Function.Injective fields)
    (hv : ∀ a b, ∀ p ∈ (fields a).zip (fields b), Apart p.1.2 p.2.2) :
    Legible fun a => object (fields a) := by
  intro a b r r' _ _ he
  have hparts : commaSeparated ((fields a).map member) ++ '}' :: r =
      commaSeparated ((fields b).map member) ++ '}' :: r' := by
    simpa [object_eq] using he
  have hx (a) : ∀ x ∈ (fields a).map member, Opens '}' x :=
    List.forall_mem_map.2 fun f _ => ⟨'"', rfl, by decide⟩
  have ha : ∀ p ∈ ((fields a).map member).zip ((fields b).map member), Apart p.1 p.2 := by
    rw [List.zip_map, List.forall_mem_map]
    exact fun p hp => apart_member (hv a b p hp)
  obtain ⟨hm, hr⟩ := commaSeparated_inj rfl (by decide) (hx a) (hx b) ha hparts
  exact ⟨hf (member_injective.list_map hm), hr⟩

end Json
open Json

theorem Symbol.mem_all (s : Symbol) : s ∈ all := by cases s <;> decide

theorem Keyword.mem_all (k : Keyword) : k ∈ all := by cases k <;> decide

namespace TokenKind

theorem mem_all (k : TokenKind) : k ∈ all := by
  cases k with
  | symbol s => simp [all, s.mem_all]
  | keyword k => simp [all, k.mem_all]
  | _ => simp [all]

theorem tags_nodup : (all.map tag).Nodup := by decide +kernel

theorem tag_injective : Function.Injective tag := fun k k' h =>
  List.inj_on_of_nodup_map tags_nodup k.mem_all k'.mem_all h

theorem legible_toJson : Legible toJson :=
  legible_string.comp fun _ _ h => tag_injective (String.toList_injective h)

end TokenKind

namespace Channel

theorem tag_injective : Function.Injective tag := by
  intro c d h
  cases c <;> cases d <;> first | rfl | exact absurd h (by decide)

theorem legible_toJson : Legible toJson :=
  legible_string.comp fun _ _ h => tag_injective (String.toList_injective h)

end Channel

theorem Position.legible_toJson : Legible toJson := by
  have hn := legible_natural
  apply legible_object
  · intro p q h
    cases p
    cases q
    simpa [hn.injective.eq_iff] using h
  · simp [hn.apart]

theorem Token.legible_toJson : Legible toJson := by
  have hn := legible_natural
  have hs := legible_string
  have hk := TokenKind.legible_toJson
  have hc := Channel.legible_toJson
  have hp := Position.legible_toJson
  apply legible_object
  · intro t u h
    cases t
    cases u
    simpa [hn.injective.eq_iff, hs.injective.eq_iff, hk.injective.eq_iff, hc.injective.eq_iff,
      hp.injective.eq_iff] using h
  · simp [hn.apart, hs.apart, hk.apart, hc.apart, hp.apart]

/-- Two streams are written alike exactly when they are of the same tokens, whatever these are. -/
theorem TokenStream.toJson_eq_iff (s s' : TokenStream) :
    s.toJson = s'.toJson ↔ s.tokens = s'.tokens := by
  have h := legible_array Token.legible_toJson fun t => ⟨'{', rfl, by decide⟩
  exact h.injective.eq_iff

end Cql
