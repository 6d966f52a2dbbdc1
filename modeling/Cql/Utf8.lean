import Cql.Position

/-!
The bytes of a text. A byte is read as the character of its number, so no byte of a character beyond
ASCII is taken for one of ASCII.
-/
namespace Cql

variable {c d : Char} {cs w : List Char} {b : UInt8} {bs : List UInt8}

@[simp] theorem utf8_append (xs ys : List Char) : utf8 (xs ++ ys) = utf8 xs ++ utf8 ys :=
  List.flatMap_append

@[simp] theorem length_utf8 (cs : List Char) : (utf8 cs).length = utf8Size cs := rfl

theorem utf8EncodeChar_of_ascii (h : c.toNat < 128) :
    ∃ b, String.utf8EncodeChar c = [b] ∧ Char.ofUInt8 b = c := by
  have hc : c.utf8Size = 1 := by
    rw [Char.utf8Size_eq_one_iff, UInt32.le_iff_toNat_le]
    exact Nat.le_of_lt_succ h
  refine ⟨_, String.utf8EncodeChar_eq_singleton hc, ?_⟩
  rw [Char.ext_iff, ← UInt32.toNat_inj]
  exact Nat.mod_eq_of_lt (Nat.lt_trans h (by decide))

theorem le_of_mem_utf8EncodeChar (h : 128 ≤ c.toNat) (hb : b ∈ String.utf8EncodeChar c) :
    128 ≤ (Char.ofUInt8 b).toNat := by
  change 128 ≤ b.toNat
  have hc : c.val.toNat = c.toNat := rfl
  revert hb
  fun_cases String.utf8EncodeChar c with
  | case1 v hv => omega
  | case2 | case3 | case4 =>
    simp only [List.mem_cons, List.not_mem_nil, or_false]
    intro hb
    obtain rfl | rfl | rfl | rfl := hb
    all_goals
      rw [UInt8.toNat_ofNat']
      omega

theorem le_of_mem_tail (h : String.utf8EncodeChar c = b :: bs) {b' : UInt8} (hb : b' ∈ bs) :
    128 ≤ (Char.ofUInt8 b').toNat := by
  by_cases hc : c.toNat < 128
  · obtain ⟨_, he, -⟩ := utf8EncodeChar_of_ascii hc
    rw [he] at h
    cases h
    cases hb
  · exact le_of_mem_utf8EncodeChar (Nat.not_lt.1 hc) (h ▸ List.mem_cons_of_mem b hb)

theorem utf8EncodeChar_ne_nil (c : Char) : String.utf8EncodeChar c ≠ [] := by
  intro h
  have := c.utf8Size_pos
  rw [← String.length_utf8EncodeChar, h] at this
  exact Nat.lt_irrefl 0 this

theorem ne_of_le (hd : d.toNat < 128) (hc : 128 ≤ c.toNat) : c ≠ d := by
  intro h
  subst h
  exact absurd hd (Nat.not_lt.2 hc)

/-- A test that does not tell characters beyond ASCII apart. -/
def Blind (p : Char → Bool) : Prop :=
  ∀ ⦃c d : Char⦄, 128 ≤ c.toNat → 128 ≤ d.toNat → p c = p d

theorem blind_of_ascii {p : Char → Bool} (h : ∀ c, p c = true → c.toNat < 128) : Blind p := by
  have hf {c : Char} (hc : 128 ≤ c.toNat) : p c = false :=
    eq_false_of_ne_true fun hp => absurd (h c hp) (Nat.not_lt.2 hc)
  intro c d hc hd
  rw [hf hc, hf hd]

theorem blind_ne (h : d.toNat < 128) : Blind (· ≠ d) := by
  intro c c' hc hc'
  exact (decide_eq_true (ne_of_le h hc)).trans (decide_eq_true (ne_of_le h hc')).symm

theorem Blind.byte {p : Char → Bool} (h : Blind p) (hb : b ∈ String.utf8EncodeChar c) :
    p (Char.ofUInt8 b) = p c := by
  by_cases hc : c.toNat < 128
  · obtain ⟨b', he, hb'⟩ := utf8EncodeChar_of_ascii hc
    rw [he, List.mem_singleton] at hb
    rw [hb, hb']
  · have hc := Nat.not_lt.1 hc
    exact h (le_of_mem_utf8EncodeChar hc hb) hc

theorem ne_of_mem (hd : d.toNat < 128) (hc : c ≠ d) (hb : b ∈ String.utf8EncodeChar c) :
    Char.ofUInt8 b ≠ d :=
  of_decide_eq_true (((blind_ne hd).byte hb).trans (decide_eq_true hc))

theorem utf8Size_of_ascii (h : ∀ c ∈ w, c.toNat < 128) : utf8Size w = w.length := by
  induction w with
  | nil => rfl
  | cons c w ih =>
    obtain ⟨hc, hw⟩ := List.forall_mem_cons.1 h
    obtain ⟨b, he, -⟩ := utf8EncodeChar_of_ascii hc
    rw [utf8Size_cons, ih hw, ← String.length_utf8EncodeChar, he, List.length_cons, Nat.add_comm]
    rfl

end Cql
