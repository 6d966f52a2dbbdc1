import Cql.Proofs.Rule.Hexadecimal
import Cql.Scan.Word
import Mathlib.Algebra.BigOperators.Group.List.Defs

/-!
UUIDs. Nothing else that begins as a UUID does goes on for as long: it would have to contain the
dashes.
-/
namespace Cql
namespace Scan
open Pattern Rule

variable {w cs : List Char} {ps : List (Char → Bool)}

theorem length_of_mem_prod (h : w ∈ (ps.map one).prod) : w.length = ps.length := by
  induction ps generalizing w with
  | nil => exact congrArg List.length h
  | cons p ps ih =>
    rw [List.map_cons, List.prod_cons] at h
    obtain ⟨_, ⟨c, -, rfl⟩, v, hv, rfl⟩ := h
    simpa using ih hv

theorem frontMatches_iff :
    frontMatches ps cs = true ↔ ∃ w, w <+: cs ∧ w ∈ (ps.map one).prod := by
  induction ps generalizing cs with
  | nil => exact ⟨fun _ => ⟨[], List.nil_prefix, rfl⟩, fun _ => by cases cs <;> rfl⟩
  | cons p ps ih =>
    rw [List.map_cons, List.prod_cons]
    cases cs with
    | nil =>
      constructor
      · intro h
        cases h
      · intro h
        obtain ⟨_, ⟨after, h⟩, _, ⟨c, -, rfl⟩, v, -, rfl⟩ := h
        cases h
    | cons c cs =>
      rw [frontMatches, Bool.and_eq_true, ih]
      constructor
      · intro h
        obtain ⟨hc, v, hp, hv⟩ := h
        exact ⟨c :: v, List.cons_prefix_cons.2 ⟨rfl, hp⟩, [c], ⟨c, hc, rfl⟩, v, hv, rfl⟩
      · intro h
        obtain ⟨_, hp, _, ⟨d, hd, rfl⟩, v, hv, rfl⟩ := h
        obtain ⟨rfl, hv'⟩ := List.cons_prefix_cons.1 hp
        exact ⟨hd, v, hv', hv⟩

theorem uuid_pattern : uuid.pattern = (uuidShape.map one).prod := by
  have hd : one isDash = {['-']} := by
    ext w
    constructor
    · intro h
      obtain ⟨c, hc, rfl⟩ := h
      exact mem_only.2 (by rw [of_decide_eq_true hc])
    · intro h
      exact ⟨'-', rfl, h⟩
  simp only [pattern, hex, uuidShape, hexGroup, List.map_append, List.map_cons, List.map_replicate,
    List.prod_append, List.prod_cons, List.prod_replicate, hd, mul_assoc]

theorem mem_uuidShape {p : Char → Bool} (h : p ∈ uuidShape) : p = isHexDigit ∨ p = isDash := by
  simp only [uuidShape, hexGroup, List.mem_append, List.mem_cons, List.mem_replicate] at h
  tauto

theorem startsUuid_iff : startsUuid cs = true ↔ ∃ w, Fits cs uuid w := by
  rw [startsUuid, frontMatches_iff, ← uuid_pattern]
  exact exists_congr fun w => (fits_iff rfl fun _ => rfl).symm

theorem length_of_fits_uuid (h : Fits cs uuid w) : w.length = uuidShape.length :=
  length_of_mem_prod (uuid_pattern ▸ ((fits_iff rfl fun _ => rfl).1 h).2)

end Scan

namespace Pattern
open scoped Computability

variable {u : List Char} {l m : Language Char} {n k : Nat}

/-- No word of a language has more dashes. -/
def DashesLe (n : Nat) (l : Language Char) : Prop := ∀ w ∈ l, w.count '-' ≤ n

theorem DashesLe.mul (hl : DashesLe n l) (hm : DashesLe k m) : DashesLe (n + k) (l * m) := by
  intro w hw
  obtain ⟨a, ha, b, hb, rfl⟩ := hw
  exact List.count_append.trans_le (Nat.add_le_add (hl a ha) (hm b hb))

theorem DashesLe.add (hl : DashesLe n l) (hm : DashesLe n m) : DashesLe n (l + m) :=
  fun w hw => hw.elim (hl w) (hm w)

theorem DashesLe.opt (h : DashesLe n l) : DashesLe n (opt l) := by
  intro w hw
  obtain rfl | hw := hw
  · exact Nat.zero_le n
  · exact h w hw

theorem DashesLe.pow (h : DashesLe 0 l) (n : Nat) : DashesLe 0 (l ^ n) := by
  induction n with
  | zero => exact fun w hw => by rw [(Language.mem_one w).1 hw]; decide
  | succ n ih =>
    rw [pow_succ]
    exact ih.mul h

theorem DashesLe.many (h : DashesLe 0 l) : DashesLe 0 l∗ := by
  rw [Language.kstar_eq_iSup_pow]
  intro w hw
  obtain ⟨n, hn⟩ := Language.mem_iSup.1 hw
  exact h.pow n w hn

theorem DashesLe.plus (h : DashesLe 0 l) : DashesLe 0 (plus l) := h.mul h.many

theorem dashesLe_one {p : Char → Bool} (hp : p '-' = false) : DashesLe 0 (one p) := by
  intro w hw
  obtain ⟨c, hc, rfl⟩ := hw
  refine (List.count_eq_zero.2 fun h => ?_).le
  rw [← List.mem_singleton.1 h, hp] at hc
  exact Bool.false_ne_true hc

theorem dashesLe_only (h : u.count '-' = 0) : DashesLe 0 {u} := by
  intro w hw
  cases hw
  exact h.le

theorem dashesLe_exponent : DashesLe 1 exponent := by
  have hs : DashesLe 1 sign := by
    intro w hw
    obtain ⟨c, -, rfl⟩ := hw
    exact List.count_le_length
  exact ((dashesLe_one rfl).mul hs.opt).mul (dashesLe_one rfl).plus

theorem dashesLe_digits : DashesLe 0 (plus digit) := (dashesLe_one rfl).plus

theorem dashesLe_wholeFloat : DashesLe 1 wholeFloat := by
  have hpoint : DashesLe 0 {['.']} := dashesLe_only (by decide)
  exact (((dashesLe_digits.mul hpoint).mul (dashesLe_one rfl).many).mul
    dashesLe_exponent.opt).add (dashesLe_digits.mul dashesLe_exponent)

end Pattern

namespace Rule
open Pattern Scan

variable {cs u w : List Char}

theorem dashesLe_hexadecimal : DashesLe 0 hexadecimal.pattern := by
  have hzero : DashesLe 0 {['0']} := dashesLe_only (by decide)
  have hquote : DashesLe 0 {['\'']} := dashesLe_only (by decide)
  have hx : DashesLe 0 ex := dashesLe_one rfl
  have hd : DashesLe 0 hex := dashesLe_one rfl
  exact ((hzero.mul hx).mul hd.plus).add (((hx.mul hquote).mul (hd.mul hd).plus).mul hquote)

theorem dashesLe_word : DashesLe 0 word.pattern := (dashesLe_one rfl).mul (dashesLe_one rfl).many

theorem count_uuid (h : w ∈ uuid.pattern) : w.count '-' = 4 := by
  have hx (n : Nat) {w : List Char} (hw : w ∈ hex ^ n) : w.count '-' = 0 :=
    Nat.eq_zero_of_le_zero ((dashesLe_one rfl).pow n w hw)
  obtain ⟨_, ⟨_, ⟨_, ⟨_, ⟨_, ⟨_, ⟨_, ⟨a, ha, _, rfl, rfl⟩, b, hb, rfl⟩, _, rfl, rfl⟩, d, hd, rfl⟩,
    _, rfl, rfl⟩, e, he, rfl⟩, _, rfl, rfl⟩, f, hf, rfl⟩ := h
  simp [List.count_append, hx _ ha, hx _ hb, hx _ hd, hx _ he, hx _ hf]

/-- A match with fewer dashes than a UUID ends before a UUID does. -/
theorem length_lt_uuid (hu : Fits cs uuid u) (hw : w <+: cs) (hd : w.count '-' ≤ 1) :
    w.length < u.length := by
  obtain ⟨hp, hu⟩ := (fits_iff rfl fun _ => rfl).1 hu
  by_contra hl
  have := (List.prefix_of_prefix_length_le hp hw (by omega)).sublist.count_le '-'
  rw [count_uuid hu] at this
  omega

end Rule
end Cql
