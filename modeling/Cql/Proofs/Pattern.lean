import Cql.Scan.Lexeme
import Mathlib.Computability.Language

/-!
Languages over the characters, as lexical rules are built from them: what is in a language, and how
its words begin.
-/
namespace Cql.Pattern
open scoped Computability

def one (p : Char → Bool) : Language Char := {w | ∃ c, p c = true ∧ w = [c]}

def opt (l : Language Char) : Language Char := 1 + l

def plus (l : Language Char) : Language Char := l * l∗

/-- Everything through the first `close`. -/
def through (close : List Char) : Language Char := {w | close <:+ w ∧ ¬ close <:+: w.dropLast}

def without (close : List Char) : Language Char := {w | ¬ close <:+: w}

variable {p : Char → Bool} {l m : Language Char} {u w : List Char}

theorem mem_only : w ∈ ({u} : Language Char) ↔ w = u := Iff.rfl

theorem mem_only_mul : w ∈ {u} * l ↔ ∃ v ∈ l, u ++ v = w := by
  rw [Language.mem_mul]
  constructor
  · intro h
    obtain ⟨_, hu, v, hv, h⟩ := h
    exact ⟨v, hv, mem_only.1 hu ▸ h⟩
  · intro h
    obtain ⟨v, hv, h⟩ := h
    exact ⟨u, rfl, v, hv, h⟩

theorem mem_many : w ∈ l∗ ↔ w = [] ∨ ∃ a ∈ l, ∃ b ∈ l∗, a ++ b = w := by
  conv_lhs => rw [← Language.one_add_self_mul_kstar_eq_kstar]
  rw [Language.mem_add, Language.mem_one, Language.mem_mul]

theorem mem_many_mul : w ∈ l∗ * m ↔ w ∈ m ∨ ∃ a ∈ l, ∃ b ∈ l∗ * m, a ++ b = w := by
  conv_lhs => rw [← Language.one_add_self_mul_kstar_eq_kstar, add_mul, one_mul, mul_assoc]
  rw [Language.mem_add, Language.mem_mul]

theorem cons_mem_many_mul {c : Char} :
    c :: w ∈ (one p)∗ * m ↔ c :: w ∈ m ∨ p c = true ∧ w ∈ (one p)∗ * m := by
  rw [mem_many_mul]
  constructor
  · intro h
    obtain h | ⟨_, ⟨d, hd, rfl⟩, b, hb, h⟩ := h
    · exact .inl h
    · obtain ⟨rfl, rfl⟩ := List.cons.inj h
      exact .inr ⟨hd, hb⟩
  · intro h
    obtain h | ⟨hc, hw⟩ := h
    · exact .inl h
    · exact .inr ⟨[c], ⟨c, hc, rfl⟩, w, hw, rfl⟩

theorem mem_many_one : w ∈ (one p)∗ ↔ ∀ c ∈ w, p c = true := by
  induction w with
  | nil => simp [Language.nil_mem_kstar]
  | cons c w ih =>
    rw [mem_many, List.forall_mem_cons, ← ih]
    constructor
    · intro h
      obtain h | ⟨_, ⟨d, hd, rfl⟩, b, hb, h⟩ := h
      · cases h
      · obtain ⟨rfl, rfl⟩ := List.cons.inj h
        exact ⟨hd, hb⟩
    · intro h
      obtain ⟨hc, hw⟩ := h
      exact .inr ⟨[c], ⟨c, hc, rfl⟩, w, hw, rfl⟩

theorem mem_plus_one : w ∈ plus (one p) ↔ w ≠ [] ∧ ∀ c ∈ w, p c = true := by
  rw [plus, Language.mem_mul]
  constructor
  · intro h
    obtain ⟨_, ⟨c, hc, rfl⟩, b, hb, rfl⟩ := h
    exact ⟨List.cons_ne_nil c b, List.forall_mem_cons.2 ⟨hc, mem_many_one.1 hb⟩⟩
  · intro h
    obtain ⟨hn, hw⟩ := h
    obtain ⟨c, w, rfl⟩ := List.exists_cons_of_ne_nil hn
    obtain ⟨hc, hw⟩ := List.forall_mem_cons.1 hw
    exact ⟨[c], ⟨c, hc, rfl⟩, w, mem_many_one.2 hw, rfl⟩

theorem mem_many_pair :
    w ∈ (one p * one p)∗ ↔ w.length % 2 = 0 ∧ ∀ c ∈ w, p c = true := by
  induction w using List.twoStepInduction with
  | nil => simp [Language.nil_mem_kstar]
  | singleton c =>
    rw [mem_many]
    constructor
    · intro h
      obtain h | ⟨_, ⟨_, ⟨d, _, rfl⟩, _, ⟨e, _, rfl⟩, rfl⟩, b, _, h⟩ := h
      · cases h
      · cases h
    · intro h
      cases h.1
  | cons_cons c d w ih _ =>
    have hl : (c :: d :: w).length % 2 = w.length % 2 := Nat.add_mod_right _ 2
    rw [mem_many, hl, List.forall_mem_cons, List.forall_mem_cons, and_left_comm,
      and_left_comm (a := w.length % 2 = 0), ← ih]
    constructor
    · intro h
      obtain h | ⟨_, ⟨_, ⟨x, hx, rfl⟩, _, ⟨y, hy, rfl⟩, rfl⟩, b, hb, h⟩ := h
      · cases h
      · have h : x :: y :: b = c :: d :: w := h
        cases h
        exact ⟨hx, hy, hb⟩
    · intro h
      obtain ⟨hc, hd, hw⟩ := h
      exact .inr ⟨[c, d], ⟨[c], ⟨c, hc, rfl⟩, [d], ⟨d, hd, rfl⟩, rfl⟩, w, hw, rfl⟩

theorem mem_plus_pair :
    w ∈ plus (one p * one p) ↔ w ≠ [] ∧ w.length % 2 = 0 ∧ ∀ c ∈ w, p c = true := by
  rw [← mem_many_pair, mem_many, plus, Language.mem_mul]
  constructor
  · intro h
    obtain ⟨a, ha, b, hb, rfl⟩ := h
    refine ⟨?_, .inr ⟨a, ha, b, hb, rfl⟩⟩
    obtain ⟨_, ⟨c, _, rfl⟩, _, ⟨d, _, rfl⟩, rfl⟩ := ha
    exact List.cons_ne_nil c _
  · intro h
    obtain ⟨hn, h | h⟩ := h
    · exact absurd h hn
    · exact h

section Headed

def Headed (P : Char → Prop) (l : Language Char) : Prop := ∀ w ∈ l, ∃ c t, w = c :: t ∧ P c

variable {P : Char → Prop}

theorem Headed.mul (h : Headed P l) : Headed P (l * m) := by
  intro w hw
  obtain ⟨a, ha, b, -, rfl⟩ := hw
  obtain ⟨c, t, rfl, hc⟩ := h a ha
  exact ⟨c, t ++ b, rfl, hc⟩

theorem Headed.add (hl : Headed P l) (hm : Headed P m) : Headed P (l + m) :=
  fun w hw => hw.elim (hl w) (hm w)

theorem Headed.opt_mul (hl : Headed P l) (hm : Headed P m) : Headed P (opt l * m) := by
  rw [opt, add_mul, one_mul]
  exact hm.add hl.mul

theorem Headed.pow {n : Nat} (h : Headed P l) : Headed P (l ^ (n + 1)) := by
  rw [pow_succ']
  exact h.mul

theorem headed_one {p : Char → Bool} (h : ∀ c, p c = true → P c) : Headed P (one p) := by
  intro w hw
  obtain ⟨c, hc, rfl⟩ := hw
  exact ⟨c, [], rfl, h c hc⟩

theorem headed_only {c : Char} {t : List Char} (h : P c) : Headed P {c :: t} := by
  intro w hw
  cases hw
  exact ⟨c, t, rfl, h⟩

theorem headed_zero : Headed P 0 := fun w hw => absurd hw (Language.notMem_zero w)

end Headed

variable {close : List Char} {c : Char}

theorem mem_through_cons : c :: w ∈ through close ↔
    close = c :: w ∨ ¬ close <+: c :: w ∧ w ∈ through close := by
  change _ <:+ _ ∧ ¬ _ <:+: _ ↔ _ ∨ _ ∧ _ <:+ _ ∧ ¬ _ <:+: _
  obtain rfl | ⟨v, d, rfl⟩ := w.eq_nil_or_concat'
  · cases close <;> simp [List.suffix_cons_iff]
  · have hd : (c :: (v ++ [d])).dropLast = c :: v := by
      rw [← List.cons_append, List.dropLast_concat]
    have hp : close <+: c :: (v ++ [d]) ↔ close = c :: (v ++ [d]) ∨ close <+: c :: v := by
      rw [← List.cons_append, List.prefix_concat_iff]
    rw [hd, hp, List.dropLast_concat, List.suffix_cons_iff, List.infix_cons_iff]
    constructor
    · tauto
    · intro h
      obtain rfl | h := h
      · refine ⟨.inl rfl, ?_⟩
        intro h
        have hl : (c :: (v ++ [d])).length ≤ v.length + 1 := by
          obtain h | h := h
          · exact h.length_le
          · exact Nat.le_succ_of_le h.length_le
        rw [List.length_cons, List.length_append, List.length_singleton] at hl
        omega
      · tauto

theorem mem_without_cons : c :: w ∈ without close ↔
    ¬ close <+: c :: w ∧ w ∈ without close := by
  change ¬ _ <:+: _ ↔ _ ∧ ¬ _ <:+: _
  rw [List.infix_cons_iff, not_or]

theorem without_or_through (close w : List Char) (hc : close ≠ []) :
    w ∈ without close ∨ ∃ v after, w = v ++ after ∧ v ∈ through close := by
  induction w with
  | nil => exact .inl fun h => hc (List.infix_nil.1 h)
  | cons c w ih =>
    by_cases hp : close <+: c :: w
    · obtain ⟨after, h⟩ := hp
      refine .inr ⟨close, after, h.symm, List.suffix_rfl, fun hi => ?_⟩
      have := hi.length_le
      have := List.length_pos_iff.2 hc
      rw [List.length_dropLast] at *
      omega
    · obtain hw | ⟨v, after, rfl, hv⟩ := ih
      · exact .inl (mem_without_cons.2 ⟨hp, hw⟩)
      · refine .inr ⟨c :: v, after, rfl, mem_through_cons.2 (.inr ⟨fun h => hp ?_, hv⟩)⟩
        exact h.trans (List.prefix_append (c :: v) after)

/-- A word through its close settles where the close is, whatever comes after it. -/
theorem not_prefix_of_through (hn : ¬ close <+: c :: w) (hw : w ∈ through close)
    (after : List Char) : ¬ close <+: c :: (w ++ after) := by
  intro hp
  have hl : close.length ≤ (c :: w).length := Nat.le_succ_of_le hw.1.length_le
  exact hn (List.prefix_of_prefix_length_le hp (List.prefix_append (c :: w) after) hl)

end Cql.Pattern
