import Cql.Proofs.Rule
import Cql.Scan.Comment
import Mathlib.Tactic.Tauto

/-!
A line and a block are measured as the rules for comments take them.
-/
namespace Cql
namespace Scan
open Pattern
open scoped Computability

/-- The rest of a line, through its newline or through the end of the text. -/
def EndsLine (v after : List Char) : Prop :=
  v ∈ (one (· ≠ '\n'))∗ * {['\n']} ∨ v ∈ (one (· ≠ '\n'))∗ ∧ after = []

def EndsBlock (v after : List Char) : Prop :=
  v ∈ through ['*', '/'] ∨ v ∈ without ['*', '/'] ∧ after = []

variable {c : Char} {v after : List Char}

theorem endsLine_nil : EndsLine [] after ↔ after = [] := by
  simp [EndsLine, Language.mem_mul, mem_only, Language.nil_mem_kstar]

theorem endsLine_cons :
    EndsLine (c :: v) after ↔ c = '\n' ∧ v = [] ∨ c ≠ '\n' ∧ EndsLine v after := by
  rw [EndsLine, EndsLine, cons_mem_many_mul, mem_many_one, mem_many_one, List.forall_mem_cons,
    mem_only, List.cons.injEq, decide_eq_true_eq]
  tauto

theorem lineLength_eq (h : EndsLine v after) : lineLength (v ++ after) = v.length := by
  induction v with
  | nil =>
    rw [endsLine_nil.1 h]
    rfl
  | cons c v ih =>
    rw [List.cons_append, lineLength]
    obtain ⟨rfl, rfl⟩ | ⟨hc, hv⟩ := endsLine_cons.1 h
    · rfl
    · rw [if_neg hc, ih hv, List.length_cons]

theorem exists_endsLine (cs : List Char) : ∃ v after, cs = v ++ after ∧ EndsLine v after := by
  induction cs with
  | nil => exact ⟨[], [], rfl, endsLine_nil.2 rfl⟩
  | cons c cs ih =>
    by_cases hc : c = '\n'
    · exact ⟨[c], cs, rfl, endsLine_cons.2 (.inl ⟨hc, rfl⟩)⟩
    · obtain ⟨v, after, rfl, hv⟩ := ih
      exact ⟨c :: v, after, rfl, endsLine_cons.2 (.inr ⟨hc, hv⟩)⟩

theorem dashesOpenComment_cons (c : Char) (cs : List Char) : dashesOpenComment (c :: cs) = true ↔
    c = ' ' ∨ c = '\n' ∨ c = '\r' ∧ cs.head? = some '\n' := by
  unfold dashesOpenComment
  split
  case h_1 he => cases he
  case h_2 he | h_3 he => simp [(List.cons.inj he).1]
  case h_4 he => simp [(List.cons.inj he).1, (List.cons.inj he).2]
  case h_5 hs hn hr =>
    simp only [Bool.false_eq_true, false_iff, not_or, not_and, List.head?_eq_some_iff]
    refine ⟨fun h => ?_, fun h => ?_, fun h he => ?_⟩
    · exact hs cs (h ▸ rfl)
    · exact hn cs (h ▸ rfl)
    · obtain ⟨t, rfl⟩ := he
      exact hr t (h ▸ rfl)

theorem closeLength_cons (cs : List Char) : closeLength (c :: cs) =
    if ['*', '/'] <+: c :: cs then 2 else closeLength cs + 1 := by
  split
  case isTrue h =>
    obtain ⟨_, h⟩ := h
    cases h
    rfl
  case isFalse h =>
    rw [closeLength]
    intro cs hc hs
    subst hc hs
    exact h ⟨cs, rfl⟩

theorem closeLength_eq (h : EndsBlock v after) : closeLength (v ++ after) = v.length := by
  induction v with
  | nil =>
    obtain h | ⟨-, rfl⟩ := h
    · cases List.suffix_nil.1 h.1
    · rfl
  | cons c v ih =>
    rw [List.cons_append, closeLength_cons]
    obtain h | ⟨h, rfl⟩ := h
    · obtain h | ⟨hn, hv⟩ := mem_through_cons.1 h
      · cases h
        exact if_pos ⟨after, rfl⟩
      · rw [if_neg (not_prefix_of_through hn hv after), ih (.inl hv), List.length_cons]
    · obtain ⟨hn, hv⟩ := mem_without_cons.1 h
      rw [List.append_nil, if_neg hn, List.length_cons]
      simpa using ih (.inr ⟨hv, rfl⟩)

theorem exists_endsBlock (cs : List Char) : ∃ v after, cs = v ++ after ∧ EndsBlock v after := by
  obtain h | ⟨v, after, rfl, hv⟩ := without_or_through ['*', '/'] cs (List.cons_ne_nil _ _)
  · exact ⟨cs, [], (List.append_nil cs).symm, .inr ⟨h, rfl⟩⟩
  · exact ⟨v, after, rfl, .inl hv⟩

end Scan

namespace Rule
open Pattern Scan
open scoped Computability

variable {w after : List Char}

theorem endsLine_dashes {v : List Char} :
    EndsLine v after ∧ dashesOpenComment (v ++ after) = true ↔
      v = ['\n'] ∨ v = ['\r', '\n'] ∨ v = [] ∧ after = [] ∨
        ∃ u, ' ' :: u = v ∧ EndsLine u after := by
  constructor
  · intro h
    obtain ⟨hv, hd⟩ := h
    cases v with
    | nil => exact .inr (.inr (.inl ⟨rfl, endsLine_nil.1 hv⟩))
    | cons c v =>
      obtain ⟨rfl, rfl⟩ | ⟨hc, ht⟩ := endsLine_cons.1 hv
      · exact .inl rfl
      · rw [List.cons_append] at hd
        unfold dashesOpenComment at hd
        split at hd
        case h_1 he => cases he
        case h_2 he =>
          cases he
          exact .inr (.inr (.inr ⟨v, rfl, ht⟩))
        case h_3 he =>
          cases he
          exact absurd rfl hc
        case h_4 he =>
          obtain ⟨rfl, hn⟩ := List.cons.inj he
          cases v with
          | nil => cases (endsLine_nil.1 ht).symm.trans hn
          | cons d v =>
            obtain ⟨rfl, rfl⟩ | ⟨hd, -⟩ := endsLine_cons.1 ht
            · exact .inr (.inl rfl)
            · exact absurd (List.cons.inj hn).1 hd
        case h_5 => cases hd
  · intro h
    obtain rfl | rfl | ⟨rfl, rfl⟩ | ⟨u, rfl, hu⟩ := h
    · simp [endsLine_cons, dashesOpenComment]
    · simp [endsLine_cons, dashesOpenComment]
    · simp [endsLine_nil, dashesOpenComment]
    · simp [endsLine_cons, dashesOpenComment, hu]

theorem mem_open {u : List Char} {l m : Language Char} :
    w ∈ {u} * l ∨ w ∈ {u} * m ∧ after = [] ↔
      ∃ v, u ++ v = w ∧ (v ∈ l ∨ v ∈ m ∧ after = []) := by
  rw [mem_only_mul, mem_only_mul]
  constructor
  · intro h
    obtain ⟨v, hv, hw⟩ | ⟨⟨v, hv, hw⟩, ha⟩ := h
    · exact ⟨v, hw, .inl hv⟩
    · exact ⟨v, hw, .inr ⟨hv, ha⟩⟩
  · intro h
    obtain ⟨v, hw, hv | ⟨hv, ha⟩⟩ := h
    · exact .inl ⟨v, hv, hw⟩
    · exact .inr ⟨⟨v, hv, hw⟩, ha⟩

theorem mem_dashes :
    (∃ v, ['-', '-'] ++ v = w ∧ EndsLine v after ∧ dashesOpenComment (v ++ after) = true) ↔
      w = ['-', '-', '\n'] ∨ w = ['-', '-', '\r', '\n'] ∨ w = ['-', '-'] ∧ after = [] ∨
        ∃ v, ['-', '-', ' '] ++ v = w ∧ EndsLine v after := by
  simp only [endsLine_dashes]
  constructor
  · intro h
    obtain ⟨v, rfl, rfl | rfl | ⟨rfl, ha⟩ | ⟨u, rfl, hu⟩⟩ := h
    · exact .inl rfl
    · exact .inr (.inl rfl)
    · exact .inr (.inr (.inl ⟨rfl, ha⟩))
    · exact .inr (.inr (.inr ⟨u, rfl, hu⟩))
  · intro h
    obtain rfl | rfl | ⟨rfl, ha⟩ | ⟨u, rfl, hu⟩ := h
    · exact ⟨['\n'], rfl, .inl rfl⟩
    · exact ⟨['\r', '\n'], rfl, .inr (.inl rfl)⟩
    · exact ⟨[], rfl, .inr (.inr (.inl ⟨rfl, ha⟩))⟩
    · exact ⟨' ' :: u, rfl, .inr (.inr (.inr ⟨u, rfl, hu⟩))⟩

theorem takes_lineComment : lineComment.Takes w after ↔
    (∃ v, ['#'] ++ v = w ∧ EndsLine v after) ∨ (∃ v, ['/', '/'] ++ v = w ∧ EndsLine v after) ∨
      ∃ v, ['-', '-'] ++ v = w ∧ EndsLine v after ∧ dashesOpenComment (v ++ after) = true := by
  rw [mem_dashes]
  simp only [EndsLine, ← mem_open]
  simp only [Takes, pattern, openPattern, line, mul_assoc, add_mul, Language.mem_add, mem_only,
    continues, implies_true, and_true]
  tauto

theorem takes_blockComment :
    blockComment.Takes w after ↔ ∃ v, ['/', '*'] ++ v = w ∧ EndsBlock v after := by
  simp only [Takes, pattern, openPattern, continues, implies_true, and_true]
  exact mem_open

variable {cs : List Char}

theorem exists_fits_hash (cs : List Char) :
    ∃ w, Fits ('#' :: cs) lineComment w ∧ w.length = lineLength cs + 1 := by
  obtain ⟨v, after, rfl, hv⟩ := exists_endsLine cs
  exact ⟨'#' :: v, ⟨after, rfl, takes_lineComment.2 (.inl ⟨v, rfl, hv⟩)⟩,
    by simp [lineLength_eq hv]⟩

theorem exists_fits_slashes (cs : List Char) :
    ∃ w, Fits ('/' :: '/' :: cs) lineComment w ∧ w.length = lineLength cs + 2 := by
  obtain ⟨v, after, rfl, hv⟩ := exists_endsLine cs
  exact ⟨'/' :: '/' :: v, ⟨after, rfl, takes_lineComment.2 (.inr (.inl ⟨v, rfl, hv⟩))⟩,
    by simp [lineLength_eq hv]⟩

theorem exists_fits_dashes (h : dashesOpenComment cs = true) :
    ∃ w, Fits ('-' :: '-' :: cs) lineComment w ∧ w.length = lineLength cs + 2 := by
  obtain ⟨v, after, rfl, hv⟩ := exists_endsLine cs
  exact ⟨'-' :: '-' :: v, ⟨after, rfl, takes_lineComment.2 (.inr (.inr ⟨v, rfl, hv, h⟩))⟩,
    by simp [lineLength_eq hv]⟩

theorem exists_fits_block (cs : List Char) :
    ∃ w, Fits ('/' :: '*' :: cs) blockComment w ∧ w.length = closeLength cs + 2 := by
  obtain ⟨v, after, rfl, hv⟩ := exists_endsBlock cs
  exact ⟨'/' :: '*' :: v, ⟨after, rfl, takes_blockComment.2 ⟨v, rfl, hv⟩⟩,
    by simp [closeLength_eq hv]⟩

theorem Fits.hash (h : Fits ('#' :: cs) lineComment w) : w.length = lineLength cs + 1 := by
  obtain ⟨after, he, ht⟩ := h
  obtain ⟨v, rfl, hv⟩ | ⟨v, rfl, -⟩ | ⟨v, rfl, -⟩ := takes_lineComment.1 ht <;> cases he
  exact congrArg (· + 1) (lineLength_eq hv).symm

theorem Fits.slashes (h : Fits ('/' :: cs) lineComment w) :
    ∃ cs', cs = '/' :: cs' ∧ w.length = lineLength cs' + 2 := by
  obtain ⟨after, he, ht⟩ := h
  obtain ⟨v, rfl, -⟩ | ⟨v, rfl, hv⟩ | ⟨v, rfl, -⟩ := takes_lineComment.1 ht <;> cases he
  exact ⟨v ++ after, rfl, congrArg (· + 2) (lineLength_eq hv).symm⟩

theorem Fits.dashes (h : Fits ('-' :: cs) lineComment w) :
    ∃ cs', cs = '-' :: cs' ∧ dashesOpenComment cs' = true ∧ w.length = lineLength cs' + 2 := by
  obtain ⟨after, he, ht⟩ := h
  obtain ⟨v, rfl, -⟩ | ⟨v, rfl, -⟩ | ⟨v, rfl, hv, hd⟩ := takes_lineComment.1 ht <;> cases he
  exact ⟨v ++ after, rfl, hd, congrArg (· + 2) (lineLength_eq hv).symm⟩

theorem Fits.block (h : Fits ('/' :: cs) blockComment w) :
    ∃ cs', cs = '*' :: cs' ∧ w.length = closeLength cs' + 2 := by
  obtain ⟨after, he, ht⟩ := h
  obtain ⟨v, rfl, hv⟩ := takes_blockComment.1 ht
  cases he
  exact ⟨v ++ after, rfl, congrArg (· + 2) (closeLength_eq hv).symm⟩

end Rule
end Cql
