import Cql.Proofs.Rule
import Cql.Scan.Quoted

/-!
The bodies of literals are measured as their rules take them, and there is a measure exactly where
the literal is closed.
-/
namespace Cql
namespace Scan
open Pattern Rule
open scoped Computability

variable {v after cs : List Char} {n : Nat}

theorem stringBody?_eq (h : v ∈ stringPart∗ * {['\'']})
    (ha : ∀ c ∈ after.head?, stringLiteral.continues c = false) :
    stringBody? (v ++ after) = some v.length := by
  obtain ⟨_, ⟨parts, rfl, hp⟩, _, rfl, rfl⟩ := h
  induction parts with
  | nil =>
    cases after with
    | nil => rfl
    | cons d after =>
      have hd : d ≠ '\'' := of_decide_eq_false (ha d rfl)
      simp [stringBody?, hd]
  | cons part parts ih =>
    obtain ⟨hp, hps⟩ := List.forall_mem_cons.1 hp
    have ih := ih hps
    obtain (⟨_, rfl, _, ⟨c, -, rfl⟩, rfl⟩ | rfl) | ⟨c, hc, rfl⟩ := hp
    · simp [stringBody?] at ih ⊢
      simp [ih]
    · simp [stringBody?] at ih ⊢
      simp [ih]
    · simp at hc
      simp [stringBody?, hc] at ih ⊢
      simp [ih]

theorem exists_stringBody (h : stringBody? cs = some n) : ∃ v after, cs = v ++ after ∧
    v ∈ stringPart∗ * {['\'']} ∧ ∀ c ∈ after.head?, stringLiteral.continues c = false := by
  have hpart {part v : List Char} (hp : part ∈ stringPart) (hv : v ∈ stringPart∗ * {['\'']}) :
      part ++ v ∈ stringPart∗ * {['\'']} := mem_many_mul.2 (.inr ⟨part, hp, v, hv, rfl⟩)
  fun_induction stringBody? cs generalizing n with
  | case1 => cases h
  | case2 c cs ih =>
    obtain ⟨m, hm, -⟩ := Option.map_eq_some_iff.1 h
    obtain ⟨v, after, rfl, hv, ha⟩ := ih hm
    exact ⟨'\\' :: c :: v, after, rfl, hpart (.inl (.inl ⟨_, rfl, [c], ⟨c, rfl, rfl⟩, rfl⟩)) hv, ha⟩
  | case3 cs ih =>
    obtain ⟨m, hm, -⟩ := Option.map_eq_some_iff.1 h
    obtain ⟨v, after, rfl, hv, ha⟩ := ih hm
    exact ⟨'\'' :: '\'' :: v, after, rfl, hpart (.inl (.inr rfl)) hv, ha⟩
  | case4 cs hq =>
    refine ⟨['\''], cs, rfl, mem_many_mul.2 (.inl rfl), fun c hc => decide_eq_false ?_⟩
    intro he
    obtain ⟨cs, rfl⟩ := List.head?_eq_some_iff.1 hc
    exact hq cs (he ▸ rfl)
  | case5 c cs hb hq hq' ih =>
    obtain ⟨m, hm, -⟩ := Option.map_eq_some_iff.1 h
    have hc : c ≠ '\\' := by
      intro he
      subst he
      cases cs with
      | nil => cases hm
      | cons d cs => exact hb d cs rfl rfl
    obtain ⟨v, after, rfl, hv, ha⟩ := ih hm
    exact ⟨c :: v, after, rfl, hpart (.inr ⟨c, decide_eq_true ⟨hc, hq'⟩, rfl⟩) hv, ha⟩

theorem nameBody?_eq (h : v ∈ namePart∗ * {['"']})
    (ha : ∀ c ∈ after.head?, quotedName.continues c = false) :
    nameBody? (v ++ after) = some v.length := by
  obtain ⟨_, ⟨parts, rfl, hp⟩, _, rfl, rfl⟩ := h
  induction parts with
  | nil =>
    cases after with
    | nil => rfl
    | cons d after =>
      have hd : d ≠ '"' := of_decide_eq_false (ha d rfl)
      simp [nameBody?, hd]
  | cons part parts ih =>
    obtain ⟨hp, hps⟩ := List.forall_mem_cons.1 hp
    have ih := ih hps
    obtain rfl | ⟨c, hc, rfl⟩ := hp
    · simp [nameBody?] at ih ⊢
      simp [ih]
    · simp at hc
      simp [nameBody?, hc] at ih ⊢
      simp [ih]

theorem exists_nameBody (h : nameBody? cs = some n) : ∃ v after, cs = v ++ after ∧
    v ∈ namePart∗ * {['"']} ∧ ∀ c ∈ after.head?, quotedName.continues c = false := by
  have hpart {part v : List Char} (hp : part ∈ namePart) (hv : v ∈ namePart∗ * {['"']}) :
      part ++ v ∈ namePart∗ * {['"']} := mem_many_mul.2 (.inr ⟨part, hp, v, hv, rfl⟩)
  fun_induction nameBody? cs generalizing n with
  | case1 => cases h
  | case2 cs ih =>
    obtain ⟨m, hm, -⟩ := Option.map_eq_some_iff.1 h
    obtain ⟨v, after, rfl, hv, ha⟩ := ih hm
    exact ⟨'"' :: '"' :: v, after, rfl, hpart (.inl rfl) hv, ha⟩
  | case3 cs hq =>
    refine ⟨['"'], cs, rfl, mem_many_mul.2 (.inl rfl), fun c hc => decide_eq_false ?_⟩
    intro he
    obtain ⟨cs, rfl⟩ := List.head?_eq_some_iff.1 hc
    exact hq cs (he ▸ rfl)
  | case4 c cs hq hq' ih =>
    obtain ⟨m, hm, -⟩ := Option.map_eq_some_iff.1 h
    obtain ⟨v, after, rfl, hv, ha⟩ := ih hm
    exact ⟨c :: v, after, rfl, hpart (.inr ⟨c, decide_eq_true hq', rfl⟩) hv, ha⟩

theorem codeBody?_cons (c : Char) (cs : List Char) : codeBody? (c :: cs) =
    if ['$', '$'] <+: c :: cs then some 2 else (codeBody? cs).map (· + 1) := by
  split
  case isTrue h =>
    obtain ⟨_, h⟩ := h
    cases h
    rfl
  case isFalse h =>
    rw [codeBody?]
    intro cs hc hs
    subst hc hs
    exact h ⟨cs, rfl⟩

theorem codeBody?_eq (h : v ∈ through ['$', '$']) : codeBody? (v ++ after) = some v.length := by
  induction v with
  | nil => cases List.suffix_nil.1 h.1
  | cons c v ih =>
    rw [List.cons_append, codeBody?_cons]
    obtain h | ⟨hn, hv⟩ := mem_through_cons.1 h
    · cases h
      exact if_pos ⟨after, rfl⟩
    · rw [if_neg (not_prefix_of_through hn hv after), ih hv]
      rfl

theorem codeBody?_without (h : cs ∈ without ['$', '$']) : codeBody? cs = none := by
  induction cs with
  | nil => rfl
  | cons c cs ih =>
    obtain ⟨hn, hcs⟩ := mem_without_cons.1 h
    rw [codeBody?_cons, if_neg hn, ih hcs]
    rfl

theorem exists_codeBody (h : codeBody? cs = some n) :
    ∃ v after, cs = v ++ after ∧ v ∈ through ['$', '$'] := by
  obtain hw | hv := without_or_through ['$', '$'] cs (List.cons_ne_nil _ _)
  · cases (codeBody?_without hw).symm.trans h
  · exact hv

end Scan

namespace Rule
open Pattern Scan
open scoped Computability

/-- What follows an opening delimiter is measured exactly if the text begins with a match of the
rule, and the measure is the match without the delimiter. -/
structure Measures (rule : Rule) (opening cs : List Char) (body : Option Nat) : Prop where
  opens : ∀ w, Fits (opening ++ cs) rule w → ∃ v, w = opening ++ v
  some_iff : ∀ n, body = some n ↔ ∃ v, v.length = n ∧ Fits (opening ++ cs) rule (opening ++ v)

/-- A rule for everything between delimiters is measured by a function that is right about its
words. -/
theorem measures_of {rule : Rule} {opening : List Char} {l : Language Char}
    {body : List Char → Option Nat} (hp : rule.pattern = {opening} * l)
    (ho : rule.openPattern = 0)
    (heq : ∀ {v after}, v ∈ l → (∀ c ∈ after.head?, rule.continues c = false) →
      body (v ++ after) = some v.length)
    (hex : ∀ {cs n}, body cs = some n → ∃ v after, cs = v ++ after ∧ v ∈ l ∧
      ∀ c ∈ after.head?, rule.continues c = false)
    (cs : List Char) : Measures rule opening cs (body cs) := by
  have htakes {w after : List Char} (h : rule.Takes w after) :
      (∃ v ∈ l, opening ++ v = w) ∧ ∀ c ∈ after.head?, rule.continues c = false := by
    rwa [takes_of_openPattern_zero ho, hp, mem_only_mul] at h
  refine ⟨fun w h => ?_, fun n => ⟨fun h => ?_, fun h => ?_⟩⟩
  · obtain ⟨after, -, ht⟩ := h
    obtain ⟨⟨v, -, rfl⟩, -⟩ := htakes ht
    exact ⟨v, rfl⟩
  · obtain ⟨v, after, rfl, hv, ha⟩ := hex h
    rw [heq hv ha] at h
    refine ⟨v, Option.some.inj h, after, (List.append_assoc ..).symm, ?_⟩
    exact (takes_of_openPattern_zero ho).2 ⟨hp ▸ mem_only_mul.2 ⟨v, hv, rfl⟩, ha⟩
  · obtain ⟨v, rfl, after, he, ht⟩ := h
    obtain ⟨⟨v', hv, hw⟩, ha⟩ := htakes ht
    rw [List.append_assoc, List.append_cancel_left_eq] at he
    rw [List.append_cancel_left_eq] at hw
    rw [he, ← hw]
    exact heq hv ha

theorem measures_string (cs : List Char) :
    Measures stringLiteral ['\''] cs (stringBody? cs) :=
  measures_of rfl rfl stringBody?_eq exists_stringBody cs

theorem measures_name (cs : List Char) : Measures quotedName ['"'] cs (nameBody? cs) :=
  measures_of rfl rfl nameBody?_eq exists_nameBody cs

theorem measures_code (cs : List Char) : Measures codeBlock ['$', '$'] cs (codeBody? cs) := by
  refine measures_of rfl rfl (fun hv _ => codeBody?_eq hv) (fun h => ?_) cs
  obtain ⟨v, after, he, hv⟩ := exists_codeBody h
  exact ⟨v, after, he, hv, fun _ _ => rfl⟩

end Rule
end Cql
