import Cql.Proofs.Rule.Lead
import Cql.Proofs.Rule.Uuid

/-!
The best match at a place, settled against every rule that can begin there: blanks, comments,
literals between delimiters and symbols.
-/
namespace Cql
namespace Rule
open Pattern Scan

variable {c : Char} {cs w : List Char} {rule rule' : Rule} {x : Lexeme} {n : Nat}

def Yields (cs : List Char) (rule : Rule) (w : List Char) (rule' : Rule) : Prop :=
  ∀ w', Fits cs rule' w' →
    w'.length < w.length ∨ w'.length = w.length ∧ rule.rank ≤ rule'.rank

theorem yields_of_le (hr : rule.rank ≤ rule'.rank)
    (h : ∀ w', Fits cs rule' w' → w'.length ≤ w.length) : Yields cs rule w rule' :=
  fun w' hw => (Nat.lt_or_eq_of_le (h w' hw)).imp_right fun he => ⟨he, hr⟩

theorem yields_self (h : ∀ w', Fits cs rule w' → w'.length ≤ w.length) : Yields cs rule w rule :=
  yields_of_le le_rfl h

theorem yields_of_lt (h : ∀ w', Fits cs rule' w' → w'.length < w.length) :
    Yields cs rule w rule' := fun w' hw => .inl (h w' hw)

theorem yields_of_not (h : ∀ w', ¬ Fits cs rule' w') : Yields cs rule w rule' :=
  fun w' hw => absurd hw (h w')

theorem yields_symbol {s : Symbol} (h : s.text.length < w.length) :
    Yields cs rule w (.symbol s) :=
  yields_of_lt fun _ hw => (fits_symbol.1 hw).2.2 ▸ h

theorem yields_symbol_self {s : Symbol} : Yields cs (.symbol s) s.text (.symbol s) :=
  yields_self fun _ hw => by rw [(fits_symbol.1 hw).2.2]

/-- The kind and the length of the best match. -/
def Wins (cs : List Char) (x : Lexeme) : Prop :=
  ∃ rule w, Best cs rule w ∧ x = ⟨rule.kind w, w.length⟩

theorem wins_of {lead : Lead} (hc : Lead.of c = lead) (hw : Fits (c :: cs) rule w)
    (hx : x = ⟨rule.kind w, w.length⟩)
    (h : ∀ rule' ∈ lead.rules, Yields (c :: cs) rule w rule') : Wins (c :: cs) x :=
  ⟨rule, w, ⟨hw, fun rule' w' h' => h rule' (hc ▸ h'.mem_rules.2) w' h'⟩, hx⟩

/-- Where a single rule can begin, its longest match is the best. -/
theorem wins_only {lead : Lead} (hc : Lead.of c = lead) (hr : lead.rules = [rule])
    (hw : Fits (c :: cs) rule w) (hx : x = ⟨rule.kind w, w.length⟩)
    (h : ∀ w', Fits (c :: cs) rule w' → w'.length ≤ w.length) : Wins (c :: cs) x := by
  refine wins_of hc hw hx ?_
  rw [hr]
  exact List.forall_mem_singleton.2 (yields_self h)

theorem length_of_fits_space (h : Fits cs space w) : w.length = runLength isBlank cs := by
  obtain ⟨after, rfl, ht⟩ := h
  obtain ⟨hw, ha⟩ := (takes_of_openPattern_zero rfl).1 ht
  have ha : runLength isBlank after = 0 := runLength_eq_zero ha
  rw [runLength_append (mem_plus_one.1 hw).2, ha, Nat.add_zero]

theorem exists_fits_space (hc : isBlank c = true) (cs : List Char) :
    ∃ w, Fits (c :: cs) space w := by
  obtain ⟨w, after, he, hl, hw, ha⟩ := exists_run isBlank (c :: cs)
  refine ⟨w, after, he, (takes_of_openPattern_zero rfl).2 ⟨mem_plus_one.2 ⟨?_, hw⟩, ha⟩⟩
  intro he
  subst he
  exact absurd hl (runLength_pos hc).ne'

theorem wins_blank (hc : isBlank c = true) (cs : List Char) :
    Wins (c :: cs) ⟨.space, runLength isBlank (c :: cs)⟩ := by
  obtain ⟨w, hw⟩ := exists_fits_space hc cs
  have hl := length_of_fits_space hw
  refine wins_only (Lead.of_blank hc) rfl hw (by rw [hl]; rfl) fun w' h' => ?_
  rw [length_of_fits_space h', hl]

theorem wins_hash (cs : List Char) : Wins ('#' :: cs) (Scan.lineComment ('#' :: cs)) := by
  have hlead : Lead.of '#' = .hash := by decide
  obtain ⟨w, hw, hl⟩ := exists_fits_hash cs
  refine wins_only hlead rfl hw (by rw [hl]; rfl) fun w' h' => ?_
  rw [h'.hash, hl]

theorem not_fits_only {lead : Lead} (hc : Lead.of c = lead) (hr : lead.rules = [rule])
    (h : ∀ w, ¬ Fits (c :: cs) rule w) (rule' : Rule) (w : List Char) :
    ¬ Fits (c :: cs) rule' w := by
  intro hw
  have hm := hw.mem_rules.2
  rw [hc, hr] at hm
  exact h w (List.mem_singleton.1 hm ▸ hw)

section Literal
variable {lead : Lead} {kind : TokenKind} {literal : Literal} {opening : List Char}
  {body : Option Nat}

theorem Measures.wins (hm : Measures rule (c :: opening) cs body) (hc : Lead.of c = lead)
    (hr : lead.rules = [rule]) (hk : ∀ w, rule.kind w = kind)
    (h : Scan.literal kind literal (c :: opening).length body = .ok x) :
    Wins (c :: (opening ++ cs)) x := by
  cases body with
  | none => cases h
  | some n =>
    cases h
    obtain ⟨v, rfl, hv⟩ := (hm.some_iff n).1 rfl
    refine wins_only hc hr hv ?_ fun w' h' => ?_
    · rw [hk, List.length_append, Nat.add_comm]
    · obtain ⟨t, rfl⟩ := hm.opens w' h'
      have ht := Option.some.inj ((hm.some_iff t.length).2 ⟨t, rfl, h'⟩)
      rw [List.length_append, List.length_append, ht]

theorem Measures.not_fits (hm : Measures rule (c :: opening) cs body) (hc : Lead.of c = lead)
    (hr : lead.rules = [rule]) {fault : Fault}
    (h : Scan.literal kind literal (c :: opening).length body = .error fault) :
    (∀ rule' w, ¬ Fits (c :: (opening ++ cs)) rule' w) ∧ fault = .unterminated literal := by
  cases body with
  | some n => cases h
  | none =>
    cases h
    refine ⟨not_fits_only hc hr fun w hw => ?_, rfl⟩
    obtain ⟨v, rfl⟩ := hm.opens w hw
    cases (hm.some_iff v.length).2 ⟨v, rfl, hw⟩

end Literal

theorem wins_slash (cs : List Char) : Wins ('/' :: cs) (slash cs) := by
  have hlead : Lead.of '/' = .slash := by decide
  have hnoLine {cs w : List Char} (hn : ∀ cs', cs ≠ '/' :: cs') :
      ¬ Fits ('/' :: cs) lineComment w := by
    intro h
    obtain ⟨cs', hc, -⟩ := h.slashes
    exact hn cs' hc
  have hnoBlock {cs w : List Char} (hn : ∀ cs', cs ≠ '*' :: cs') :
      ¬ Fits ('/' :: cs) blockComment w := by
    intro h
    obtain ⟨cs', hc, -⟩ := h.block
    exact hn cs' hc
  unfold slash
  split
  case h_1 cs =>
    obtain ⟨w, hw, hl⟩ := exists_fits_slashes cs
    refine wins_of hlead hw (by rw [hl]; rfl) ?_
    simp only [Lead.rules, List.forall_mem_cons]
    refine ⟨yields_self fun w' h' => ?_, yields_of_not fun w' => hnoBlock (by simp),
      yields_symbol ?_, List.forall_mem_nil _⟩
    · obtain ⟨_, hc, hl'⟩ := h'.slashes
      cases hc
      rw [hl, hl']
    · rw [hl]
      exact Nat.lt_add_left _ (by decide)
  case h_2 cs =>
    obtain ⟨w, hw, hl⟩ := exists_fits_block cs
    refine wins_of hlead hw (by rw [hl]; rfl) ?_
    simp only [Lead.rules, List.forall_mem_cons]
    refine ⟨yields_of_not fun w' => hnoLine (by simp), yields_self fun w' h' => ?_,
      yields_symbol ?_, List.forall_mem_nil _⟩
    · obtain ⟨_, hc, hl'⟩ := h'.block
      cases hc
      rw [hl, hl']
    · rw [hl]
      exact Nat.lt_add_left _ (by decide)
  case h_3 hl hb =>
    have hw : Fits ('/' :: cs) (symbol .divide) ['/'] := fits_symbol.2 ⟨⟨cs, rfl⟩, rfl, rfl⟩
    refine wins_of hlead hw rfl ?_
    simp only [Lead.rules, List.forall_mem_cons]
    refine ⟨yields_of_not fun w' => hnoLine hl, yields_of_not fun w' => hnoBlock hb,
      yields_symbol_self, List.forall_mem_nil _⟩

theorem wins_comparison {lead : Lead} {alone orEqual : Symbol} (hc : Lead.of c = lead)
    (hr : lead.rules = [.symbol alone, .symbol orEqual]) (ha : alone.text = [c])
    (ho : orEqual.text = [c, '=']) (hq : alone.isQuote = false ∧ orEqual.isQuote = false)
    (cs : List Char) : Wins (c :: cs) (comparison alone orEqual cs) := by
  unfold comparison
  split
  case h_1 cs =>
    have hw : Fits (c :: '=' :: cs) (.symbol orEqual) orEqual.text :=
      fits_symbol.2 ⟨⟨cs, by rw [ho]; rfl⟩, hq.2, rfl⟩
    refine wins_of hc hw (by rw [ho]; rfl) ?_
    rw [hr, List.forall_mem_cons, List.forall_mem_singleton]
    refine ⟨yields_symbol ?_, yields_symbol_self⟩
    rw [ha, ho]
    exact Nat.lt_succ_self 1
  case h_2 hn =>
    have hw : Fits (c :: cs) (.symbol alone) alone.text :=
      fits_symbol.2 ⟨⟨cs, by rw [ha]; rfl⟩, hq.1, rfl⟩
    refine wins_of hc hw (by rw [ha]; rfl) ?_
    rw [hr, List.forall_mem_cons, List.forall_mem_singleton]
    refine ⟨yields_symbol_self, yields_of_not fun w' h' => ?_⟩
    obtain ⟨⟨after, h⟩, -, rfl⟩ := fits_symbol.1 h'
    rw [ho] at h
    cases h
    exact hn after rfl

theorem ofChar?_text {s : Symbol} (h : Symbol.ofChar? c = some s) :
    s.text = [c] ∧ s.isQuote = false := by
  unfold Symbol.ofChar? at h
  split at h <;> cases h <;> exact ⟨rfl, rfl⟩

theorem mem_other : ∀ rule ∈ Lead.other.rules,
    ∃ s d, rule = .symbol s ∧ s.text = [d] ∧ Symbol.ofChar? d = some s := by
  simp only [Lead.rules, List.forall_mem_cons]
  and_intros
  all_goals first | exact ⟨_, _, rfl, rfl, rfl⟩ | exact List.forall_mem_nil _

theorem wins_symbol {s : Symbol} (hc : Lead.of c = .other) (h : Symbol.ofChar? c = some s)
    (cs : List Char) : Wins (c :: cs) ⟨.symbol s, 1⟩ := by
  obtain ⟨ht, hq⟩ := ofChar?_text h
  have hw : Fits (c :: cs) (.symbol s) s.text := fits_symbol.2 ⟨⟨cs, by rw [ht]; rfl⟩, hq, rfl⟩
  refine wins_of hc hw (by rw [ht]; rfl) fun rule' hr => ?_
  obtain ⟨s', d, rfl, ht', hs'⟩ := mem_other _ hr
  intro w' h'
  obtain ⟨⟨after, he⟩, -, rfl⟩ := fits_symbol.1 h'
  rw [ht'] at he
  cases he
  rw [h] at hs'
  cases hs'
  exact .inr ⟨rfl, le_rfl⟩

theorem not_fits_other (hc : Lead.of c = .other) (h : Symbol.ofChar? c = none) :
    ¬ Fits (c :: cs) rule w := by
  intro hw
  obtain ⟨s, d, rfl, ht, hs⟩ := mem_other _ (hc ▸ hw.mem_rules.2)
  obtain ⟨⟨after, he⟩, -, rfl⟩ := fits_symbol.1 hw
  rw [ht] at he
  cases he
  cases h.symm.trans hs

end Rule
end Cql
