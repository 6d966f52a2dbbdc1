import Cql.Proofs.Lookahead
import Cql.Proofs.Truncation

/-!
Texts printed anew. The words of a text with gaps between them, whatever blanks and comments stood
there before, are read as the same words again. A gap begins with a tab, which nothing goes on with
and which no rule looks behind; a space would make two dashes a comment.
-/
namespace Cql
open Scan

def Token.spelling (t : Token) : TokenKind × List Char := (t.kind, t.text)

/-- The visible tokens before the end of a text. -/
def words (ts : List Token) : List Token := ts.filter fun t => !t.isHidden && !t.isEof

/-- Blanks, the first of them a tab. -/
def IsGap (gap : List Char) : Prop := gap.head? = some '\t' ∧ ∀ c ∈ gap, isBlank c = true

def reprint (ws : List Token) (gaps : List (List Char)) : List Char :=
  (List.zipWith (fun t gap => t.text ++ gap) ws gaps).flatten

@[simp] theorem words_append (ts us : List Token) : words (ts ++ us) = words ts ++ words us :=
  List.filter_append ts us

@[simp] theorem words_endToken (l : Lexer) : words [l.endToken] = [] := by
  simp [words]

theorem Rule.eq_symbol_of_kind {rule : Rule} {w : List Char} {s : Symbol}
    (h : rule.kind w = .symbol s) : rule = .symbol s := by
  cases rule with
  | symbol t => exact congrArg Rule.symbol (TokenKind.symbol.inj h)
  | word =>
    simp only [kind] at h
    split at h <;> cases h
  | _ => cases h

namespace Scan
open Rule

theorem stops_tab : Stops '\t' := by
  constructor <;> decide

theorem apart_tab (more : List Char) : Apart ('\t' :: more) :=
  fun _ hd => Option.some.inj hd ▸ stops_tab

theorem closes_of_visible {cs : List Char} {kind : TokenKind} (h : kind.isHidden = false) :
    Closes cs kind := by
  unfold Closes
  split
  case h_1 | h_2 => cases h
  case h_3 => trivial

theorem eq_of_scan_symbol {cs : List Char} {x : Lexeme} {s : Symbol} (hne : cs ≠ [])
    (hx : scan cs = .ok x) (hk : x.kind = .symbol s) :
    cs.take x.length = s.text ∧ x = ⟨.symbol s, s.text.length⟩ := by
  obtain ⟨c, cs, rfl⟩ := List.exists_cons_of_ne_nil hne
  obtain ⟨rule, w, hb, rfl⟩ := scan_eq_ok.1 hx
  obtain rfl := eq_symbol_of_kind hk
  obtain ⟨hp, -, rfl⟩ := fits_symbol.1 hb.1
  exact ⟨List.prefix_iff_eq_take.1 hp |>.symm, rfl⟩

end Scan

/-- A visible token is found again before a tab, whatever it stood before. -/
theorem scan_before_tab {cs : List Char} {x : Lexeme} (hne : cs ≠ []) (hx : scan cs = .ok x)
    (hv : x.kind.isHidden = false) (more : List Char) :
    scan (cs.take x.length ++ '\t' :: more) = .ok x := by
  by_cases hd : x.kind = .symbol .minusMinus
  · obtain ⟨htake, rfl⟩ := eq_of_scan_symbol hne hx hd
    rw [htake]
    rfl
  · have hlen : (cs.take x.length).length = x.length := List.length_take_of_le (scan_length_le hx)
    obtain ⟨c, t, rfl⟩ := List.exists_cons_of_ne_nil hne
    have hpos := scan_length_pos hx
    have hcut : scan ((c :: t).take x.length) = .ok x := by
      rw [← List.take_append_drop x.length (c :: t)] at hx
      exact scan_of_append hx hlen.ge fun hk => absurd hk hd
    refine scan_append (apart_tab more) ?_ hcut (fun hk => ?_) (closes_of_visible hv)
    · exact List.ne_nil_of_length_pos (hlen.symm ▸ hpos)
    · rw [hk] at hv
      cases hv

/-- A token that is found at the front of its text wherever a tab stands behind it. -/
structure Token.Recurs (t : Token) : Prop where
  text_ne_nil : t.text ≠ []
  isHidden : t.kind.isHidden = false
  scan_eq : ∀ more, scan (t.text ++ '\t' :: more) = .ok ⟨t.kind, t.text.length⟩

/-- What recurs does not begin with a blank, or it would be one. -/
theorem Token.Recurs.head {t : Token} (h : t.Recurs) : ∀ c ∈ t.text.head?, isBlank c = false := by
  intro c hc
  obtain ⟨cs, hcs⟩ := List.head?_eq_some_iff.1 hc
  have hscan := h.scan_eq []
  rw [hcs, List.cons_append] at hscan
  rw [← Bool.not_eq_true]
  intro hb
  simp only [scan, Lead.of_blank hb, Except.ok.injEq, Lexeme.mk.injEq] at hscan
  have hv := h.isHidden
  rw [← hscan.1] at hv
  cases hv

theorem head_reprint {ws : List Token} (hw : ∀ t ∈ ws, t.Recurs) (gaps : List (List Char)) :
    ∀ c ∈ (reprint ws gaps).head?, isBlank c = false := by
  intro c hc
  cases ws with
  | nil => cases hc
  | cons t ws =>
    cases gaps with
    | nil => cases hc
    | cons gap gaps =>
      have ht := hw t List.mem_cons_self
      obtain ⟨d, cs, hd⟩ := List.exists_cons_of_ne_nil ht.text_ne_nil
      simp only [reprint, List.zipWith_cons_cons, List.flatten_cons, hd, List.cons_append,
        List.head?_cons] at hc
      exact ht.head c (hd ▸ hc)

theorem IsGap.scan_append {gap more : List Char} (h : IsGap gap)
    (hmore : ∀ c ∈ more.head?, isBlank c = false) :
    scan (gap ++ more) = .ok ⟨.space, gap.length⟩ := by
  have hrun : runLength isBlank (gap ++ more) = gap.length := by
    rw [runLength_append h.2, runLength_eq_zero hmore, Nat.add_zero]
  obtain ⟨blanks, rfl⟩ := List.head?_eq_some_iff.1 h.1
  exact congrArg (fun n => Except.ok (Lexeme.mk .space n)) hrun

namespace Lexer
variable {l m : Lexer} {x : Lexeme} {ts : List Token}

theorem token_recurs (hr : l.rest ≠ []) (hx : scan l.rest = .ok x)
    (hv : (l.token x).isHidden = false) : (l.token x).Recurs := by
  have hv : x.kind.isHidden = false := (Token.isHidden_of x.kind _ l.position l.index).symm.trans hv
  refine ⟨text_token_ne_nil hr hx, hv, fun more => ?_⟩
  rw [length_text_token hx]
  exact scan_before_tab hr hx hv more

theorem Passes.recurs (h : Passes l ts m) {t : Token} (ht : t ∈ ts) (hv : t.isHidden = false) :
    t.Recurs := by
  induction h with
  | refl l => cases ht
  | cons hr hx _ ih =>
    rcases List.mem_cons.1 ht with rfl | ht
    · exact token_recurs hr hx hv
    · exact ih ht

theorem passes_word {t : Token} {gap more : List Char} (ht : t.Recurs) (hg : IsGap gap)
    (hmore : ∀ c ∈ more.head?, isBlank c = false) (hr : l.rest = t.text ++ (gap ++ more)) :
    ∃ us m, Passes l us m ∧ m.rest = more ∧ (words us).map Token.spelling = [t.spelling] := by
  let x : Lexeme := ⟨t.kind, t.text.length⟩
  let y : Lexeme := ⟨.space, gap.length⟩
  have hne : l.rest ≠ [] := hr ▸ List.append_ne_nil_of_left_ne_nil ht.text_ne_nil _
  have hx : scan l.rest = .ok x := by
    obtain ⟨blanks, rfl⟩ := List.head?_eq_some_iff.1 hg.1
    exact hr ▸ ht.scan_eq (blanks ++ more)
  have hrest : (l.pass x).rest = gap ++ more := by
    rw [pass, hr]
    exact List.drop_left
  have hne' : (l.pass x).rest ≠ [] := by
    rw [hrest]
    refine List.append_ne_nil_of_left_ne_nil ?_ more
    intro hnil
    cases (hnil ▸ hg).1
  have hy : scan (l.pass x).rest = .ok y := hrest ▸ hg.scan_append hmore
  have hspelling : (l.token x).spelling = t.spelling := by
    refine Prod.ext rfl ?_
    change l.rest.take t.text.length = t.text
    rw [hr]
    exact List.take_left
  have hvisible : (l.token x).isHidden = false := (Token.isHidden_of ..).trans ht.isHidden
  have hhidden : ((l.pass x).token y).isHidden = true := Token.isHidden_of ..
  refine ⟨[l.token x, (l.pass x).token y], (l.pass x).pass y,
    .cons hne hx (.cons hne' hy (.refl _)), ?_, ?_⟩
  · change (l.pass x).rest.drop gap.length = more
    rw [hrest]
    exact List.drop_left
  · have hwords : words [l.token x, (l.pass x).token y] = [l.token x] := by
      simp [words, hvisible, hhidden, hne, hx]
    rw [hwords, List.map_singleton, hspelling]

theorem passes_reprint {ws : List Token} {gaps : List (List Char)} (hw : ∀ t ∈ ws, t.Recurs)
    (hg : ∀ gap ∈ gaps, IsGap gap) (hn : gaps.length = ws.length)
    (hr : l.rest = reprint ws gaps) :
    ∃ us m, Passes l us m ∧ m.rest = [] ∧
      (words us).map Token.spelling = ws.map Token.spelling := by
  induction ws generalizing l gaps with
  | nil => exact ⟨[], l, .refl l, hr, rfl⟩
  | cons t ws ih =>
    cases gaps with
    | nil => cases hn
    | cons gap gaps =>
      obtain ⟨ht, hws⟩ := List.forall_mem_cons.1 hw
      obtain ⟨hgap, hgaps⟩ := List.forall_mem_cons.1 hg
      have hsplit : l.rest = t.text ++ (gap ++ reprint ws gaps) := by
        rw [hr, ← List.append_assoc]
        rfl
      obtain ⟨us, m, hm, hrest, hword⟩ := passes_word ht hgap (head_reprint hws gaps) hsplit
      obtain ⟨vs, n, hn, hend, hwords⟩ := ih hws hgaps (Nat.succ.inj hn) hrest
      refine ⟨us ++ vs, n, hm.trans hn, hend, ?_⟩
      simp [hword, hwords]

/-- The words of a text that is read without an error, printed with a gap behind each, are read
without an error and as the same words, and nothing else is visible. -/
theorem tokenizeAll_reprint (config config' : Config) {text : List Char} {ts : List Token}
    (h : (ofText config text).tokenizeAll.result = .ok ts) {gaps : List (List Char)}
    (hg : ∀ gap ∈ gaps, IsGap gap) (hn : gaps.length = (words ts).length) :
    ∃ ts', (ofText config' (reprint (words ts) gaps)).tokenizeAll.result = .ok ts' ∧
      (words ts').map Token.spelling = (words ts).map Token.spelling := by
  obtain ⟨e, he, rfl⟩ := tokenizeAll_eq_ok.1 h
  obtain ⟨m, hm, -⟩ := passes_ahead (ofText config text)
  have hw : ∀ t ∈ words ((ofText config text).ahead ++ [e]), t.Recurs := by
    intro t ht
    obtain ⟨hmem, hv⟩ := List.mem_filter.1 ht
    rw [Bool.and_eq_true, Bool.not_eq_true', Bool.not_eq_true'] at hv
    rcases List.mem_append.1 hmem with hmem | hmem
    · exact hm.recurs hmem hv.1
    · -- the end token is no word
      rw [List.mem_singleton.1 hmem, ending_isEof he] at hv
      cases hv.2
  obtain ⟨us, n, hus, hrest, hwords⟩ :=
    passes_reprint (l := ofText config' _) hw hg hn rfl
  exact ⟨us ++ [n.endToken], hus.tokenizeAll_of_nil hrest, by simp [hwords]⟩

/-- Two dashes before a word, with a comment behind it that is dropped. -/
theorem tokenizeAll_reprint_dashes :
    let text := ['-', '-', 'x', '#']
    let gaps := [['\t', ' '], ['\t', '\n']]
    let ts : List Token := [.of (.symbol .minusMinus) ['-', '-'] ⟨1, 1, 0⟩ 0,
      .of .objectName ['x'] ⟨1, 3, 2⟩ 1, .of .lineComment ['#'] ⟨1, 4, 3⟩ 2,
      .of .eof [] ⟨1, 5, 4⟩ 3]
    (ofText {} text).tokenizeAll.result = .ok ts ∧ (∀ gap ∈ gaps, IsGap gap) ∧
      gaps.length = (words ts).length ∧
      reprint (words ts) gaps = ['-', '-', '\t', ' ', 'x', '\t', '\n'] ∧
      ∃ ts', (ofText {} (reprint (words ts) gaps)).tokenizeAll.result = .ok ts' ∧
        (words ts').map Token.spelling =
          [(.symbol .minusMinus, ['-', '-']), (.objectName, ['x'])] := by
  intro text gaps ts
  have h : (ofText {} text).tokenizeAll.result = .ok ts := by decide +kernel
  have hg : ∀ gap ∈ gaps, IsGap gap := by
    simp only [gaps, List.forall_mem_cons]
    exact ⟨⟨rfl, List.all_eq_true.1 rfl⟩, ⟨rfl, List.all_eq_true.1 rfl⟩, List.forall_mem_nil _⟩
  have hn : gaps.length = (words ts).length := by decide +kernel
  exact ⟨h, hg, hn, by decide +kernel, tokenizeAll_reprint {} {} h hg hn⟩

end Lexer
end Cql
