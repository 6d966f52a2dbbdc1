import Cql.Proofs.LongestMatch
import Cql.Proofs.Passes

/-!
Texts cut off behind a token. What a scan finds it finds again if the text ends anywhere behind it,
two dashes apart, which the end of a text makes a comment.
-/
namespace Cql
namespace Scan

theorem lineLength_le_append (cs tail : List Char) : lineLength cs ≤ lineLength (cs ++ tail) := by
  induction cs with
  | nil => exact Nat.zero_le _
  | cons c cs ih =>
    rw [List.cons_append, lineLength, lineLength]
    split
    · exact Nat.le_refl 1
    · exact Nat.succ_le_succ ih

theorem closeLength_le_append (cs tail : List Char) :
    closeLength cs ≤ closeLength (cs ++ tail) := by
  induction cs with
  | nil => exact Nat.zero_le _
  | cons c cs ih =>
    have hfront : c :: cs <+: c :: (cs ++ tail) := List.prefix_append (c :: cs) tail
    rw [List.cons_append, closeLength_cons, closeLength_cons]
    by_cases hp : ['*', '/'] <+: c :: cs
    · rw [if_pos hp, if_pos (hp.trans hfront)]
    · rw [if_neg hp]
      split
      case isTrue hp' =>
        -- a close that begins in the text and ends behind it begins with the last character
        have hl : cs.length < 1 := by
          by_contra hl
          exact hp (List.prefix_of_prefix_length_le hp' hfront
            (Nat.succ_le_succ (Nat.not_lt.1 hl)))
        have := closeLength_le cs
        omega
      case isFalse => exact Nat.succ_le_succ ih

theorem dashesOpenComment_of_append {cs : List Char} (hne : cs ≠ [])
    (h : dashesOpenComment cs = true) (tail : List Char) :
    dashesOpenComment (cs ++ tail) = true := by
  obtain ⟨c, cs, rfl⟩ := List.exists_cons_of_ne_nil hne
  rw [List.cons_append, dashesOpenComment_cons] at *
  refine h.imp_right (Or.imp_right (And.imp_right fun hn => ?_))
  rw [List.head?_append, hn]
  rfl

end Scan

namespace Rule
open Pattern Scan
variable {front tail cs w w' : List Char} {rule rule' : Rule}

theorem Fits.of_append (h : Fits (front ++ tail) rule w) (hw : w.length ≤ front.length) :
    Fits front rule w := by
  obtain ⟨after, he, ht⟩ := h
  obtain ⟨mid, rfl⟩ : w <+: front :=
    List.prefix_of_prefix_length_le (he ▸ List.prefix_append w after) (List.prefix_append _ _) hw
  rw [List.append_assoc, List.append_cancel_left_eq] at he
  refine ⟨mid, rfl, ht.imp (And.imp_right fun hc c hm => ?_) (And.imp_right fun ha => ?_)⟩
  · exact hc c (by rw [← he, List.head?_append, hm]; rfl)
  · exact (List.append_eq_nil_iff.1 (he.trans ha)).1

theorem Fits.append (h : Fits front rule w) (hw : w.length < front.length) (tail : List Char) :
    Fits (front ++ tail) rule w := by
  obtain ⟨after, rfl, ht⟩ := h
  obtain ⟨c, after, rfl⟩ : ∃ c t, after = c :: t := by
    refine List.exists_cons_of_ne_nil ?_
    intro ha
    rw [ha, List.append_nil] at hw
    exact Nat.lt_irrefl _ hw
  refine ⟨c :: after ++ tail, List.append_assoc _ _ _, ht.imp id (And.imp_right fun ha => ?_)⟩
  cases ha

theorem Fits.length_le (h : Fits cs rule w) : w.length ≤ cs.length := by
  obtain ⟨after, rfl, -⟩ := h
  rw [List.length_append]
  exact Nat.le_add_right _ _

/-- A match that takes all of a text takes as much where the text goes on, or more. Two dashes do
not stay a comment, and a literal may lose its close. -/
theorem Takes.exists_append (h : rule.Takes front []) (hd : front ≠ ['-', '-'])
    (hs : rule ≠ .stringLiteral) (hq : rule ≠ .quotedName) (tail : List Char) :
    ∃ w, Fits (front ++ tail) rule w ∧ front.length ≤ w.length := by
  cases rule with
  | space =>
    obtain ⟨hne, hb⟩ := mem_plus_one.1 ((takes_of_openPattern_zero rfl).1 h).1
    obtain ⟨c, cs, rfl⟩ := List.exists_cons_of_ne_nil hne
    obtain ⟨w, hw⟩ := exists_fits_space (hb c List.mem_cons_self) (cs ++ tail)
    refine ⟨w, hw, ?_⟩
    rw [length_of_fits_space hw, ← List.cons_append, runLength_append hb]
    exact Nat.le_add_right _ _
  | lineComment =>
    obtain ⟨v, rfl, hv⟩ | ⟨v, rfl, hv⟩ | ⟨v, rfl, hv, hopen⟩ := takes_lineComment.1 h
    all_goals
      have hline := lineLength_le_append v tail
      have hv := lineLength_eq hv
      rw [List.append_nil] at hv
      rw [hv] at hline
    · obtain ⟨w, hw, hl⟩ := exists_fits_hash (v ++ tail)
      exact ⟨w, hw, by simpa [hl] using hline⟩
    · obtain ⟨w, hw, hl⟩ := exists_fits_slashes (v ++ tail)
      exact ⟨w, hw, by simpa [hl] using hline⟩
    · have hne : v ≠ [] := fun hn => hd (by rw [hn]; rfl)
      rw [List.append_nil] at hopen
      obtain ⟨w, hw, hl⟩ := exists_fits_dashes (dashesOpenComment_of_append hne hopen tail)
      exact ⟨w, hw, by simpa [hl] using hline⟩
  | blockComment =>
    obtain ⟨v, rfl, hv⟩ := takes_blockComment.1 h
    have hblock := closeLength_le_append v tail
    have hv := closeLength_eq hv
    rw [List.append_nil] at hv
    rw [hv] at hblock
    obtain ⟨w, hw, hl⟩ := exists_fits_block (v ++ tail)
    exact ⟨w, hw, by simpa [hl] using hblock⟩
  | stringLiteral => exact absurd rfl hs
  | quotedName => exact absurd rfl hq
  | codeBlock | uuid | hexadecimal | float | decimal | word | symbol =>
    obtain ⟨hw, -⟩ := (takes_of_openPattern_zero rfl).1 h
    exact ⟨front, (fits_iff rfl fun _ => rfl).2 ⟨List.prefix_append _ _, hw⟩, Nat.le_refl _⟩

/-- A literal between quotes is the only match there is: its quote begins no other rule, and the
first close is the one that counts. -/
theorem Fits.eq_of_quoted {q : Char} {l : Language Char} {body : List Char → Option Nat}
    (hp : rule'.pattern = {[q]} * l) (ho : rule'.openPattern = 0)
    (hr : (Lead.of q).rules = [rule']) (hm : ∀ cs, Measures rule' [q] cs (body cs))
    (h : Fits front rule w) (h' : rule'.Takes front []) :
    rule = rule' ∧ w.length = front.length := by
  have hv := ((takes_of_openPattern_zero ho).1 h').1
  rw [hp] at hv
  obtain ⟨v, -, rfl⟩ := mem_only_mul.1 hv
  have hrule := h.mem_rules.2
  rw [hr] at hrule
  obtain rfl := List.mem_singleton.1 hrule
  obtain ⟨u, rfl⟩ := (hm v).opens w h
  have hu := ((hm v).some_iff u.length).2 ⟨u, rfl, h⟩
  have hall := ((hm v).some_iff v.length).2 ⟨v, rfl, [], (List.append_nil _).symm, h'⟩
  have hl : u.length = v.length := Option.some.inj (hu.symm.trans hall)
  rw [List.length_append, List.length_append, hl]
  exact ⟨rfl, rfl⟩

theorem Best.of_append (h : Best (front ++ tail) rule w) (hw : w.length ≤ front.length)
    (hd : front ≠ ['-', '-']) : Best front rule w := by
  have hfit := h.1.of_append hw
  refine ⟨hfit, fun rule' w' h' => ?_⟩
  obtain hl | hl := Nat.lt_or_eq_of_le h'.length_le
  · exact h.2 rule' w' (h'.append hl tail)
  · -- the other match takes all of the text that is left
    obtain ⟨after, he, ht⟩ := h'
    obtain rfl : after = [] := by
      rw [he, List.length_append] at hl
      exact List.eq_nil_of_length_eq_zero (by omega)
    rw [List.append_nil] at he
    subst he
    by_cases hs : rule' = .stringLiteral
    · subst hs
      obtain ⟨rfl, hlen⟩ := hfit.eq_of_quoted rfl rfl rfl measures_string ht
      exact .inr ⟨hlen.symm, Nat.le_refl _⟩
    · by_cases hq : rule' = .quotedName
      · subst hq
        obtain ⟨rfl, hlen⟩ := hfit.eq_of_quoted rfl rfl rfl measures_name ht
        exact .inr ⟨hlen.symm, Nat.le_refl _⟩
      · obtain ⟨v, hv, hle⟩ := ht.exists_append hd hs hq tail
        have := h.2 rule' v hv
        omega

end Rule

theorem Scan.eq_nil_of_dashes {tail : List Char} (hl : (dashes tail).length ≤ 2)
    (hd : (dashes tail).kind = .symbol .minusMinus → (dashes tail).length < 2) : tail = [] := by
  cases tail with
  | nil => rfl
  | cons c cs =>
    unfold dashes at hl hd
    split at hl
    case isTrue =>
      have hpos : 0 < lineLength (c :: cs) := by
        unfold lineLength
        split <;> exact Nat.succ_pos _
      dsimp only at hl
      omega
    case isFalse hopen =>
      rw [if_neg hopen] at hd
      exact absurd (hd rfl) (Nat.lt_irrefl 2)

open Scan Rule in
/-- A scan finds the same where the text is cut off behind it, unless the cut leaves two dashes
alone. -/
theorem scan_of_append {front tail : List Char} {x : Lexeme} (hx : scan (front ++ tail) = .ok x)
    (hl : x.length ≤ front.length)
    (hd : x.kind = .symbol .minusMinus → x.length < front.length) : scan front = .ok x := by
  cases front with
  | nil =>
    cases tail with
    | nil => exact hx
    | cons c cs => exact absurd (scan_length_pos hx) (Nat.not_lt.2 hl)
  | cons c cs =>
    by_cases hdash : c :: cs = ['-', '-']
    · obtain ⟨rfl, rfl⟩ := List.cons.inj hdash
      obtain rfl : dashes tail = x := Except.ok.inj hx
      obtain rfl := eq_nil_of_dashes hl hd
      rfl
    · obtain ⟨rule, w, hb, rfl⟩ := scan_eq_ok.1 hx
      exact scan_eq_ok.2 ⟨rule, w, hb.of_append hl hdash, rfl⟩

namespace Lexer
variable {l m : Lexer} {ts : List Token}

/-- Tokens are passed where the text ends behind the last of them. -/
theorem Passes.cut (h : Passes l ts m) (hd : ∀ t ∈ ts.getLast?, t.kind ≠ .symbol .minusMinus) :
    Passes { l with rest := ts.flatMap Token.text } ts { m with rest := [] } := by
  induction h with
  | refl l => exact .refl _
  | @cons l m x ts hr hx later ih =>
    have hrest : l.rest = (l.token x).text ++ ts.flatMap Token.text ++ m.rest :=
      (Passes.cons hr hx later).rest_eq
    have hlen := length_text_token hx
    let front : Lexer := { l with rest := (l.token x).text ++ ts.flatMap Token.text }
    have hne : front.rest ≠ [] := List.append_ne_nil_of_left_ne_nil (text_token_ne_nil hr hx) _
    have hscan : scan front.rest = .ok x := by
      refine scan_of_append (hrest ▸ hx) ?_ fun hk => ?_
      · rw [List.length_append, hlen]
        exact Nat.le_add_right _ _
      · -- two dashes are not the last token, and the next one is not empty
        cases later with
        | refl => exact absurd hk (hd _ rfl)
        | cons hr' hx' _ =>
          have hpos := List.length_pos_iff.2 (text_token_ne_nil hr' hx')
          simp only [front, List.flatMap_cons, List.length_append, hlen]
          omega
    have htake : front.rest.take x.length = l.rest.take x.length := List.take_left' hlen
    have hdrop : front.rest.drop x.length = ts.flatMap Token.text := List.drop_left' hlen
    have htoken : front.token x = l.token x := by rw [token, token, htake]
    have hpass : front.pass x = { l.pass x with rest := ts.flatMap Token.text } := by
      rw [pass, pass, htake, hdrop]
    have htail : ∀ t ∈ ts.getLast?, t.kind ≠ .symbol .minusMinus :=
      fun t ht => hd t (by rw [List.getLast?_cons, ht]; rfl)
    have hcut := Passes.cons hne hscan (hpass ▸ ih htail)
    rwa [htoken] at hcut

/-- Where a text is cut off behind one of its tokens, the tokens before the cut are all of its
tokens, whatever comes behind it. Two dashes cut off would be a comment. -/
theorem tokenizeAll_truncated (config : Config) {text : List Char} {ts : List Token} {t : Token}
    (h : (Session.ofLexer (ofText config text)).answers (List.replicate (ts.length + 1) .next) =
      (ts ++ [t]).map .token)
    (he : t.isEof = false) (hd : t.kind ≠ .symbol .minusMinus) :
    ∃ front, slice text 0 t.stop = some front ∧ utf8Size front = t.stop ∧
      (ofText config front).tokenizeAll.result =
        .ok (ts ++ [t] ++ [.of .eof [] (.after front) (ts.length + 1)]) := by
  have hlast {p : Token → Prop} (hp : p t) : ∀ u ∈ (ts ++ [t]).getLast?, p u := by
    rw [List.getLast?_concat]
    exact fun u hu => Option.some.inj hu ▸ hp
  rw [← List.length_singleton (a := t), ← List.length_append] at h
  obtain ⟨m, hpass⟩ := passes_of_answers h (hlast he)
  obtain ⟨htext, hm⟩ := hpass.eq_of_ofText
  let front := (ts ++ [t]).flatMap Token.text
  have hsize : t.stop = utf8Size front := by
    rw [hpass.stop_getLast t List.getLast?_concat, hm]
    rfl
  have hslice : slice text 0 (0 + utf8Size front) = some front := by
    rw [htext]
    exact slice_append [] front m.rest
  have hcut : Passes (ofText config front) (ts ++ [t]) { m with rest := [] } :=
    hpass.cut (hlast hd)
  have hend : endToken { m with rest := [] } = .of .eof [] (.after front) (ts.length + 1) := by
    rw [hm, List.length_append, List.length_singleton]
    rfl
  refine ⟨front, ?_, hsize.symm, ?_⟩
  · rw [hsize, ← hslice, Nat.zero_add]
  · rw [hcut.tokenizeAll_of_nil rfl, hend]

/-- The cut falls into what the number looks ahead at for an exponent. The error is behind it. -/
theorem tokenizeAll_truncated_exponent :
    let text := ['1', 'e', '+', '$']
    let ts : List Token := [.of .decimalLiteral ['1'] ⟨1, 1, 0⟩ 0]
    let t : Token := .of .objectName ['e'] ⟨1, 2, 1⟩ 1
    (Session.ofLexer (ofText {} text)).answers (List.replicate (ts.length + 1) .next) =
        (ts ++ [t]).map .token ∧
      t.isEof = false ∧ t.kind ≠ .symbol .minusMinus ∧
      ∃ front, slice text 0 t.stop = some front ∧ utf8Size front = t.stop ∧
        (ofText {} front).tokenizeAll.result =
          .ok (ts ++ [t] ++ [.of .eof [] (.after front) (ts.length + 1)]) := by
  intro text ts t
  have h : (Session.ofLexer (ofText {} text)).answers (List.replicate (ts.length + 1) .next) =
      (ts ++ [t]).map .token := by decide +kernel
  have he : t.isEof = false := by decide
  have hd : t.kind ≠ .symbol .minusMinus := by decide
  exact ⟨h, he, hd, tokenizeAll_truncated {} h he hd⟩

/-- Two dashes alone are a comment, though they are a symbol before a letter. -/
example : (ofText {} ['-', '-', 'b']).ahead.map Token.kind = [.symbol .minusMinus, .objectName] ∧
    (ofText {} ['-', '-']).ahead.map Token.kind = [.lineComment] := by decide +kernel

end Lexer
end Cql
