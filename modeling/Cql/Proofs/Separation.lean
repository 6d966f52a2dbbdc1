import Cql.Proofs.Lookahead
import Cql.Proofs.Translation

/-!
Texts with a separator between them are read one by one: no token of the first goes on with the
separator, and what stands behind it is read as it is read alone.
-/
namespace Cql
open Scan

/-- A comment that nothing ends but the end of the text. -/
def Token.IsOpenComment (t : Token) : Prop :=
  t.kind = .lineComment ∧ t.text.getLast? ≠ some '\n' ∨
    t.kind = .blockComment ∧ (utf8Size t.text < 4 ∨ ¬ ['*', '/'] <:+ t.text)

instance (t : Token) : Decidable t.IsOpenComment :=
  inferInstanceAs (Decidable (_ ∨ _))

namespace Rule

theorem eq_of_kind {rule rule' : Rule} {w : List Char}
    (hr : rule' = .lineComment ∨ rule' = .blockComment) (h : rule.kind w = rule'.kind w) :
    rule = rule' := by
  obtain rfl | rfl := hr <;> cases rule <;> simp only [kind] at h
  case inl.word | inr.word => split at h <;> cases h
  all_goals first | rfl | cases h

end Rule

namespace Scan
open Pattern Rule
open scoped Computability

variable {cs : List Char} {x : Lexeme}

theorem exists_line (hx : scan cs = .ok x) (hk : x.kind = .lineComment) :
    ∃ u v after, cs = u ++ v ++ after ∧ x.length = (u ++ v).length ∧ EndsLine v after := by
  cases cs with
  | nil => cases hx; cases hk
  | cons c cs =>
    obtain ⟨rule, w, ⟨⟨after, he, ht⟩, -⟩, rfl⟩ := scan_eq_ok.1 hx
    rw [eq_of_kind (.inl rfl) hk] at ht
    obtain ⟨v, rfl, hv⟩ | ⟨v, rfl, hv⟩ | ⟨v, rfl, hv, -⟩ := takes_lineComment.1 ht <;>
      exact ⟨_, v, after, he, rfl, hv⟩

theorem exists_block (hx : scan cs = .ok x) (hk : x.kind = .blockComment) :
    ∃ v after, cs = ['/', '*'] ++ v ++ after ∧ x.length = (['/', '*'] ++ v).length ∧
      EndsBlock v after := by
  cases cs with
  | nil => cases hx; cases hk
  | cons c cs =>
    obtain ⟨rule, w, ⟨⟨after, he, ht⟩, -⟩, rfl⟩ := scan_eq_ok.1 hx
    rw [eq_of_kind (.inr rfl) hk] at ht
    obtain ⟨v, rfl, hv⟩ := takes_blockComment.1 ht
    exact ⟨v, after, he, rfl, hv⟩

theorem closes_of_length_lt (hx : scan cs = .ok x) (hl : x.length < cs.length) :
    Closes cs x.kind := by
  unfold Closes
  split
  case h_1 hk =>
    obtain ⟨u, v, after, rfl, he, hv | ⟨-, rfl⟩⟩ := exists_line hx hk
    · obtain ⟨_, -, _, rfl, rfl⟩ := hv
      simp
    · rw [List.append_nil, he] at hl
      exact absurd hl (Nat.lt_irrefl _)
  case h_2 hk =>
    obtain ⟨v, after, rfl, he, hv | ⟨-, rfl⟩⟩ := exists_block hx hk
    · exact hv.1.isInfix.trans (List.prefix_append v after).isInfix
    · rw [List.append_nil, he] at hl
      exact absurd hl (Nat.lt_irrefl _)
  case h_3 => trivial

/-- Four bytes are enough that the close of a block is not a part of its opening. -/
theorem close_suffix {v : List Char} (h : ['*', '/'] <:+ ['/', '*'] ++ v)
    (hs : 4 ≤ utf8Size (['/', '*'] ++ v)) : ['*', '/'] <:+ v := by
  have hv : v <:+ ['/', '*'] ++ v := List.suffix_append _ v
  obtain hl | hl := Nat.lt_or_ge v.length 2
  · -- a shorter body would be a part of the close that has all of its bytes
    obtain ⟨u, hu⟩ := List.suffix_of_suffix_length_le hv h (Nat.le_of_lt hl)
    have hclose : utf8Size ['*', '/'] = 2 := by decide
    have hopen : utf8Size ['/', '*'] = 2 := by decide
    by_cases hnil : u = []
    · exact ⟨[], by rw [← hu, hnil, List.nil_append, List.nil_append]⟩
    · have hpos := utf8Size_pos hnil
      simp only [← hu, utf8Size_append] at hclose
      simp only [utf8Size_append, hopen] at hs
      omega
  · exact List.suffix_of_suffix_length_le h hv hl

theorem closes_of_not_open {l : Lexer} (hx : scan l.rest = .ok x)
    (h : ¬ (l.token x).IsOpenComment) : Closes l.rest x.kind := by
  simp only [Token.IsOpenComment, not_or, not_and, not_lt, not_not] at h
  unfold Closes
  split
  case h_1 hk => exact List.mem_of_mem_take (List.mem_of_getLast? (h.1 hk))
  case h_2 hk =>
    obtain ⟨v, after, he, hl, -⟩ := exists_block hx hk
    have ht : (l.token x).text = ['/', '*'] ++ v := by
      rw [Lexer.token, he, hl]
      exact List.take_left
    obtain ⟨hsize, hend⟩ := h.2 hk
    rw [ht] at hsize hend
    rw [he]
    exact (close_suffix hend hsize).isInfix.trans (List.prefix_append v after).isInfix
  case h_3 => trivial

end Scan

/-- The symbols that begin nothing longer and go on with nothing. -/
def Symbol.separators : List Symbol :=
  [.semicolon, .comma, .colon, .modulo, .leftParen, .rightParen, .leftBrace, .rightBrace,
    .leftBracket, .rightBracket]

theorem Symbol.exists_stops : ∀ s ∈ Symbol.separators, ∃ d, s.text = [d] ∧ Stops d ∧
    isBlank d = false ∧ ∀ cs, scan (d :: cs) = .ok ⟨.symbol s, 1⟩ := by
  simp only [Symbol.separators, List.forall_mem_cons]
  and_intros
  all_goals first
    | exact List.forall_mem_nil _
    | refine ⟨_, rfl, ?_, rfl, fun cs => rfl⟩
      constructor <;> decide

namespace Lexer

def append (l : Lexer) (more : List Char) : Lexer := { l with rest := l.rest ++ more }

variable {l : Lexer} {more : List Char} {x : Lexeme}

theorem token_append (h : x.length ≤ l.rest.length) : (l.append more).token x = l.token x := by
  rw [token, append, List.take_append_of_le_length h, token]

theorem pass_append (h : x.length ≤ l.rest.length) :
    (l.append more).pass x = (l.pass x).append more := by
  simp only [pass, append, List.take_append_of_le_length h, List.drop_append_of_le_length h]

/-- A token ahead is still there if the text goes on. The last one must not be a comment that the
end of the text ends. -/
theorem scan_rest_append (h : Apart more) (hb : ∀ d ∈ more.head?, isBlank d = false)
    (hlast : ∀ t ∈ l.ahead.getLast?, ¬ t.IsOpenComment) (hr : l.rest ≠ [])
    (hx : scan l.rest = .ok x) : scan (l.append more).rest = .ok x := by
  refine scan_append h hr hx (fun _ => hb) ?_
  obtain hl | hl := Nat.lt_or_eq_of_le (scan_length_le hx)
  · exact closes_of_length_lt hx hl
  · refine closes_of_not_open hx (hlast _ ?_)
    have hend : (l.pass x).rest = [] := List.drop_eq_nil_iff.2 (Nat.le_of_eq hl.symm)
    simp [hr, hx, hend]

/-- The lexer at the end of its text, all tokens passed, on a text that goes on. -/
def behind (l : Lexer) (more : List Char) : Lexer :=
  { l with
    rest := more
    position := l.position.advance l.rest
    index := l.index + l.ahead.length }

theorem behind_of_nil (hr : l.rest = []) (more : List Char) : l.behind more = l.append more := by
  simp [behind, append, hr, Position.advance]

theorem behind_pass (hr : l.rest ≠ []) (hx : scan l.rest = .ok x) (more : List Char) :
    (l.pass x).behind more = l.behind more := by
  have hp : (l.pass x).position.advance (l.pass x).rest = l.position.advance l.rest := by
    rw [pass, Position.advance_advance, List.take_append_drop]
  have hn : (l.pass x).index + (l.pass x).ahead.length = l.index + l.ahead.length := by
    simp [hr, hx, pass, Nat.add_right_comm _ 1, Nat.add_assoc]
  rw [behind, behind, hp, hn]
  rfl

/-- A text that is read to its end without an error is read the same if it goes on, and behind it
what it goes on with is read. -/
theorem ahead_append (h : Apart more) (hb : ∀ d ∈ more.head?, isBlank d = false) {e : Token}
    (he : l.ending = .ok e) (hlast : ∀ t ∈ l.ahead.getLast?, ¬ t.IsOpenComment) :
    (l.append more).ahead = l.ahead ++ (l.behind more).ahead ∧
      (l.append more).ending = (l.behind more).ending := by
  induction l using scan_induction with
  | fail l fault hf _ => simp [hf] at he
  | stop l hr => simp [behind_of_nil, hr]
  | pass l x hr hx ih =>
    have hx' := scan_rest_append h hb hlast hr hx
    have hr' : (l.append more).rest ≠ [] := List.append_ne_nil_of_left_ne_nil hr more
    have hle := scan_length_le hx
    rw [ending_of_ok hr hx] at he
    rw [ahead_of_ok hr hx] at hlast
    have ih := ih he fun t ht => hlast t (by rw [List.getLast?_cons, ht]; rfl)
    simp [hr', hx', hr, hx, token_append hle, pass_append hle, ih.1, ih.2, behind_pass hr hx]

theorem behind_ofText (config : Config) (text more : List Char) :
    (ofText config text).behind more =
      ⟨more, .after text, (ofText config text).ahead.length, false, config⟩ := by
  simp [behind, ofText]

theorem ahead_separated {s : Symbol} (hs : s ∈ Symbol.separators) (config : Config)
    {a : List Char} {e : Token} (he : (ofText config a).ending = .ok e)
    (hlast : ∀ t ∈ (ofText config a).ahead.getLast?, ¬ t.IsOpenComment) (b : List Char) :
    let front := (ofText config a).ahead ++
      [.of (.symbol s) s.text (.after a) (ofText config a).ahead.length]
    let moved := View.moved (.after (a ++ s.text)) front.length
    (ofText config (a ++ s.text ++ b)).ahead = front ++ (ofText config b).ahead.map moved.token ∧
      (ofText config (a ++ s.text ++ b)).ending =
        ((ofText config b).ending.map moved.token).mapError moved.error := by
  intro front moved
  obtain ⟨d, hd, hstop, hblank, hscan⟩ := Symbol.exists_stops s hs
  have hwhole : ofText config (a ++ s.text ++ b) = (ofText config a).append (d :: b) := by
    rw [hd, List.append_assoc]
    rfl
  have hapart : Apart (d :: b) := fun _ h => Option.some.inj h ▸ hstop
  have hblank : ∀ c ∈ (d :: b).head?, isBlank c = false := fun _ h => Option.some.inj h ▸ hblank
  obtain ⟨hahead, hending⟩ := ahead_append hapart hblank he hlast
  -- the lexer that has come to stand before the separator
  let m := (ofText config a).behind (d :: b)
  have hm : m = ⟨d :: b, .after a, (ofText config a).ahead.length, false, config⟩ :=
    behind_ofText config a (d :: b)
  have hr : m.rest ≠ [] := List.cons_ne_nil d b
  have hx : scan m.rest = .ok ⟨.symbol s, 1⟩ := hscan b
  have htoken : m.token ⟨.symbol s, 1⟩ =
      .of (.symbol s) s.text (.after a) (ofText config a).ahead.length := by
    rw [hm, hd]
    rfl
  have hpass : m.pass ⟨.symbol s, 1⟩ = moved.lexer (ofText config b) := by
    have hplace : (Position.after a).advance [d] = .after (a ++ s.text) := by
      simp [hd]
    have hlen : (ofText config a).ahead.length + 1 = front.length := by
      simp [front]
    rw [hm, (View.moved_ofText _ _ config b).2, ← hplace, ← hlen]
    rfl
  have hdomain : moved.domain (ofText config b) := (View.moved_ofText _ _ config b).1
  rw [hwhole, hahead, hending, ahead_of_ok hr hx, ending_of_ok hr hx, hpass,
    moved.ahead_eq hdomain, moved.ending_eq hdomain, htoken, List.append_cons]
  exact ⟨rfl, rfl⟩

/-- A text behind which a separator and another text stand is read as it is read alone, if no
comment is left open at its end. The separator comes next, and then all that is read of the other
text alone, moved to its place, its error too if it has one. -/
theorem tokenizeAll_separated {s : Symbol} (hs : s ∈ Symbol.separators) (config : Config)
    {a : List Char} {ts : List Token} (ha : (ofText config a).tokenizeAll.result = .ok ts)
    (hlast : ∀ t ∈ ts.dropLast.getLast?, ¬ t.IsOpenComment) (b : List Char) :
    let place := Position.after (a ++ s.text)
    let front := ts.dropLast ++ [.of (.symbol s) s.text (.after a) ts.dropLast.length]
    let alone := (ofText config b).tokenizeAll
    let whole := (ofText config (a ++ s.text ++ b)).tokenizeAll
    whole.result =
        (alone.result.map (front ++ ·.map (.shift place front.length))).mapError (.shift place) ∧
      taken whole.events = front ++ (taken alone.events).map (.shift place front.length) := by
  obtain ⟨e, he, rfl⟩ := tokenizeAll_eq_ok.1 ha
  rw [List.dropLast_concat] at *
  intro place front alone whole
  obtain ⟨hahead, hending⟩ := ahead_separated hs config he hlast b
  exact ⟨tokenizeAll_of_ahead front hahead hending, hahead⟩

/-- The exponent of the number is not made up for behind the separator, and the error keeps its line
and column and moves with its text. -/
theorem tokenizeAll_separated_failing :
    let a := ['\'', 'é', '\'', '\n', '1', 'e']
    let b := ['5', '\n', '$']
    let ts : List Token :=
      [.of .stringLiteral ['\'', 'é', '\''] ⟨1, 1, 0⟩ 0, .of .space ['\n'] ⟨1, 4, 4⟩ 1,
        .of .decimalLiteral ['1'] ⟨2, 1, 5⟩ 2, .of .objectName ['e'] ⟨2, 2, 6⟩ 3,
        .of .eof [] ⟨2, 3, 7⟩ 4]
    .semicolon ∈ Symbol.separators ∧ (ofText {} a).tokenizeAll.result = .ok ts ∧
      (∀ t ∈ ts.dropLast.getLast?, ¬ t.IsOpenComment) ∧
      (ofText {} (a ++ [';'] ++ b)).tokenizeAll.result =
        .error ⟨.unrecognized '$', ⟨3, 1, 10⟩⟩ := by
  intro a b ts
  have hs : .semicolon ∈ Symbol.separators := by decide
  have ha : (ofText {} a).tokenizeAll.result = .ok ts := by decide +kernel
  have hlast : ∀ t ∈ ts.dropLast.getLast?, ¬ t.IsOpenComment := by decide
  have hb : (ofText {} b).tokenizeAll.result = .error ⟨.unrecognized '$', ⟨2, 1, 2⟩⟩ := by
    decide +kernel
  refine ⟨hs, ha, hlast, (tokenizeAll_separated hs {} ha hlast b).1.trans ?_⟩
  rw [hb]
  decide

end Lexer
end Cql
