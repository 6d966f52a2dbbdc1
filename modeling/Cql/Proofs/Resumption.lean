import Cql.Proofs.Passes
import Cql.Proofs.Recovery
import Cql.Proofs.Translation

/-!
Reading on behind errors against reading up to the first one. Up to the first error both read the
same, and behind it the rest of the text is read as it is read alone.
-/
namespace Cql.Lexer
variable {l m : Lexer} {ts us : List Token} {e : LexicalError}

theorem pullAll_of_ending (hd : l.finished = false) (he : l.ending = .error e) :
    l.pullAll = l.ahead.map .ok ++ [.error e] := by
  induction l using scan_induction with
  | fail l fault hf _ =>
    rw [ending_of_error hf] at he
    simp [hd, hf, Except.error.inj he]
  | stop l hr => simp [hr] at he
  | pass l x hr hx ih =>
    rw [ending_of_ok hr hx] at he
    simp [hd, hr, hx, ih hd he]

theorem Passes.start_lt (h : Passes l ts m) : ∀ t ∈ ts, t.start < m.position.offset := by
  induction h with
  | refl l => exact List.forall_mem_nil _
  | @cons l m x ts hr hx later ih =>
    have hpos := utf8Size_pos (text_token_ne_nil hr hx)
    have hle := later.path.offset_le
    rw [← stop_token] at hle
    exact List.forall_mem_cons.2 ⟨Nat.lt_of_lt_of_le (Nat.lt_add_of_pos_right hpos) hle, ih⟩

theorem Passes.filter_start (h : Passes l ts m) (hu : ∀ u ∈ us, m.position.offset ≤ u.start) :
    (ts ++ us).filter (·.start < m.position.offset) = ts := by
  have hts : ts.filter (·.start < m.position.offset) = ts :=
    List.filter_eq_self.2 fun t ht => decide_eq_true (h.start_lt t ht)
  have hus : us.filter (·.start < m.position.offset) = [] :=
    List.filter_eq_nil_iff.2 fun u hu' => by simpa using hu u hu'
  rw [List.filter_append, hts, hus, List.append_nil]

theorem recover_of_tokenizeAll (h : l.tokenizeAll.result = .ok ts) : l.recover = ⟨ts, []⟩ := by
  obtain ⟨t, he, rfl⟩ := tokenizeAll_eq_ok.1 h
  obtain ⟨m, hm, hr | ⟨fault, hf⟩⟩ := passes_ahead l
  · rw [hm.ending_eq, ending_of_nil hr] at he
    simp [hm.recover_eq, hr, Except.ok.inj he]
  · simp [hm.ending_eq, hf] at he

/-- A lexer comes to stand before the character that a text fails at. -/
theorem exists_failure (config : Config) {text : List Char}
    (h : (ofText config text).tokenizeAll.result = .error e) :
    ∃ front c rest, text = front ++ c :: rest ∧ e.position = .after front ∧
      scan (c :: rest) = .error e.fault ∧
      Passes (ofText config text) (ofText config text).ahead
        ⟨c :: rest, .after front, (ofText config text).ahead.length, false, config⟩ := by
  rw [tokenizeAll_eq_error] at h
  obtain ⟨m, hm, hr | ⟨fault, hf⟩⟩ := passes_ahead (ofText config text)
  · simp [hm.ending_eq, hr] at h
  · rw [hm.ending_eq, ending_of_error hf] at h
    cases h
    obtain ⟨htext, hplace⟩ := hm.eq_of_ofText
    obtain ⟨c, rest, hc⟩ := List.exists_cons_of_ne_nil (rest_ne_nil_of_error hf)
    rw [hc] at htext hf hplace
    exact ⟨_, c, rest, htext, congrArg position hplace, hf, hplace ▸ hm⟩

/-- Behind the character that is given up, the rest of the text is read as it is read alone. -/
theorem skip_eq_behind (config : Config) (front rest : List Char) (c : Char) (n : Nat) :
    (⟨c :: rest, .after front, n, false, config⟩ : Lexer).skip.lexer =
      (View.behind (front ++ [c]) n).lexer (ofText config rest) := by
  have hplace : (Position.after front).next c = .after (front ++ [c]) := Position.next_after front c
  exact congrArg (fun p => (⟨rest, p, n, false, config⟩ : Lexer)) hplace

theorem recover_of_failure {config : Config} {front rest : List Char} {c : Char} {n : Nat}
    {fault : Fault} (hf : scan (c :: rest) = .error fault) :
    let alone := (ofText config rest).recover
    (⟨c :: rest, .after front, n, false, config⟩ : Lexer).recover =
      ⟨alone.tokens.map (.translate (front ++ [c]) n),
        ⟨fault, .after front⟩ :: alone.errors.map (.translate (front ++ [c]))⟩ := by
  intro alone
  have hdomain : (View.behind (front ++ [c]) n).domain (ofText config rest) := ⟨[], rfl⟩
  rw [recover_of_error hf, skip_eq_behind, View.recover_eq _ hdomain]
  rfl

/-- All that is recovered from a text is all that is read of it if there is no error. If there is
one, it comes first, with the tokens before it, and what is recovered behind it is what is recovered
from the rest of the text alone, moved to its place. -/
theorem recover_agrees (config : Config) (text : List Char) :
    let l := ofText config text
    (l.recover.errors = [] ↔ ∃ ts, l.tokenizeAll.result = .ok ts) ∧
      (∀ ts, l.tokenizeAll.result = .ok ts → l.recover.tokens = ts) ∧
      l.recover.tokens.map Token.index = List.range l.recover.tokens.length ∧
      ∀ e, l.tokenizeAll.result = .error e → ∃ ts front c rest,
        text = front ++ c :: rest ∧ utf8Size front = e.position.offset ∧
          l.pullAll = ts.map .ok ++ [.error e] ∧
          l.recover.tokens.filter (·.start < e.position.offset) = ts ∧
          let alone := (ofText config rest).recover
          l.recover.tokens = ts ++ alone.tokens.map (.translate (front ++ [c]) ts.length) ∧
            l.recover.errors = e :: alone.errors.map (.translate (front ++ [c])) := by
  intro l
  refine ⟨⟨fun h => ?_, fun h => ?_⟩, fun ts h => ?_, ?_, fun e h => ?_⟩
  · cases hall : l.tokenizeAll.result with
    | ok ts => exact ⟨ts, rfl⟩
    | error e =>
      -- a recovery that comes to the failure has an error
      obtain ⟨front, c, rest, -, -, hf, hm⟩ := exists_failure config hall
      rw [hm.recover_eq, recover_of_failure hf] at h
      cases h
  · obtain ⟨ts, h⟩ := h
    rw [recover_of_tokenizeAll h]
  · rw [recover_of_tokenizeAll h]
  · obtain ⟨es, l', hp, -, hts, -, -⟩ := recover_path l
    rw [hts, hp.indices_endToken, List.range_eq_range']
    rfl
  · obtain ⟨front, c, rest, htext, hplace, hf, hm⟩ := exists_failure config h
    have hrecover := hm.recover_eq
    rw [recover_of_failure hf] at hrecover
    refine ⟨l.ahead, front, c, rest, htext, by rw [hplace]; rfl, ?_, ?_, ?_, ?_⟩
    · exact pullAll_of_ending rfl (tokenizeAll_eq_error.1 h)
    · rw [hrecover, hplace]
      refine hm.filter_start fun u hu => ?_
      obtain ⟨t, -, rfl⟩ := List.mem_map.1 hu
      have hle : utf8Size front ≤ utf8Size (front ++ [c]) :=
        utf8Size_append front [c] ▸ Nat.le_add_right _ _
      exact Nat.le_trans hle (Nat.le_add_left _ _)
    · rw [hrecover]
    · rw [hrecover, ← hplace]

/-- Behind the quote and the dollar sign, tokens are numbered on and lines are counted on. -/
example : (ofText {} ['a', '\'', '\n', '1', '$']).recover =
    ⟨[.of .objectName ['a'] ⟨1, 1, 0⟩ 0, .of .space ['\n'] ⟨1, 3, 2⟩ 1,
      .of .decimalLiteral ['1'] ⟨2, 1, 3⟩ 2, .of .eof [] ⟨2, 3, 5⟩ 3],
      [⟨.unterminated .string, ⟨1, 2, 1⟩⟩, ⟨.unrecognized '$', ⟨2, 2, 4⟩⟩]⟩ := by
  decide +kernel

end Cql.Lexer
