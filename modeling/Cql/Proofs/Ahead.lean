import Cql.Proofs.Answers

/-!
What lies ahead of a lexer: tokens, and behind them the end token or an error. A scan fails, or the
text is at its end, or there is a token to pass, and the loops over a text are opened by equations
for these cases.
-/
namespace Cql.Lexer

section Scan
variable {l : Lexer} {x : Lexeme} {fault : Fault}

theorem length_rest_pass (hr : l.rest ≠ []) (hx : scan l.rest = .ok x) :
    (l.pass x).rest.length < l.rest.length := by
  obtain ⟨c, cs, hc⟩ := List.exists_cons_of_ne_nil hr
  have hpos := scan_length_pos (hc ▸ hx)
  simp only [pass, hc, List.length_drop, List.length_cons]
  omega

theorem length_rest_skip_of_error (hf : scan l.rest = .error fault) :
    l.skip.lexer.rest.length < l.rest.length := by
  obtain ⟨c, cs, hc⟩ := List.exists_cons_of_ne_nil (rest_ne_nil_of_error hf)
  simp [skip, hc]

/-- A scan that fails is tried again behind one character, and a token leads to the place behind it:
what holds at the end and is handed back over both holds of every lexer. -/
theorem scan_induction {motive : Lexer → Prop}
    (fail : ∀ l fault, scan l.rest = .error fault → motive l.skip.lexer → motive l)
    (stop : ∀ l, l.rest = [] → motive l)
    (pass : ∀ l x, l.rest ≠ [] → scan l.rest = .ok x → motive (l.pass x) → motive l)
    (l : Lexer) : motive l := by
  induction hn : l.rest.length using Nat.strongRecOn generalizing l with
  | ind n ih =>
    subst hn
    by_cases hr : l.rest = []
    · exact stop l hr
    · cases hx : scan l.rest with
      | error fault => exact fail l fault hx (ih _ (length_rest_skip_of_error hx) _ rfl)
      | ok x => exact pass l x hr hx (ih _ (length_rest_pass hr hx) _ rfl)

@[simp] theorem endToken_isHidden (l : Lexer) : l.endToken.isHidden = false := rfl

@[simp] theorem nextSignificant_of_error (hf : scan l.rest = .error fault) :
    l.nextSignificant = ⟨.error ⟨fault, l.position⟩, l, [.failed ⟨fault, l.position⟩]⟩ := by
  unfold nextSignificant
  split <;> rename_i hn <;> rw [next_of_error hf] at hn <;> cases hn
  rfl

@[simp] theorem nextSignificant_of_nil (hr : l.rest = []) :
    l.nextSignificant = ⟨.ok l.endToken, l, []⟩ := by
  unfold nextSignificant
  split <;> rename_i hn <;> rw [next_of_nil hr] at hn <;> cases hn
  rfl

@[simp] theorem nextSignificant_of_ok (hr : l.rest ≠ []) (hx : scan l.rest = .ok x) :
    l.nextSignificant =
      if (l.token x).isHidden then
        { (l.pass x).nextSignificant with
          events := .scanned (l.token x) :: (l.pass x).nextSignificant.events }
      else ⟨.ok (l.token x), l.pass x, [.scanned (l.token x)]⟩ := by
  rw [nextSignificant]
  split <;> rename_i hn <;> rw [next_of_ok hr hx] at hn <;> cases hn
  rfl

@[simp] theorem collect_of_error (hidden : Bool) (hf : scan l.rest = .error fault) :
    l.collect hidden = ⟨.error ⟨fault, l.position⟩, l, [.failed ⟨fault, l.position⟩]⟩ := by
  unfold collect
  split <;> rename_i hn <;> rw [next_of_error hf] at hn <;> cases hn
  rfl

@[simp] theorem collect_of_nil (hidden : Bool) (hr : l.rest = []) :
    l.collect hidden = ⟨.ok [l.endToken], l, []⟩ := by
  unfold collect
  split <;> rename_i hn <;> rw [next_of_nil hr] at hn <;> cases hn
  simp

@[simp] theorem collect_of_ok (hidden : Bool) (hr : l.rest ≠ []) (hx : scan l.rest = .ok x) :
    l.collect hidden =
      ⟨((l.pass x).collect hidden).result.map
          ((if hidden || !(l.token x).isHidden then [l.token x] else []) ++ ·),
        ((l.pass x).collect hidden).lexer,
        .scanned (l.token x) :: ((l.pass x).collect hidden).events⟩ := by
  rw [collect]
  split <;> rename_i hn <;> rw [next_of_ok hr hx] at hn <;> cases hn
  simp [isEof_token hr hx]

@[simp] theorem recover_of_nil (hr : l.rest = []) : l.recover = ⟨[l.endToken], []⟩ := by
  unfold recover
  split <;> rename_i hn <;> rw [next_of_nil hr] at hn <;> cases hn
  simp

@[simp] theorem recover_of_ok (hr : l.rest ≠ []) (hx : scan l.rest = .ok x) :
    l.recover =
      { (l.pass x).recover with tokens := l.token x :: (l.pass x).recover.tokens } := by
  rw [recover]
  split <;> rename_i hn <;> rw [next_of_ok hr hx] at hn <;> cases hn
  simp [isEof_token hr hx]

@[simp] theorem recover_of_error (hf : scan l.rest = .error fault) :
    l.recover =
      { l.skip.lexer.recover with
        errors := ⟨fault, l.position⟩ :: l.skip.lexer.recover.errors } := by
  obtain ⟨c, cs, hc⟩ := List.exists_cons_of_ne_nil (rest_ne_nil_of_error hf)
  rw [recover]
  split <;> rename_i hn <;> rw [next_of_error hf] at hn <;> cases hn
  split <;> rename_i hs <;> simp only [skip, hc] at hs <;> cases hs
  simp [skip, hc]

@[simp] theorem pullAll_of_finished (hd : l.finished = true) : l.pullAll = [] := by
  unfold pullAll
  split
  · rfl
  · rename_i he
    rw [pull_of_finished hd] at he
    cases he

@[simp] theorem pullAll_of_error (hd : l.finished = false) (hf : scan l.rest = .error fault) :
    l.pullAll = [.error ⟨fault, l.position⟩] := by
  unfold pullAll
  split <;> rename_i he <;> rw [pull_of_error hd hf] at he <;> cases he
  rw [pullAll_of_finished rfl]

@[simp] theorem pullAll_of_ok (hd : l.finished = false) (hr : l.rest ≠ [])
    (hx : scan l.rest = .ok x) : l.pullAll = .ok (l.token x) :: (l.pass x).pullAll := by
  rw [pullAll]
  split <;> rename_i he <;> rw [pull_of_ok hd hr hx] at he <;> cases he
  rfl

end Scan

/-- The tokens before the end of the text or the first failure. -/
def ahead (l : Lexer) : List Token := taken l.tokenizeAll.events

/-- What is found behind them. -/
def ending (l : Lexer) : Except LexicalError Token := l.tokenizeAll.lexer.next.result

section Ahead
variable {l : Lexer} {x : Lexeme} {fault : Fault}

@[simp] theorem ahead_of_error (hf : scan l.rest = .error fault) : l.ahead = [] := by
  simp [ahead, tokenizeAll, hf]

@[simp] theorem ahead_of_nil (hr : l.rest = []) : l.ahead = [] := by
  simp [ahead, tokenizeAll, hr]

@[simp] theorem ahead_of_ok (hr : l.rest ≠ []) (hx : scan l.rest = .ok x) :
    l.ahead = l.token x :: (l.pass x).ahead := by
  simp [ahead, tokenizeAll, hr, hx]

@[simp] theorem ending_of_error (hf : scan l.rest = .error fault) :
    l.ending = .error ⟨fault, l.position⟩ := by
  simp [ending, tokenizeAll, hf]

@[simp] theorem ending_of_nil (hr : l.rest = []) : l.ending = .ok l.endToken := by
  simp [ending, tokenizeAll, hr]

@[simp] theorem ending_of_ok (hr : l.rest ≠ []) (hx : scan l.rest = .ok x) :
    l.ending = (l.pass x).ending := by
  simp [ending, tokenizeAll, hr, hx]

theorem ahead_not_eof (l : Lexer) : ∀ t ∈ l.ahead, t.isEof = false := by
  induction l using scan_induction with
  | fail l fault hf _ => simp [hf]
  | stop l hr => simp [hr]
  | pass l x hr hx ih => simpa [hr, hx] using ih

theorem ending_ok {t : Token} (h : l.ending = .ok t) : ∃ m : Lexer, t = m.endToken := by
  induction l using scan_induction with
  | fail l fault hf _ => simp [hf] at h
  | stop l hr => exact ⟨l, by simpa [hr, eq_comm] using h⟩
  | pass l x hr hx ih => exact ih (ending_of_ok hr hx ▸ h)

theorem ending_isEof {t : Token} (h : l.ending = .ok t) : t.isEof = true := by
  obtain ⟨m, rfl⟩ := ending_ok h
  exact m.endToken_isEof

theorem ending_isHidden {t : Token} (h : l.ending = .ok t) : t.isHidden = false := by
  obtain ⟨m, rfl⟩ := ending_ok h
  exact m.endToken_isHidden

/-- Whatever tokens are wanted, they are wanted of those ahead, with the end token behind them. -/
theorem collect_result (hidden : Bool) (l : Lexer) : (l.collect hidden).result =
    l.ending.map fun t => l.ahead.filter (fun u => hidden || !u.isHidden) ++ [t] := by
  induction l using scan_induction with
  | fail l fault hf _ => simp [hf, Except.map]
  | stop l hr => simp [hr, Except.map]
  | pass l x hr hx ih =>
    cases he : (l.pass x).ending with
    | error e => simp [hr, hx, ih, he, Except.map]
    | ok t =>
      by_cases hk : (hidden || !(l.token x).isHidden) = true <;>
        simp [hr, hx, ih, he, Except.map, hk]

theorem tokenizeAll_result (l : Lexer) :
    l.tokenizeAll.result = l.ending.map fun t => l.ahead ++ [t] := by
  have hall : l.ahead.filter (fun u => true || !u.isHidden) = l.ahead :=
    List.filter_eq_self.2 fun _ _ => rfl
  rw [tokenizeAll, collect_result, hall]

theorem tokenizeAll_eq_ok {ts : List Token} : l.tokenizeAll.result = .ok ts ↔
    ∃ t, l.ending = .ok t ∧ ts = l.ahead ++ [t] := by
  rw [tokenizeAll_result]
  cases l.ending with
  | error e => simp [Except.map]
  | ok t => simp [Except.map, eq_comm]

theorem tokenizeAll_eq_error {e : LexicalError} :
    l.tokenizeAll.result = .error e ↔ l.ending = .error e := by
  rw [tokenizeAll_result]
  cases l.ending <;> simp [Except.map]

theorem tokenize_result (l : Lexer) : l.tokenize.result =
    l.ending.map fun t => l.ahead.filter (fun u => l.config.emitHidden || !u.isHidden) ++ [t] :=
  collect_result l.config.emitHidden l

end Ahead
end Cql.Lexer
