import Cql.Proofs.Log

/-!
Two lexers that differ in their configuration alone go through everything together. They stand at
the same place after every operation, meet the same errors, and what one of them lists that the
other does not are hidden tokens.
-/
namespace Cql

def Lexer.under (c : Config) (l : Lexer) : Lexer := { l with config := c }

def Step.under {α : Type} (c : Config) (s : Step α) : Step α :=
  { s with lexer := s.lexer.under c }

namespace Lexer
variable (c : Config) (l : Lexer)

@[simp] theorem rest_under : (l.under c).rest = l.rest := by rw [under]

@[simp] theorem position_under : (l.under c).position = l.position := rfl

@[simp] theorem finished_under : (l.under c).finished = l.finished := rfl

@[simp] theorem token_under (x : Lexeme) : (l.under c).token x = l.token x := rfl

@[simp] theorem endToken_under : (l.under c).endToken = l.endToken := rfl

@[simp] theorem pass_under (x : Lexeme) : (l.under c).pass x = (l.pass x).under c := rfl

theorem next_under : (l.under c).next = l.next.under c := by
  obtain ⟨f, hf, -⟩ | ⟨hr, -⟩ | ⟨x, hr, hx, -, -⟩ := next_cases l
  · simp [hf, Step.under]
  · simp [hr, Step.under]
  · simp [hr, hx, Step.under]

theorem peek_under : (l.under c).peek = l.peek.under c := by
  simp [peek_eq, next_under, Step.under]

theorem pull_under : (l.under c).pull = l.pull.under c := by
  obtain ⟨hd, -⟩ | ⟨hd, f, hf, -⟩ | ⟨hd, hr, -⟩ | ⟨hd, x, hr, hx, -, -⟩ := pull_cases l
  · simp [hd, Step.under]
  · simp [hd, hf, Step.under, under]
  · simp [hd, hr, Step.under, under]
  · simp [hd, hr, hx, Step.under]

theorem skip_under : (l.under c).skip = l.skip.under c := by
  cases hr : l.rest <;> simp [skip, hr, Step.under, under]

theorem nextSignificant_under : (l.under c).nextSignificant = l.nextSignificant.under c := by
  induction l using scan_induction with
  | fail l fault hf _ => simp [hf, Step.under]
  | stop l hr => simp [hr, Step.under]
  | pass l x hr hx ih => cases hh : (l.token x).isHidden <;> simp [hr, hx, hh, ih, Step.under]

theorem collect_under (hidden : Bool) :
    (l.under c).collect hidden = (l.collect hidden).under c := by
  induction l using scan_induction with
  | fail l fault hf _ => simp [hf, Step.under]
  | stop l hr => simp [hr, Step.under]
  | pass l x hr hx ih => simp [hr, hx, ih, Step.under]

/-- Where a list of tokens ends does not depend on the tokens that are wanted. -/
theorem lexer_collect (hidden : Bool) : (l.collect hidden).lexer = l.tokenizeAll.lexer := by
  induction l using scan_induction with
  | fail l fault hf _ => simp [tokenizeAll, hf]
  | stop l hr => simp [tokenizeAll, hr]
  | pass l x hr hx ih => simpa [tokenizeAll, hr, hx] using ih

theorem tokenizeAll_under : (l.under c).tokenizeAll = l.tokenizeAll.under c :=
  collect_under c l true

theorem lexer_tokenize_under : (l.under c).tokenize.lexer = l.tokenize.lexer.under c := by
  rw [tokenize, tokenize, lexer_collect, lexer_collect, tokenizeAll_under]
  rfl

theorem tokenize_filters : l.tokenize.result =
    l.tokenizeAll.result.map (List.filter fun t => l.config.emitHidden || !t.isHidden) := by
  rw [tokenize_result, tokenizeAll_result]
  cases he : l.ending with
  | error e => rfl
  | ok t => simp [Except.map, ending_isHidden he]

theorem tokenize_under : (l.under c).tokenize.result =
    l.tokenizeAll.result.map (List.filter fun t => c.emitHidden || !t.isHidden) := by
  rw [tokenize_filters, tokenizeAll_under]
  rfl

end Lexer

def Session.under (c : Config) (s : Session) : Session :=
  ⟨s.lexer.under c, s.saved.map (Lexer.under c)⟩

def Report.under (c : Config) (r : Report) : Report := { r with session := r.session.under c }

namespace Session
open Lexer
variable {op : Operation}

/-- All operations answer alike but the two that show the configuration. -/
theorem perform_under (c : Config) (s : Session) (hconfig : op ≠ .config)
    (htokenize : op ≠ .tokenize) : (s.under c).perform op = (s.perform op).under c := by
  cases op with
  | next => exact congrArg (report (s.under c) .ofToken) (next_under c s.lexer)
  | nextSignificant =>
    exact congrArg (report (s.under c) .ofToken) (nextSignificant_under c s.lexer)
  | peek => exact congrArg (report (s.under c) .ofToken) (peek_under c s.lexer)
  | pull =>
    exact congrArg (report (s.under c) fun x => (x.map Answer.ofToken).getD .nothing)
      (pull_under c s.lexer)
  | skip =>
    exact congrArg (report (s.under c) fun x => (x.map Answer.character).getD .nothing)
      (skip_under c s.lexer)
  | tokenizeAll => exact congrArg (report (s.under c) .ofTokens) (tokenizeAll_under c s.lexer)
  | position | offset | atEnd | save => rfl
  | restore =>
    obtain ⟨l, saved⟩ := s
    cases saved <;> rfl
  | config => exact absurd rfl hconfig
  | tokenize => exact absurd rfl htokenize

theorem session_perform_under (c : Config) (s : Session) (op : Operation) :
    ((s.under c).perform op).session = (s.perform op).session.under c := by
  by_cases hconfig : op = .config
  · subst hconfig
    rfl
  · by_cases htokenize : op = .tokenize
    · subst htokenize
      exact congrArg (Session.mk · (s.under c).saved) (lexer_tokenize_under c s.lexer)
    · exact congrArg Report.session (perform_under c s hconfig htokenize)

theorem after_under (c : Config) (s : Session) (ops : List Operation) :
    (s.under c).after ops = (s.after ops).under c := by
  induction ops generalizing s with
  | nil => rfl
  | cons op ops ih => simp [after, session_perform_under, ih]

theorem filter_debug_traced (b : Bool) (ts : List Token) :
    (if b then ts.map LogLine.ofToken else []).filter (·.level = .debug) = [] := by
  cases b with
  | false => rfl
  | true => exact List.filter_eq_nil_iff.2 (by simp [LogLine.ofToken])

theorem filter_debug_lines (p : Position) (a : Answer) :
    (a.lines p).filter (·.level = .debug) = a.lines p := by
  cases a <;> rfl

theorem lines_debug (s : Session) (hop : op ≠ .restore) :
    (s.lines op).filter (·.level = .debug) =
      (s.perform op).answer.lines (s.perform op).session.lexer.position := by
  rw [lines_perform s hop, List.filter_append, filter_debug_traced, filter_debug_lines,
    List.nil_append]

theorem debug_under (c : Config) (s : Session) (op : Operation) :
    (((s.under c).perform op).log.map Event.line).filter (·.level = .debug) =
      ((s.perform op).log.map Event.line).filter (·.level = .debug) := by
  rw [log_perform, log_perform]
  have hsame {op : Operation} (hconfig : op ≠ .config) (htokenize : op ≠ .tokenize)
      (hop : op ≠ .restore) : ((s.under c).lines op).filter (·.level = .debug) =
        (s.lines op).filter (·.level = .debug) := by
    rw [lines_debug _ hop, lines_debug _ hop, perform_under c s hconfig htokenize]
    rfl
  cases op with
  | config | restore => rfl
  -- the lines of this operation are those of listing all tokens
  | tokenize => exact @hsame .tokenizeAll (by decide) (by decide) (by decide)
  | _ => exact hsame (by decide) (by decide) (by decide)

/-- A configuration does nothing to a scan. Whatever is done with two lexers that differ in nothing
else, they stand at the same place with the same counter, write the same lines of errors and of
characters given up, and answer alike, but that each shows its own configuration and that a list of
tokens has the hidden ones only where they are wanted. -/
theorem configuration_only_filters (l : Lexer) (c : Config) (ops : List Operation) :
    let s := (ofLexer l).after ops
    let s' := (ofLexer { l with config := c }).after ops
    let visible := fun ts : List Token => ts.filter fun t => !t.isHidden
    s'.lexer = { s.lexer with config := c } ∧
    (∀ op, ((s'.perform op).log.map Event.line).filter (·.level = .debug) =
      ((s.perform op).log.map Event.line).filter (·.level = .debug)) ∧
    (∀ op, op ≠ .config → op ≠ .tokenize → (s'.perform op).answer = (s.perform op).answer) ∧
    (s.perform .config).answer = .config l.config ∧ (s'.perform .config).answer = .config c ∧
    ((∃ e, (s.perform .tokenize).answer = .error e ∧ (s'.perform .tokenize).answer = .error e) ∨
      ∃ ts ts', (s.perform .tokenize).answer = .tokens ts ∧
        (s'.perform .tokenize).answer = .tokens ts' ∧
        (c.emitHidden = l.config.emitHidden → ts' = ts) ∧
        (c.emitHidden = false → l.config.emitHidden = true → ts' = visible ts) ∧
        (c.emitHidden = true → l.config.emitHidden = false → ts = visible ts')) := by
  intro s s' visible
  have hs : s' = s.under c := after_under c (ofLexer l) ops
  have hc : s.lexer.config = l.config := after_config ops
  rw [hs]
  refine ⟨rfl, fun op => ?_, fun op hconfig htokenize => ?_, congrArg _ hc, rfl, ?_⟩
  · exact debug_under c s op
  · rw [perform_under c s hconfig htokenize]
    rfl
  · have htokenize : (s.perform .tokenize).answer = .ofTokens s.lexer.tokenize.result := rfl
    have htokenize' : ((s.under c).perform .tokenize).answer =
        .ofTokens (s.lexer.under c).tokenize.result := rfl
    rw [htokenize, htokenize', tokenize_filters, tokenize_under, hc]
    cases s.lexer.tokenizeAll.result with
    | error e => exact .inl ⟨e, rfl, rfl⟩
    | ok ts =>
      refine .inr ⟨_, _, rfl, rfl, fun h => by rw [h], fun h h' => ?_, fun h h' => ?_⟩
      · simp [visible, h, h']
      · simp [visible, h, h']

end Session
end Cql
