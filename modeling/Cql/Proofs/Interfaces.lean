import Cql.Proofs.Ahead
import Cql.Proofs.StreamCursor
import Cql.Proofs.Tiling

/-!
One sequence of tokens lies ahead of a lexer, and every interface is a view of it: one token a call,
visible tokens only, a sequence that ends, all of them in a list, and the stream of a text.
-/
namespace Cql

def Answer.ofEnding : Except LexicalError Token → Answer
  | .ok _ => .nothing
  | .error e => .error e

namespace Session
open Lexer
variable {s s' : Session} {op : Operation}

def answers (s : Session) (ops : List Operation) : List Answer := (s.run ops).map Report.answer

@[simp] theorem answers_nil (s : Session) : s.answers [] = [] := rfl

@[simp] theorem answers_cons (s : Session) (op : Operation) (ops : List Operation) :
    s.answers (op :: ops) = (s.perform op).answer :: (s.perform op).session.answers ops := rfl

theorem answers_replicate (h : (s.perform op).session = s) (n : Nat) :
    s.answers (List.replicate n op) = List.replicate n (s.perform op).answer := by
  induction n with
  | zero => rfl
  | succ n ih => simp [List.replicate_succ, h, ih]

theorem answers_congr (ha : (s.perform op).answer = (s'.perform op).answer)
    (hs : (s.perform op).session = (s'.perform op).session) (n : Nat) :
    s.answers (List.replicate n op) = s'.answers (List.replicate n op) := by
  cases n with
  | zero => rfl
  | succ n => simp [List.replicate_succ, ha, hs]

theorem answers_next (l : Lexer) (saved : List Lexer) (n : Nat) :
    (⟨l, saved⟩ : Session).answers (List.replicate (l.ahead.length + n) .next) =
      l.ahead.map .token ++ List.replicate n (.ofToken l.ending) := by
  induction l using scan_induction with
  | fail l fault hf _ =>
    have hs : ((⟨l, saved⟩ : Session).perform .next).session = ⟨l, saved⟩ := by
      simp [perform, report, hf]
    simp [hf, answers_replicate hs, perform, report]
  | stop l hr =>
    have hs : ((⟨l, saved⟩ : Session).perform .next).session = ⟨l, saved⟩ := by
      simp [perform, report, hr]
    simp [hr, answers_replicate hs, perform, report]
  | pass l x hr hx ih =>
    simp [hr, hx, Nat.add_right_comm _ 1, List.replicate_succ, perform, report, Answer.ofToken, ih]

theorem answers_nextSignificant (l : Lexer) (saved : List Lexer) (n : Nat) :
    (⟨l, saved⟩ : Session).answers
        (List.replicate ((l.ahead.filter fun t => !t.isHidden).length + n) .nextSignificant) =
      (l.ahead.filter fun t => !t.isHidden).map .token ++
        List.replicate n (.ofToken l.ending) := by
  induction l using scan_induction with
  | fail l fault hf _ =>
    have hs : ((⟨l, saved⟩ : Session).perform .nextSignificant).session = ⟨l, saved⟩ := by
      simp [perform, report, hf]
    simp [hf, answers_replicate hs, perform, report]
  | stop l hr =>
    have hs : ((⟨l, saved⟩ : Session).perform .nextSignificant).session = ⟨l, saved⟩ := by
      simp [perform, report, hr]
    simp [hr, answers_replicate hs, perform, report]
  | pass l x hr hx ih =>
    rw [ahead_of_ok hr hx, ending_of_ok hr hx]
    cases hh : (l.token x).isHidden with
    | true =>
      rw [List.filter_cons_of_neg (by simp [hh]), ← ih]
      apply answers_congr <;> simp [perform, report, hr, hx, hh]
    | false =>
      simp [hr, hx, hh, Nat.add_right_comm _ 1, List.replicate_succ, perform, report,
        Answer.ofToken, ih]

theorem answers_pull_finished {l : Lexer} (hd : l.finished = true) (saved : List Lexer) (n : Nat) :
    (⟨l, saved⟩ : Session).answers (List.replicate n .pull) = List.replicate n .nothing := by
  have hs : ((⟨l, saved⟩ : Session).perform .pull).session = ⟨l, saved⟩ := by
    simp [perform, report, hd]
  simp [answers_replicate hs, perform, report, hd]

theorem answers_pull (l : Lexer) (hd : l.finished = false) (saved : List Lexer) (n : Nat) :
    (⟨l, saved⟩ : Session).answers (List.replicate (l.ahead.length + (n + 1)) .pull) =
      l.ahead.map .token ++ .ofEnding l.ending :: List.replicate n .nothing := by
  induction l using scan_induction with
  | fail l fault hf _ =>
    simp [hf, hd, List.replicate_succ, perform, report, answers_pull_finished, Answer.ofToken,
      Answer.ofEnding]
  | stop l hr =>
    simp [hr, hd, List.replicate_succ, perform, report, answers_pull_finished, Answer.ofEnding]
  | pass l x hr hx ih =>
    simp [hr, hx, hd, Nat.add_right_comm _ 1, List.replicate_succ, perform, report, Answer.ofToken,
      ih hd]

end Session

namespace TokenStream
open Lexer

theorem ofText_ok {text : List Char} {ts : List Token}
    (h : (Lexer.ofText {} text).tokenizeAll.result = .ok ts) :
    ∃ s, ofText text = .ok s ∧ s.tokens = ts ∧ s.text = text ∧
      (Lexer.ofText {} text).tokenize.result = .ok s.significant ∧
      ∃ us t, s.significant = us ++ [t] ∧ (∀ u ∈ us, u.isEof = false) ∧ t.isEof = true ∧
        ∀ n, s.consumed (us.length + n) = us.map some ++ List.replicate n (some t) := by
  have hs : (Lexer.ofText {} text).StandsIn text := (Begins.ofText {}).standsIn
  obtain ⟨-, -, -, -, -, -, -, -, htext, -⟩ := hs.tokenizeAll_tiles h
  obtain ⟨t, he, rfl⟩ := tokenizeAll_eq_ok.1 h
  have hsig : (ofTokens ((Lexer.ofText {} text).ahead ++ [t])).significant =
      (Lexer.ofText {} text).ahead.filter (fun u => !u.isHidden) ++ [t] := by
    simp [significant, ofTokens, ending_isHidden he]
  have hus : ∀ u ∈ (Lexer.ofText {} text).ahead.filter (fun u => !u.isHidden), u.isEof = false :=
    fun u hu => ahead_not_eof _ u (List.mem_filter.1 hu).1
  refine ⟨ofTokens ((Lexer.ofText {} text).ahead ++ [t]), ?_, rfl, htext, ?_, _, t, hsig, hus,
    ending_isEof he, fun n => ?_⟩
  · rw [ofText, h]
    rfl
  · rw [tokenize_result, he, hsig]
    rfl
  · have hc := consumed_ofTokens hsig n
    rw [stop_append hus (ending_isEof he)] at hc
    simpa using hc

end TokenStream

/-- What is ahead of a lexer, tokens and then the end token or an error, is what every interface
shows of it. -/
theorem Session.interfaces_agree (s : Session) (text : List Char) :
    let l := s.lexer
    let visible := fun ts : List Token => ts.filter fun t => !t.isHidden
    let all := (Lexer.ofText {} text).tokenizeAll.result
    (∀ t ∈ l.ahead, t.isEof = false) ∧ (∀ t, l.ending = .ok t → t.isEof = true) ∧
      l.tokenizeAll.result = l.ending.map (fun t => l.ahead ++ [t]) ∧
      l.tokenize.result =
        (if l.config.emitHidden then l.tokenizeAll.result else l.tokenizeAll.result.map visible) ∧
      (∀ n, s.answers (List.replicate (l.ahead.length + n) .next) =
        l.ahead.map .token ++ List.replicate n (.ofToken l.ending)) ∧
      (∀ n, s.answers (List.replicate ((visible l.ahead).length + n) .nextSignificant) =
        (visible l.ahead).map .token ++ List.replicate n (.ofToken l.ending)) ∧
      (l.finished = false → ∀ n, s.answers (List.replicate (l.ahead.length + (n + 1)) .pull) =
        l.ahead.map .token ++ .ofEnding l.ending :: List.replicate n .nothing) ∧
      s.answers [.peek] = s.answers [.next] ∧
      (∀ e, TokenStream.ofText text = .error e ↔ all = .error e) ∧
      ∀ ts, all = .ok ts → ∃ stream, TokenStream.ofText text = .ok stream ∧ stream.tokens = ts ∧
        stream.text = text ∧ (Lexer.ofText {} text).tokenize.result = .ok stream.significant ∧
        ∃ us t, stream.significant = us ++ [t] ∧ (∀ u ∈ us, u.isEof = false) ∧ t.isEof = true ∧
          ∀ n, stream.consumed (us.length + n) = us.map some ++ List.replicate n (some t) := by
  intro l visible all
  have hpeek : l.peek.result = l.next.result := by rw [l.peek_eq]
  refine ⟨l.ahead_not_eof, fun t => Lexer.ending_isEof, l.tokenizeAll_result, ?_,
    answers_next l s.saved, answers_nextSignificant l s.saved, fun hd => answers_pull l hd s.saved,
    congrArg (fun r => [Answer.ofToken r]) hpeek, fun e => ?_, fun ts => TokenStream.ofText_ok⟩
  · rw [l.tokenize_result, l.tokenizeAll_result]
    cases he : l.ending with
    | error e => simp [Except.map]
    | ok t =>
      have ht := Lexer.ending_isHidden he
      cases hc : l.config.emitHidden <;> simp [Except.map, visible, ht]
  · rw [TokenStream.ofText]
    cases h : (Lexer.ofText {} text).tokenizeAll.result <;> simp [all, h, Except.map]

end Cql
