import Cql.Proofs.Stuck

/-!
Errors change nothing. A scan that fails leaves the lexer as it was, many scans that fail leave it
behind the tokens before the fault, and there it stands until a character is given up.
-/
namespace Cql

namespace Answer
variable {e : LexicalError}

@[simp] theorem ofToken_eq_error {r : Except LexicalError Token} :
    ofToken r = .error e ↔ r = .error e := by
  cases r <;> simp [ofToken]

@[simp] theorem ofTokens_eq_error {r : Except LexicalError (List Token)} :
    ofTokens r = .error e ↔ r = .error e := by
  cases r <;> simp [ofTokens]

end Answer

namespace Lexer
variable {l m : Lexer} {ts : List Token} {e : LexicalError}

theorem nextSignificant_error_cases (h : l.nextSignificant.result = .error e) :
    Passes l (taken l.nextSignificant.events) l.nextSignificant.lexer ∧
      l.nextSignificant.lexer.next.result = .error e := by
  induction l using scan_induction with
  | fail l fault hf _ =>
    rw [nextSignificant_of_error hf] at h ⊢
    exact ⟨.refl l, by simpa [hf] using h⟩
  | stop l hr => simp [hr] at h
  | pass l x hr hx ih =>
    cases hh : (l.token x).isHidden with
    | true =>
      simp only [nextSignificant_of_ok hr hx, hh, if_true] at h ⊢
      obtain ⟨hp, he⟩ := ih h
      exact ⟨.cons hr hx hp, he⟩
    | false => simp [hr, hx, hh] at h

theorem collect_error_cases {hidden : Bool} (h : (l.collect hidden).result = .error e) :
    Passes l (taken (l.collect hidden).events) (l.collect hidden).lexer ∧
      (l.collect hidden).lexer.next.result = .error e := by
  induction l using scan_induction with
  | fail l fault hf _ =>
    rw [collect_of_error hidden hf] at h ⊢
    cases h
    exact ⟨.refl l, by simp [hf]⟩
  | stop l hr => simp [hr] at h
  | pass l x hr hx ih =>
    rw [collect_of_ok hidden hr hx] at h ⊢
    cases hc : ((l.pass x).collect hidden).result with
    | ok us =>
      rw [hc] at h
      cases h
    | error e' =>
      rw [hc] at h
      cases h
      obtain ⟨hp, he⟩ := ih hc
      exact ⟨.cons hr hx hp, he⟩

theorem Passes.not_eof (h : Passes l ts m) : ∀ t ∈ ts, t.isEof = false := by
  induction h with
  | refl l => exact List.forall_mem_nil _
  | cons hr hx _ ih => exact List.forall_mem_cons.2 ⟨isEof_token hr hx, ih⟩

end Lexer

namespace Session
open Lexer Answer
variable {s : Session} {l m : Lexer} {ts : List Token} {e : LexicalError}

theorem after_next (saved : List Lexer) (h : Passes l ts m) :
    (⟨l, saved⟩ : Session).answers (List.replicate ts.length .next) = ts.map .token ∧
      (⟨l, saved⟩ : Session).after (List.replicate ts.length .next) = ⟨m, saved⟩ := by
  induction h with
  | refl l => exact ⟨rfl, rfl⟩
  | @cons l m x ts hr hx _ ih =>
    have hp : (⟨l, saved⟩ : Session).perform .next =
        ⟨.token (l.token x), [.scanned (l.token x)], ⟨l.pass x, saved⟩⟩ := by
      simp [perform, report, hr, hx, ofToken]
    simpa [List.replicate_succ, after, hp] using ih

/-- Whatever operation fails, a scan behind it fails in the same way. -/
theorem next_of_perform_error {op : Operation} (h : (s.perform op).answer = .error e) :
    (s.perform op).session.lexer.next.result = .error e := by
  cases op with
  | next =>
    have h : s.lexer.next.result = .error e := ofToken_eq_error.1 h
    have hs := (stuck_of_error h).next_lexer
    rwa [← hs] at h
  | peek => simpa [perform, report, peek_eq] using h
  | nextSignificant => exact (nextSignificant_error_cases (ofToken_eq_error.1 h)).2
  | tokenize | tokenizeAll => exact (collect_error_cases (ofTokens_eq_error.1 h)).2
  | pull =>
    obtain ⟨-, hp⟩ | ⟨-, f, hf, hp⟩ | ⟨-, -, hp⟩ | ⟨-, x, -, -, -, hp⟩ := pull_cases s.lexer <;>
      simp only [perform, report, hp] at h ⊢ <;> cases h
    exact next_eq_error.2 ⟨hf, rfl⟩
  | skip => cases hr : s.lexer.skip.result <;> simp [perform, report, hr] at h
  | position | offset | atEnd | config | save => cases h
  | restore => cases hc : s.saved <;> simp only [perform, hc] at h <;> cases h

/-- A scan that fails changes nothing and fails time and again. Scans that fail behind some tokens
leave the session where those tokens do, had one by one. Whatever operation fails, the lexer stands
at the error, before the end of the text, until a character is given up. -/
theorem errors_change_nothing {text : List Char} (hl : Begins text l) (ops : List Operation) :
    let s := (ofLexer l).after ops
    (∀ e, (s.perform .next).answer = .error e → (s.perform .next).session = s ∧
      ∀ n, s.answers (List.replicate n .next) = List.replicate n (.error e)) ∧
    (∀ op ∈ [Operation.nextSignificant, .tokenize, .tokenizeAll], ∀ e,
      (s.perform op).answer = .error e →
        let ts := taken (s.perform op).events
        (∀ t ∈ ts, t.isEof = false) ∧
          s.answers (List.replicate ts.length .next) = ts.map .token ∧
          s.after (List.replicate ts.length .next) = (s.perform op).session) ∧
    ∀ op e, (s.perform op).answer = .error e →
      let m := (s.perform op).session.lexer
      e.position = m.position ∧ e.position.offset < utf8Size text ∧
        ∀ later, (∀ c, .character c ∉ (ofLexer m).answers later) →
          ((ofLexer m).after later).lexer.position = e.position := by
  intro s
  refine ⟨fun e h => ?_, fun op hop e h => ?_, fun op e h => ?_⟩
  · have hs : (s.perform .next).session = s := by
      have hn := (stuck_of_error (ofToken_eq_error.1 h)).next_lexer
      exact congrArg (Session.mk · s.saved) hn
    exact ⟨hs, fun n => h ▸ answers_replicate hs n⟩
  · have hp : Passes s.lexer (taken (s.perform op).events) (s.perform op).session.lexer ∧
        (s.perform op).session.saved = s.saved := by
      simp only [List.mem_cons, List.not_mem_nil, or_false] at hop
      obtain rfl | rfl | rfl := hop
      · exact ⟨(nextSignificant_error_cases (ofToken_eq_error.1 h)).1, rfl⟩
      · exact ⟨(collect_error_cases (ofTokens_eq_error.1 h)).1, rfl⟩
      · exact ⟨(collect_error_cases (ofTokens_eq_error.1 h)).1, rfl⟩
    obtain ⟨hp, hsaved⟩ := hp
    obtain ⟨ha, hs⟩ := after_next s.saved hp
    exact ⟨hp.not_eof, ha, hs.trans (hsaved ▸ rfl)⟩
  · -- wherever the operation stopped, a scan fails there in the same way
    intro m
    have hm : m.next.result = .error e := next_of_perform_error h
    obtain ⟨hf, he⟩ := next_eq_error.1 hm
    have hstands : m.StandsIn text := by
      have hops := after_standsIn hl.standsIn (ops ++ [op])
      rwa [after_append] at hops
    refine ⟨he, ?_, fun later hlater => ?_⟩
    · rw [he]
      exact hstands.offset_lt (rest_ne_nil_of_error hf)
    · rw [(after_of_stuck (stuck_of_error hm) hlater).position_eq, he]

/-- A string that is never closed, over two lines and behind two tokens. -/
theorem errors_change_nothing_behind_tokens :
    let text := ['a', ' ', '\'', '\n', 'b']
    let s := ofLexer (.ofText {} text)
    let m := (s.perform .tokenize).session.lexer
    let e : LexicalError := ⟨.unterminated .string, ⟨1, 3, 2⟩⟩
    let later : List Operation := [.next, .save, .pull, .tokenizeAll, .restore, .peek]
    Begins text (.ofText {} text) ∧ (s.perform .tokenize).answer = .error e ∧
      s.after [.next, .next] = (s.perform .tokenize).session ∧
      (ofLexer m).answers later =
        [.error e, .nothing, .error e, .error e, .nothing, .error e] ∧
      ((ofLexer m).after later).lexer.position = ⟨1, 3, 2⟩ := by
  intro text s m e later
  have hl : Begins text (.ofText {} text) := .ofText {}
  have he : (s.perform .tokenize).answer = .error e := by decide +kernel
  have ht : (taken (s.perform .tokenize).events).length = 2 := by decide +kernel
  have hlater : (ofLexer m).answers later =
      [.error e, .nothing, .error e, .error e, .nothing, .error e] := by decide +kernel
  have hc : ∀ c, .character c ∉ (ofLexer m).answers later := by
    rw [hlater]
    simp
  obtain ⟨-, hmany, hall⟩ := errors_change_nothing hl []
  have hafter : s.after (List.replicate (taken (s.perform .tokenize).events).length .next) =
      (s.perform .tokenize).session := (hmany .tokenize (by decide) e he).2.2
  rw [ht] at hafter
  exact ⟨hl, he, hafter, hlater, (hall .tokenize e he).2.2 later hc⟩

end Session
end Cql
