import Cql.Proofs.Path

/-!
What an operation answers, read off what happened in it. A token that is answered was scanned there
or is the end token; an error that is answered is the failure of a scan.
-/
namespace Cql

def Event.token? : Event → Option Token
  | .scanned t => some t
  | _ => none

def taken (events : List Event) : List Token := events.filterMap Event.token?

@[simp] theorem taken_nil : taken [] = [] := rfl

@[simp] theorem taken_cons_scanned (t : Token) (es : List Event) :
    taken (.scanned t :: es) = t :: taken es := rfl

@[simp] theorem taken_cons_failed (e : LexicalError) (es : List Event) :
    taken (.failed e :: es) = taken es := rfl

@[simp] theorem taken_cons_skipped (c : Char) (p : Position) (es : List Event) :
    taken (.skipped c p :: es) = taken es := rfl

@[simp] theorem taken_append (es es' : List Event) :
    taken (es ++ es') = taken es ++ taken es' :=
  List.filterMap_append

theorem mem_taken {t : Token} {es : List Event} : t ∈ taken es ↔ .scanned t ∈ es := by
  simp only [taken, List.mem_filterMap]
  constructor
  · intro h
    obtain ⟨e, he, ht⟩ := h
    cases e <;> simp only [Event.token?] at ht <;> cases ht
    exact he
  · exact fun h => ⟨_, h, rfl⟩

namespace Answer

def tokenList : Answer → List Token
  | .token t => [t]
  | .tokens ts => ts
  | _ => []

def errorList : Answer → List LexicalError
  | .error e => [e]
  | _ => []

@[simp] theorem mem_tokenList_ofToken {r : Except LexicalError Token} {t : Token} :
    t ∈ (ofToken r).tokenList ↔ r = .ok t := by
  cases r <;> simp [ofToken, tokenList, eq_comm]

@[simp] theorem mem_tokenList_ofTokens {r : Except LexicalError (List Token)} {t : Token} :
    t ∈ (ofTokens r).tokenList ↔ ∃ ts, r = .ok ts ∧ t ∈ ts := by
  cases r <;> simp [ofTokens, tokenList]

@[simp] theorem mem_errorList_ofToken {r : Except LexicalError Token} {e : LexicalError} :
    e ∈ (ofToken r).errorList ↔ r = .error e := by
  cases r <;> simp [ofToken, errorList, eq_comm]

@[simp] theorem mem_errorList_ofTokens {r : Except LexicalError (List Token)} {e : LexicalError} :
    e ∈ (ofTokens r).errorList ↔ r = .error e := by
  cases r <;> simp [ofTokens, errorList, eq_comm]

@[simp] theorem ofToken_ne_character (r : Except LexicalError Token) (c : Char) :
    ofToken r ≠ .character c := by
  cases r <;> simp [ofToken]

@[simp] theorem ofTokens_ne_character (r : Except LexicalError (List Token)) (c : Char) :
    ofTokens r ≠ .character c := by
  cases r <;> simp [ofTokens]

end Answer

namespace Lexer
variable {l l' : Lexer} {t : Token} {ts : List Token} {e : LexicalError} {events : List Event}

theorem next_ok_taken (h : l.next.result = .ok t) :
    t ∈ taken l.next.events ∨ t = l.next.lexer.endToken := by
  obtain ⟨f, _, hn⟩ | ⟨_, hn⟩ | ⟨x, _, _, _, hn⟩ := next_cases l <;> rw [hn] at h ⊢ <;> cases h
  · exact .inr rfl
  · exact .inl (List.mem_singleton_self _)

theorem next_error_failed (h : l.next.result = .error e) : .failed e ∈ l.next.events := by
  obtain ⟨f, _, hn⟩ | ⟨_, hn⟩ | ⟨x, _, _, _, hn⟩ := next_cases l <;> rw [hn] at h ⊢ <;> cases h
  exact List.mem_singleton_self _

theorem nextSignificant_ok_taken (h : l.nextSignificant.result = .ok t) :
    t ∈ taken l.nextSignificant.events ∨ t = l.nextSignificant.lexer.endToken := by
  fun_induction nextSignificant l with
  | case1 => cases h
  | case2 l u l' events hn _ s ih =>
    rw [taken_append, List.mem_append]
    exact (ih h).imp .inr id
  | case3 l u l' events hn _ =>
    have hn' := next_ok_taken (l := l) (t := t) (by rw [hn]; exact h)
    rwa [hn] at hn'

theorem nextSignificant_error (h : l.nextSignificant.result = .error e) :
    .failed e ∈ l.nextSignificant.events := by
  fun_induction nextSignificant l with
  | case1 l e' l' events hn =>
    cases h
    obtain ⟨_, _, _, _, rfl⟩ := next_error_cases hn
    exact List.mem_singleton_self _
  | case2 l u l' events hn _ s ih => exact List.mem_append_right _ (ih h)
  | case3 => cases h

/-- A list of tokens that is answered has all that were taken, hidden ones only if wanted, and the
end token behind them. -/
theorem collect_ok {hidden : Bool} (h : (l.collect hidden).result = .ok ts) :
    (l.collect hidden).lexer.rest = [] ∧
      ts = (taken (l.collect hidden).events).filter (fun t => hidden || !t.isHidden) ++
        [(l.collect hidden).lexer.endToken] := by
  fun_induction collect hidden l generalizing ts with
  | case1 => cases h
  | case2 l t l' events hn kept =>
    rename_i ht
    obtain ⟨hr, rfl, rfl, rfl⟩ := next_eof_cases hn ht
    have hk : l'.endToken.isHidden = false := rfl
    refine ⟨hr, (Except.ok.inj h).symm.trans ?_⟩
    simp [kept, hk]
  | case3 l t l' events hn kept ht s =>
    rename_i ih
    obtain ⟨x, _, _, rfl, _, rfl⟩ := next_token_cases hn (eq_false_of_ne_true ht)
    cases hs : s.result with
    | error e => simp only [hs] at h; cases h
    | ok us =>
      simp only [hs] at h
      obtain ⟨hr, rfl⟩ := ih hs
      refine ⟨hr, (Except.ok.inj h).symm.trans ?_⟩
      have hk : kept = (taken [.scanned (l.token x)]).filter fun t => hidden || !t.isHidden := by
        simp [kept, List.filter_cons]
      rw [taken_append, List.filter_append, List.append_assoc, ← hk]

theorem tokenizeAll_ok (h : l.tokenizeAll.result = .ok ts) :
    l.tokenizeAll.lexer.rest = [] ∧
      ts = taken l.tokenizeAll.events ++ [l.tokenizeAll.lexer.endToken] := by
  obtain ⟨hr, ht⟩ := collect_ok h
  rw [List.filter_eq_self.2 fun t _ => Bool.true_or _] at ht
  exact ⟨hr, ht⟩

theorem collect_error {hidden : Bool} (h : (l.collect hidden).result = .error e) :
    .failed e ∈ (l.collect hidden).events := by
  fun_induction collect hidden l with
  | case1 l e' l' events hn =>
    cases h
    obtain ⟨_, _, _, _, rfl⟩ := next_error_cases hn
    exact List.mem_singleton_self _
  | case2 => cases h
  | case3 l t l' events hn kept ht s =>
    rename_i ih
    cases hs : s.result with
    | error e' =>
      simp only [hs] at h
      cases h
      exact List.mem_append_right _ (ih hs)
    | ok us => simp only [hs] at h; cases h

theorem peek_ok_position (h : l.peek.result = .ok t) : t.position = l.position := by
  obtain ⟨f, _, hn⟩ | ⟨_, hn⟩ | ⟨x, _, _, _, hn⟩ := next_cases l <;>
    simp only [peek_eq, hn] at h <;> cases h <;> rfl

theorem peek_error_failed (h : l.peek.result = .error e) : .failed e ∈ l.peek.events := by
  obtain ⟨f, _, hn⟩ | ⟨_, hn⟩ | ⟨x, _, _, _, hn⟩ := next_cases l <;>
    simp only [peek_eq, hn] at h ⊢ <;> cases h
  exact List.mem_singleton_self _

theorem pull_ok_taken (h : l.pull.result = some (.ok t)) : t ∈ taken l.pull.events := by
  obtain ⟨_, hp⟩ | ⟨_, f, _, hp⟩ | ⟨_, _, hp⟩ | ⟨_, x, _, _, _, hp⟩ := pull_cases l <;>
    rw [hp] at h ⊢ <;> cases h
  exact List.mem_singleton_self _

theorem pull_error_failed (h : l.pull.result = some (.error e)) : .failed e ∈ l.pull.events := by
  obtain ⟨_, hp⟩ | ⟨_, f, _, hp⟩ | ⟨_, _, hp⟩ | ⟨_, x, _, _, _, hp⟩ := pull_cases l <;>
    rw [hp] at h ⊢ <;> cases h
  exact List.mem_singleton_self _

/-- Whatever list of tokens is wanted, each of its tokens was taken or is the end token. -/
theorem collect_ok_taken {hidden : Bool} (h : (l.collect hidden).result = .ok ts) (ht : t ∈ ts) :
    t ∈ taken (l.collect hidden).events ∨ t = (l.collect hidden).lexer.endToken := by
  rw [(collect_ok h).2, List.mem_append, List.mem_singleton] at ht
  exact ht.imp (fun h => (List.mem_filter.1 h).1) id

end Lexer

namespace Session
open Lexer Answer

/-- A token that is answered was taken, or it is what stands at the place behind: the end token, or
a token only looked at. -/
theorem perform_tokens (s : Session) (op : Operation) {t : Token}
    (ht : t ∈ (s.perform op).answer.tokenList) :
    t ∈ taken (s.perform op).events ∨
      t.position = (s.perform op).session.lexer.position ∧ (t.isEof = true ∨ op = .peek) := by
  have hend {l : Lexer} (h : t = l.endToken) :
      t.position = l.position ∧ (t.isEof = true ∨ op = .peek) :=
    h ▸ ⟨rfl, .inl l.endToken_isEof⟩
  cases op with
  | next => exact (next_ok_taken (mem_tokenList_ofToken.1 ht)).imp id hend
  | nextSignificant => exact (nextSignificant_ok_taken (mem_tokenList_ofToken.1 ht)).imp id hend
  | peek => exact .inr ⟨peek_ok_position (mem_tokenList_ofToken.1 ht), .inr rfl⟩
  | pull =>
    change t ∈ ((s.lexer.pull.result.map ofToken).getD .nothing).tokenList at ht
    cases hr : s.lexer.pull.result with
    | none => rw [hr] at ht; cases ht
    | some r => rw [hr] at ht; exact .inl (pull_ok_taken (mem_tokenList_ofToken.1 ht ▸ hr))
  | skip =>
    change t ∈ ((s.lexer.skip.result.map Answer.character).getD .nothing).tokenList at ht
    cases hr : s.lexer.skip.result <;> rw [hr] at ht <;> cases ht
  | tokenize | tokenizeAll =>
    obtain ⟨ts, h, ht⟩ := mem_tokenList_ofTokens.1 ht
    exact (collect_ok_taken h ht).imp id hend
  | position | offset | atEnd | config | save => cases ht
  | restore => cases hs : s.saved <;> simp only [perform, hs] at ht <;> cases ht

theorem perform_errors (s : Session) (op : Operation) {e : LexicalError}
    (he : e ∈ (s.perform op).answer.errorList) : .failed e ∈ (s.perform op).events := by
  cases op with
  | next => exact next_error_failed (mem_errorList_ofToken.1 he)
  | nextSignificant => exact nextSignificant_error (mem_errorList_ofToken.1 he)
  | peek => exact peek_error_failed (mem_errorList_ofToken.1 he)
  | pull =>
    change e ∈ ((s.lexer.pull.result.map ofToken).getD .nothing).errorList at he
    cases hr : s.lexer.pull.result with
    | none => rw [hr] at he; cases he
    | some r => rw [hr] at he; exact pull_error_failed (mem_errorList_ofToken.1 he ▸ hr)
  | skip =>
    change e ∈ ((s.lexer.skip.result.map Answer.character).getD .nothing).errorList at he
    cases hr : s.lexer.skip.result <;> rw [hr] at he <;> cases he
  | tokenize | tokenizeAll => exact collect_error (mem_errorList_ofTokens.1 he)
  | position | offset | atEnd | config | save => cases he
  | restore => cases hs : s.saved <;> simp only [perform, hs] at he <;> cases he

end Session
end Cql
