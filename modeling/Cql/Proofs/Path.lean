import Cql.Lexer.Recovery
import Cql.Lexer.Session

/-!
What a lexer can do, one move at a time. Every operation is a path of such moves, and what every
move keeps is kept by every session.
-/
namespace Cql
namespace Lexer

/-- No token can be had here. -/
def Stuck (l : Lexer) : Prop := l.rest = [] ∨ ∃ fault, scan l.rest = .error fault

inductive Move : Lexer → List Event → Lexer → Prop where
  | take {l : Lexer} {x : Lexeme} (hr : l.rest ≠ []) (hx : scan l.rest = .ok x) :
      Move l [.scanned (l.token x)] (l.pass x)
  | fail {l : Lexer} {fault : Fault} (hf : scan l.rest = .error fault) :
      Move l [.failed ⟨fault, l.position⟩] l
  | skip {l : Lexer} {c : Char} {cs : List Char} (hr : l.rest = c :: cs) :
      Move l [.skipped c (l.position.next c)]
        { l with rest := cs, position := l.position.next c, finished := false }
  | finish {l : Lexer} (hs : l.Stuck) : Move l [] { l with finished := true }

/-- Moves one after another, with all that happens on the way. -/
inductive Path : Lexer → List Event → Lexer → Prop where
  | refl (l : Lexer) : Path l [] l
  | step {l l' l'' : Lexer} {es es' : List Event} (first : Move l es l') (rest : Path l' es' l'') :
      Path l (es ++ es') l''

namespace Path
variable {l l' l'' : Lexer} {es es' : List Event}

theorem single (h : Move l es l') : Path l es l' := by
  simpa using Path.step h (.refl l')

theorem trans (h : Path l es l') (h' : Path l' es' l'') : Path l (es ++ es') l'' := by
  induction h with
  | refl => exact h'
  | step first _ ih => rw [List.append_assoc]; exact .step first (ih h')

theorem invariant {P : Lexer → Prop} (keep : ∀ {l es l'}, P l → Move l es l' → P l')
    (h : Path l es l') (hl : P l) : P l' := by
  induction h with
  | refl => exact hl
  | step first _ ih => exact ih (keep hl first)

theorem move_of_mem {P : Lexer → Prop} (keep : ∀ {l es l'}, P l → Move l es l' → P l')
    (h : Path l es l') (hl : P l) {e : Event} (he : e ∈ es) :
    ∃ m m', P m ∧ Move m [e] m' := by
  induction h with
  | refl => cases he
  | @step l l' _ _ _ first _ ih =>
    rcases List.mem_append.1 he with he | he
    · refine ⟨l, l', hl, ?_⟩
      cases first with
      | take | fail | skip => cases List.mem_singleton.1 he; constructor <;> assumption
      | finish => cases he
    · exact ih (keep hl first) he

end Path

/-- The token of the end, if this were it. -/
def endToken (l : Lexer) : Token := l.token ⟨.eof, 0⟩

@[simp] theorem endToken_isEof (l : Lexer) : l.endToken.isEof = true := by
  simp [endToken, token, Token.of, Token.isEof]

section Scan
variable {l : Lexer} {x : Lexeme} {fault : Fault}

theorem rest_ne_nil_of_error (hf : scan l.rest = .error fault) : l.rest ≠ [] := by
  intro hr
  rw [hr] at hf
  cases hf

@[simp] theorem isEof_token (hr : l.rest ≠ []) (hx : scan l.rest = .ok x) :
    (l.token x).isEof = false := by
  obtain ⟨c, cs, hc⟩ := List.exists_cons_of_ne_nil hr
  exact decide_eq_false (scan_kind_ne_eof (hc ▸ hx))

@[simp] theorem next_of_error (hf : scan l.rest = .error fault) :
    l.next = ⟨.error ⟨fault, l.position⟩, l, [.failed ⟨fault, l.position⟩]⟩ := by
  simp [next_eq, hf]

@[simp] theorem next_of_nil (hr : l.rest = []) : l.next = ⟨.ok l.endToken, l, []⟩ := by
  simp [next_eq, hr, scan, atEnd, endToken]

@[simp] theorem next_of_ok (hr : l.rest ≠ []) (hx : scan l.rest = .ok x) :
    l.next = ⟨.ok (l.token x), l.pass x, [.scanned (l.token x)]⟩ := by
  simp [next_eq, hx, atEnd, hr]

end Scan

theorem next_cases (l : Lexer) :
    (∃ fault, scan l.rest = .error fault ∧
      l.next = ⟨.error ⟨fault, l.position⟩, l, [.failed ⟨fault, l.position⟩]⟩) ∨
    (l.rest = [] ∧ l.next = ⟨.ok l.endToken, l, []⟩) ∨
    (∃ x, l.rest ≠ [] ∧ scan l.rest = .ok x ∧ (l.token x).isEof = false ∧
      l.next = ⟨.ok (l.token x), l.pass x, [.scanned (l.token x)]⟩) := by
  cases hx : scan l.rest with
  | error fault => exact .inl ⟨fault, rfl, next_of_error hx⟩
  | ok x =>
    by_cases hr : l.rest = []
    · exact .inr (.inl ⟨hr, next_of_nil hr⟩)
    · exact .inr (.inr ⟨x, hr, rfl, isEof_token hr hx, next_of_ok hr hx⟩)

section Next
variable {l l' : Lexer} {t : Token} {e : LexicalError} {events : List Event}

theorem next_error_cases (h : l.next = ⟨.error e, l', events⟩) :
    ∃ fault, scan l.rest = .error fault ∧ e = ⟨fault, l.position⟩ ∧ l' = l ∧
      events = [.failed e] := by
  obtain ⟨f, hf, hn⟩ | ⟨_, hn⟩ | ⟨x, _, _, _, hn⟩ := next_cases l <;> rw [hn] at h <;> cases h
  exact ⟨f, hf, rfl, rfl, rfl⟩

theorem next_eof_cases (h : l.next = ⟨.ok t, l', events⟩) (ht : t.isEof = true) :
    l.rest = [] ∧ t = l.endToken ∧ l' = l ∧ events = [] := by
  obtain ⟨f, hf, hn⟩ | ⟨hr, hn⟩ | ⟨x, _, _, hx, hn⟩ := next_cases l <;> rw [hn] at h <;> cases h
  · exact ⟨hr, rfl, rfl, rfl⟩
  · simp [hx] at ht

theorem next_token_cases (h : l.next = ⟨.ok t, l', events⟩) (ht : t.isEof = false) :
    ∃ x, l.rest ≠ [] ∧ scan l.rest = .ok x ∧ t = l.token x ∧ l' = l.pass x ∧
      events = [.scanned t] := by
  obtain ⟨f, hf, hn⟩ | ⟨hr, hn⟩ | ⟨x, hr, hx, _, hn⟩ := next_cases l <;> rw [hn] at h <;> cases h
  · simp [endToken_isEof] at ht
  · exact ⟨x, hr, hx, rfl, rfl, rfl⟩

end Next

theorem next_path (l : Lexer) : Path l l.next.events l.next.lexer := by
  obtain ⟨f, hf, h⟩ | ⟨_, h⟩ | ⟨x, hr, hx, _, h⟩ := next_cases l <;> rw [h]
  · exact .single (.fail hf)
  · exact .refl l
  · exact .single (.take hr hx)

theorem path_of_next {l l' : Lexer} {r : Except LexicalError Token} {events : List Event}
    (h : l.next = ⟨r, l', events⟩) : Path l events l' := by
  have := next_path l
  rwa [h] at this

theorem peek_path (l : Lexer) : Path l l.peek.events l.peek.lexer := by
  obtain ⟨f, hf, h⟩ | ⟨_, h⟩ | ⟨x, _, _, _, h⟩ := next_cases l <;>
    simp only [peek_eq, h, List.filter, Event.isFailure]
  · exact .single (.fail hf)
  · exact .refl l
  · exact .refl l

theorem skip_none_cases {l l' : Lexer} {events : List Event} (h : l.skip = ⟨none, l', events⟩) :
    l.rest = [] := by
  cases hr : l.rest with
  | nil => rfl
  | cons c cs => simp [skip, hr] at h

theorem skip_some_cases {l l' : Lexer} {c : Char} {events : List Event}
    (h : l.skip = ⟨some c, l', events⟩) :
    ∃ cs, l.rest = c :: cs ∧ Move l events l' ∧ events = [.skipped c (l.position.next c)] := by
  cases hr : l.rest with
  | nil => simp [skip, hr] at h
  | cons c' cs =>
    simp only [skip, hr] at h
    cases h
    exact ⟨cs, rfl, .skip hr, rfl⟩

theorem skip_path (l : Lexer) : Path l l.skip.events l.skip.lexer := by
  unfold skip
  split
  · exact .refl l
  · exact .single (.skip ‹_›)

section Pull
variable {l : Lexer} {x : Lexeme} {fault : Fault}

@[simp] theorem pull_of_finished (hd : l.finished = true) : l.pull = ⟨none, l, []⟩ := by
  simp [pull, hd]

@[simp] theorem pull_of_error (hd : l.finished = false) (hf : scan l.rest = .error fault) :
    l.pull = ⟨some (.error ⟨fault, l.position⟩), { l with finished := true },
      [.failed ⟨fault, l.position⟩]⟩ := by
  simp [pull, hd, hf]

@[simp] theorem pull_of_nil (hd : l.finished = false) (hr : l.rest = []) :
    l.pull = ⟨none, { l with finished := true }, []⟩ := by
  simp [pull, hd, hr]

@[simp] theorem pull_of_ok (hd : l.finished = false) (hr : l.rest ≠ []) (hx : scan l.rest = .ok x) :
    l.pull = ⟨some (.ok (l.token x)), l.pass x, [.scanned (l.token x)]⟩ := by
  simp [pull, hd, hr, hx]

end Pull

theorem pull_cases (l : Lexer) :
    (l.finished = true ∧ l.pull = ⟨none, l, []⟩) ∨
    (l.finished = false ∧ ∃ fault, scan l.rest = .error fault ∧
      l.pull = ⟨some (.error ⟨fault, l.position⟩), { l with finished := true },
        [.failed ⟨fault, l.position⟩]⟩) ∨
    (l.finished = false ∧ l.rest = [] ∧ l.pull = ⟨none, { l with finished := true }, []⟩) ∨
    (l.finished = false ∧ ∃ x, l.rest ≠ [] ∧ scan l.rest = .ok x ∧ (l.token x).isEof = false ∧
      l.pull = ⟨some (.ok (l.token x)), l.pass x, [.scanned (l.token x)]⟩) := by
  cases hd : l.finished with
  | true => exact .inl ⟨rfl, pull_of_finished hd⟩
  | false =>
    refine .inr ?_
    obtain ⟨f, hf, -⟩ | ⟨hr, -⟩ | ⟨x, hr, hx, ht, -⟩ := next_cases l
    · exact .inl ⟨rfl, f, hf, pull_of_error hd hf⟩
    · exact .inr (.inl ⟨rfl, hr, pull_of_nil hd hr⟩)
    · exact .inr (.inr ⟨rfl, x, hr, hx, ht, pull_of_ok hd hr hx⟩)

theorem pull_path (l : Lexer) : Path l l.pull.events l.pull.lexer := by
  obtain ⟨_, h⟩ | ⟨_, f, hf, h⟩ | ⟨_, hr, h⟩ | ⟨_, x, hr, hx, _, h⟩ := pull_cases l <;> rw [h]
  · exact .refl l
  · exact (Path.single (.fail hf)).trans (.single (.finish (.inr ⟨f, hf⟩)))
  · exact .single (.finish (.inl hr))
  · exact .single (.take hr hx)

theorem nextSignificant_path (l : Lexer) :
    Path l l.nextSignificant.events l.nextSignificant.lexer := by
  fun_induction nextSignificant l with
  | case1 l e l' events h => exact path_of_next h
  | case2 l t l' events h _ s ih => exact (path_of_next h).trans ih
  | case3 l t l' events h _ => exact path_of_next h

theorem collect_path (hidden : Bool) (l : Lexer) :
    Path l (l.collect hidden).events (l.collect hidden).lexer := by
  fun_induction collect hidden l with
  | case1 l e l' events h => exact path_of_next h
  | case2 l t l' events h _ _ => exact path_of_next h
  | case3 l t l' events h _ _ s ih => exact (path_of_next h).trans ih

end Lexer

namespace Session
open Lexer

def after (s : Session) : List Operation → Session
  | [] => s
  | op :: ops => (s.perform op).session.after ops

def lexers (s : Session) (ops : List Operation) : List Lexer :=
  s.lexer :: (s.run ops).map (·.session.lexer)

/-- Of all operations only one takes up another lexer. -/
theorem perform_path (s : Session) {op : Operation} (h : op ≠ .restore) :
    Path s.lexer (s.perform op).events (s.perform op).session.lexer := by
  cases op with
  | next => exact s.lexer.next_path
  | nextSignificant => exact s.lexer.nextSignificant_path
  | peek => exact s.lexer.peek_path
  | pull => exact s.lexer.pull_path
  | skip => exact s.lexer.skip_path
  | tokenize => exact s.lexer.collect_path s.lexer.config.emitHidden
  | tokenizeAll => exact s.lexer.collect_path true
  | position | offset | atEnd | config | save => exact .refl s.lexer
  | restore => exact absurd rfl h

theorem run_path (s : Session) {ops : List Operation} (h : .restore ∉ ops) :
    Path s.lexer ((s.run ops).flatMap Report.events) (s.after ops).lexer := by
  induction ops generalizing s with
  | nil => exact .refl s.lexer
  | cons op ops ih =>
    obtain ⟨hop, hops⟩ := List.ne_and_not_mem_of_not_mem_cons h
    exact (s.perform_path (Ne.symm hop)).trans (ih _ hops)

theorem after_append (s : Session) (ops ops' : List Operation) :
    s.after (ops ++ ops') = (s.after ops).after ops' := by
  induction ops generalizing s with
  | nil => rfl
  | cons op ops ih => exact ih (s.perform op).session

theorem saved_perform {s : Session} {op : Operation} (hsave : op ≠ .save) (hop : op ≠ .restore) :
    (s.perform op).session.saved = s.saved := by
  cases op with
  | save => exact absurd rfl hsave
  | restore => exact absurd rfl hop
  | _ => rfl

section Forall
variable {P : Lexer → Prop} {s : Session}

/-- What an operation keeps of the lexer at work holds of the copies set aside too. -/
theorem perform_forall {op : Operation} (hs : ∀ m ∈ s.lexer :: s.saved, P m)
    (keep : op ≠ .restore → P (s.perform op).session.lexer) :
    ∀ m ∈ (s.perform op).session.lexer :: (s.perform op).session.saved, P m := by
  obtain ⟨hl, hsaved⟩ := List.forall_mem_cons.1 hs
  by_cases hop : op = .restore
  · subst hop
    cases hc : s.saved with
    | nil => simpa [perform, hc] using hl
    | cons m saved =>
      rw [hc] at hsaved
      simpa [perform, hc] using hsaved
  · refine List.forall_mem_cons.2 ⟨keep hop, ?_⟩
    by_cases hsave : op = .save
    · subst hsave
      exact hs
    · rw [saved_perform hsave hop]
      exact hsaved

/-- What every operation of a sequence keeps holds behind all of them, copies taken up again
included. -/
theorem after_forall {ops : List Operation} (hs : ∀ m ∈ s.lexer :: s.saved, P m)
    (keep : ∀ (s' : Session) (op : Operation), op ∈ ops → op ≠ .restore →
      s'.perform op ∈ s.run ops → P s'.lexer → P (s'.perform op).session.lexer) :
    P (s.after ops).lexer := by
  induction ops generalizing s with
  | nil => exact hs s.lexer List.mem_cons_self
  | cons op ops ih =>
    have hl : P s.lexer := hs s.lexer List.mem_cons_self
    refine ih (perform_forall hs fun hop => ?_) fun s' op' hmem hop hrun => ?_
    · exact keep s op List.mem_cons_self hop List.mem_cons_self hl
    · exact keep s' op' (List.mem_cons_of_mem op hmem) hop (List.mem_cons_of_mem _ hrun)

end Forall

theorem mem_run {s : Session} {ops : List Operation} {r : Report} (h : r ∈ s.run ops) :
    ∃ ops₁ op ops₂, ops = ops₁ ++ op :: ops₂ ∧ r = (s.after ops₁).perform op := by
  induction ops generalizing s with
  | nil => cases h
  | cons op ops ih =>
    rcases List.mem_cons.1 h with rfl | h
    · exact ⟨[], op, ops, rfl, rfl⟩
    · obtain ⟨ops₁, op', ops₂, rfl, hr⟩ := ih h
      exact ⟨op :: ops₁, op', ops₂, rfl, hr⟩

end Session
end Cql
