import Cql.Proofs.Failure

/-!
Tokens pulled one by one hide none. A sequence that has come to its end stands where no token can be
had, and it goes on as soon as a character is given up.
-/
namespace Cql

def Answer.ofPulled : Except LexicalError Token → Answer
  | .ok t => if t.isEof then .nothing else .token t
  | .error e => .error e

namespace Lexer
variable {l l' : Lexer} {es : List Event}

/-- The sequence of tokens has come to its end only where there is none. -/
def Honest (l : Lexer) : Prop := l.finished = true → l.Stuck

theorem Begins.honest {text : List Char} (h : Begins text l) : l.Honest := by
  intro hd
  cases h with
  | ofText config => cases hd
  | at? h =>
    unfold Lexer.at? at h
    split at h <;> cases h
    cases hd

theorem Honest.move (hl : l.Honest) (h : Move l es l') : l'.Honest := by
  cases h with
  | take hr hx =>
    intro hd
    obtain hs | ⟨fault, hf⟩ := hl hd
    · exact absurd hs hr
    · rw [hf] at hx
      cases hx
  | fail => exact hl
  | skip => exact fun hd => by cases hd
  | finish hs => exact fun _ => hs

theorem Path.honest (h : Path l es l') (hl : l.Honest) : l'.Honest := h.invariant Honest.move hl

theorem finished_next (l : Lexer) : l.next.lexer.finished = l.finished := by
  obtain ⟨f, -, hn⟩ | ⟨-, hn⟩ | ⟨x, -, -, -, hn⟩ := next_cases l <;> simp [hn, pass]

theorem finished_nextSignificant (l : Lexer) : l.nextSignificant.lexer.finished = l.finished := by
  fun_induction nextSignificant l with
  | case1 l e l' events hn | case3 l t l' events hn _ =>
    have h := l.finished_next
    rwa [hn] at h
  | case2 l t l' events hn _ s ih =>
    have h := l.finished_next
    rw [hn] at h
    exact ih.trans h

theorem finished_collect (hidden : Bool) (l : Lexer) :
    (l.collect hidden).lexer.finished = l.finished := by
  fun_induction collect hidden l with
  | case1 l e l' events hn | case2 l t l' events hn =>
    have h := l.finished_next
    rwa [hn] at h
  | case3 l t l' events hn _ _ s ih =>
    have h := l.finished_next
    rw [hn] at h
    exact ih.trans h

end Lexer

namespace Session
open Lexer Answer
variable {s : Session} {op : Operation} {l : Lexer}

theorem perform_unfinished (hop : op ≠ .restore) (hpull : op ≠ .pull)
    (hd : s.lexer.finished = false) : (s.perform op).session.lexer.finished = false := by
  cases op with
  | next => exact s.lexer.finished_next.trans hd
  | nextSignificant => exact s.lexer.finished_nextSignificant.trans hd
  | tokenize | tokenizeAll => exact (s.lexer.finished_collect _).trans hd
  | skip =>
    cases hr : s.lexer.rest with
    | nil => simp [perform, report, skip, hr, hd]
    | cons c cs => simp [perform, report, skip, hr]
  | pull => exact absurd rfl hpull
  | restore => exact absurd rfl hop
  | peek | position | offset | atEnd | config | save => exact hd

theorem pull_unfinished (hd : s.lexer.finished = false) :
    (s.perform .pull).answer = .ofPulled s.lexer.next.result := by
  simp only [perform, report]
  obtain ⟨f, hf, hn⟩ | ⟨hr, hn⟩ | ⟨x, hr, hx, he, hn⟩ := next_cases s.lexer
  · simp [hd, hf, ofToken, ofPulled]
  · simp [hd, hr, ofPulled]
  · simp [hd, hr, hx, ofToken, ofPulled]

theorem pull_finished (hd : s.lexer.finished = true) : (s.perform .pull).answer = .nothing := by
  simp [perform, report, hd]

theorem pull_at_end (hr : s.lexer.rest = []) : (s.perform .pull).answer = .nothing := by
  cases hd : s.lexer.finished with
  | true => exact pull_finished hd
  | false => simp [pull_unfinished hd, hr, ofPulled]

theorem stuck_of_pull_nothing (hs : s.lexer.Honest) (h : (s.perform .pull).answer = .nothing) :
    s.lexer.Stuck := by
  cases hd : s.lexer.finished with
  | true => exact hs hd
  | false =>
    rw [pull_unfinished hd] at h
    rw [stuck_iff]
    cases hn : s.lexer.next.result with
    | error e => exact .inl ⟨e, hn⟩
    | ok t =>
      rw [hn, ofPulled] at h
      split at h
      · exact .inr ⟨t, hn, ‹_›⟩
      · cases h

theorem skip_of_error {fault : Fault} (hf : scan s.lexer.rest = .error fault) :
    ∃ c, (s.perform .skip).answer = .character c := by
  obtain ⟨c, cs, hr⟩ := List.exists_cons_of_ne_nil (rest_ne_nil_of_error hf)
  exact ⟨c, by simp [perform, report, skip, hr]⟩

theorem skip_unfinished {c : Char} (h : (s.perform .skip).answer = .character c) :
    (s.perform .skip).session.lexer.finished = false := by
  cases hr : s.lexer.rest with
  | nil => simp [perform, report, skip, hr] at h
  | cons c' cs => simp [perform, report, skip, hr]

theorem finished_of_pull_error {e : LexicalError} (h : (s.perform .pull).answer = .error e) :
    (s.perform .pull).session.lexer.finished = true := by
  obtain ⟨-, hp⟩ | ⟨-, f, -, hp⟩ | ⟨-, -, hp⟩ | ⟨-, x, -, -, -, hp⟩ := pull_cases s.lexer <;>
    simp [perform, report, hp, ofToken] at h ⊢

/-- Whatever is done with a lexer, the sequence of its tokens has come to its end only where a scan
finds none. Behind an error it gives nothing until a character is given up, and then again what a
scan gives. At the end of the text it gives nothing for ever. -/
theorem pull_hides_nothing {text : List Char} (hl : Begins text l) (ops : List Operation) :
    let s := (ofLexer l).after ops
    let pulled := (s.perform .pull).session.lexer
    let skipped := (s.perform .skip).session.lexer
    (s.lexer.finished = true → s.lexer.FindsNone) ∧
    ((s.perform .pull).answer = .nothing → s.lexer.FindsNone ∧ pulled.FindsNone) ∧
    (∀ e, (s.perform .pull).answer = .error e → ∀ later,
      (∀ c, .character c ∉ (ofLexer pulled).answers later) →
        let s' := (ofLexer pulled).after later
        let s'' := (s'.perform .skip).session
        (s'.perform .pull).answer = .nothing ∧ (∃ c, (s'.perform .skip).answer = .character c) ∧
          (s''.perform .pull).answer = .ofPulled s''.lexer.next.result) ∧
    (∀ c, (s.perform .skip).answer = .character c → ∀ later, .pull ∉ later →
      let s' := (ofLexer skipped).after later
      (s'.perform .pull).answer = .ofPulled s'.lexer.next.result) ∧
    (s.lexer.position.offset = utf8Size text → (s.perform .pull).answer = .nothing ∧
      ∀ later, (((ofLexer pulled).after later).perform .pull).answer = .nothing) := by
  intro s pulled skipped
  -- a copy set aside is honest too, so the lexer is when the copy is taken up again
  have hs : s.lexer.Honest :=
    after_forall (P := Honest) (List.forall_mem_singleton.2 hl.honest) fun s' _ _ hop _ h =>
      (s'.perform_path hop).honest h
  refine ⟨fun hd => stuck_iff.1 (hs hd), fun h => ?_, fun e h later hlater => ?_,
    fun c h later hpull => ?_, fun hoff => ?_⟩
  · have hstuck := stuck_of_pull_nothing hs h
    have hp : pulled.Stuck := by
      rw [show pulled = { s.lexer with finished := true } from hstuck.pull_lexer]
      exact hstuck
    exact ⟨stuck_iff.1 hstuck, stuck_iff.1 hp⟩
  · have hn : pulled.next.result = .error e := next_of_perform_error h
    have hstays := after_of_stuck (stuck_of_error hn) hlater
    obtain ⟨hf, -⟩ := next_eq_error.1 hn
    rw [← hstays.rest_eq] at hf
    obtain ⟨c, hc⟩ := skip_of_error hf
    exact ⟨pull_finished (hstays.finished_eq (finished_of_pull_error h)), ⟨c, hc⟩,
      pull_unfinished (skip_unfinished hc)⟩
  · refine pull_unfinished ?_
    refine after_forall (P := (·.finished = false))
      (List.forall_mem_singleton.2 (skip_unfinished h)) fun s' op hmem hop _ hd => ?_
    exact perform_unfinished hop (fun h => hpull (h ▸ hmem)) hd
  · have hr : s.lexer.rest = [] :=
      (after_standsIn hl.standsIn ops : s.lexer.StandsIn text).rest_eq_nil_iff.2 hoff
    have hp : pulled.rest = [] := by
      rw [show pulled = { s.lexer with finished := true } from Stuck.pull_lexer (.inl hr)]
      exact hr
    exact ⟨pull_at_end hr, fun later => pull_at_end (after_of_nil hp later)⟩

/-- Behind a token a dollar sign ends the sequence, through a copy taken up again too, and it goes
on behind the dollar sign. -/
theorem pull_hides_nothing_around_dollar :
    let text := ['a', '$', 'b']
    let s := (ofLexer (.ofText {} text)).after [.pull]
    let e : LexicalError := ⟨.unrecognized '$', ⟨1, 2, 1⟩⟩
    let pulled := (s.perform .pull).session.lexer
    let later : List Operation := [.tokenize, .save, .pull, .restore, .next]
    let s' := (ofLexer pulled).after later
    let s'' := (s'.perform .skip).session
    Begins text (.ofText {} text) ∧ (s.perform .pull).answer = .error e ∧
      (ofLexer pulled).answers later = [.error e, .nothing, .nothing, .nothing, .error e] ∧
      (s'.perform .pull).answer = .nothing ∧
      (s''.perform .pull).answer = .ofPulled s''.lexer.next.result ∧
      .ofPulled s''.lexer.next.result = Answer.token (.of .objectName ['b'] ⟨1, 3, 2⟩ 1) := by
  intro text s e pulled later s' s''
  have hl : Begins text (.ofText {} text) := .ofText {}
  have he : (s.perform .pull).answer = .error e := by decide +kernel
  have hlater : (ofLexer pulled).answers later =
      [.error e, .nothing, .nothing, .nothing, .error e] := by decide +kernel
  have hc : ∀ c, .character c ∉ (ofLexer pulled).answers later := by
    rw [hlater]
    simp
  obtain ⟨-, -, herror, -, -⟩ := pull_hides_nothing hl [.pull]
  obtain ⟨hnothing, -, hgoes⟩ := herror e he later hc
  exact ⟨hl, he, hlater, hnothing, hgoes, by decide +kernel⟩

end Session
end Cql
