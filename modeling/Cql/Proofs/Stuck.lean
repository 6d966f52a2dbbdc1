import Cql.Proofs.Passes

/-!
A lexer that no token can be had of, at the end of its text or before a fault. No operation moves it
but to give up a character.
-/
namespace Cql
namespace Lexer
variable {l l' l'' : Lexer} {e : LexicalError}

theorem next_eq_error : l.next.result = .error e ↔
    scan l.rest = .error e.fault ∧ e.position = l.position := by
  obtain ⟨fault, hf, hn⟩ | ⟨hr, hn⟩ | ⟨x, hr, hx, -, hn⟩ := next_cases l <;> rw [hn]
  · rw [hf]
    constructor
    · intro h
      cases h
      exact ⟨rfl, rfl⟩
    · intro h
      obtain ⟨hf, hp⟩ := h
      rw [Except.error.inj hf, ← hp]
  · rw [hr]
    exact iff_of_false (fun h => by cases h) fun h => by cases h.1
  · rw [hx]
    exact iff_of_false (fun h => by cases h) fun h => by cases h.1

theorem stuck_of_error (h : l.next.result = .error e) : l.Stuck := .inr ⟨_, (next_eq_error.1 h).1⟩

def FindsNone (l : Lexer) : Prop :=
  (∃ e, l.next.result = .error e) ∨ ∃ t, l.next.result = .ok t ∧ t.isEof = true

theorem stuck_iff : l.Stuck ↔ l.FindsNone := by
  obtain ⟨fault, hf, hn⟩ | ⟨hr, hn⟩ | ⟨x, hr, hx, he, hn⟩ := next_cases l
  · exact iff_of_true (.inr ⟨fault, hf⟩) (.inl ⟨_, by rw [hn]⟩)
  · exact iff_of_true (.inl hr) (.inr ⟨_, by rw [hn], l.endToken_isEof⟩)
  · rw [FindsNone, hn, Stuck, hx]
    simp [hr, he]

namespace Stuck

theorem next_lexer (h : l.Stuck) : l.next.lexer = l := by
  obtain hr | ⟨fault, hf⟩ := h
  · simp [hr]
  · simp [hf]

theorem nextSignificant_lexer (h : l.Stuck) : l.nextSignificant.lexer = l := by
  obtain hr | ⟨fault, hf⟩ := h
  · simp [hr]
  · simp [hf]

theorem collect_lexer (h : l.Stuck) (hidden : Bool) : (l.collect hidden).lexer = l := by
  obtain hr | ⟨fault, hf⟩ := h
  · simp [hr]
  · simp [hf]

theorem pull_lexer (h : l.Stuck) : l.pull.lexer = { l with finished := true } := by
  cases hd : l.finished with
  | true => rw [pull_of_finished hd, ← hd]
  | false =>
    obtain hr | ⟨fault, hf⟩ := h
    · simp [hd, hr]
    · simp [hd, hf]

end Stuck

/-- The lexer is what it was, but that a sequence of its tokens may have come to its end. -/
def Stays (l l' : Lexer) : Prop := l' = l ∨ l' = { l with finished := true }

namespace Stays

theorem trans (h : Stays l l') (h' : Stays l' l'') : Stays l l'' := by
  obtain rfl | rfl := h'
  · exact h
  · obtain rfl | rfl := h
    · exact .inr rfl
    · exact .inr rfl

theorem rest_eq (h : Stays l l') : l'.rest = l.rest := by
  obtain rfl | rfl := h <;> rfl

theorem position_eq (h : Stays l l') : l'.position = l.position := by
  obtain rfl | rfl := h <;> rfl

theorem finished_eq (h : Stays l l') (hd : l.finished = true) : l'.finished = true := by
  obtain rfl | rfl := h
  · exact hd
  · rfl

end Stays
end Lexer

namespace Session
open Lexer
variable {s : Session} {op : Operation} {l : Lexer}

theorem perform_of_stuck (hs : s.lexer.Stuck) (hop : op ≠ .restore)
    (hc : ∀ c, (s.perform op).answer ≠ .character c) :
    Stays s.lexer (s.perform op).session.lexer := by
  cases op with
  | next => exact .inl hs.next_lexer
  | nextSignificant => exact .inl hs.nextSignificant_lexer
  | tokenize => exact .inl (hs.collect_lexer s.lexer.config.emitHidden)
  | tokenizeAll => exact .inl (hs.collect_lexer true)
  | pull => exact .inr hs.pull_lexer
  | skip =>
    cases hr : s.lexer.rest with
    | nil => exact .inl (by simp [perform, report, skip, hr])
    | cons c cs => exact absurd (by simp [perform, report, skip, hr]) (hc c)
  | peek | position | offset | atEnd | config | save => exact .inl rfl
  | restore => exact absurd rfl hop

/-- Until a character is given up a stuck lexer stays, whatever is done with it and with copies of
it. -/
theorem after_of_stuck (hs : l.Stuck) {ops : List Operation}
    (hc : ∀ c, .character c ∉ (ofLexer l).answers ops) :
    Stays l ((ofLexer l).after ops).lexer := by
  refine after_forall (List.forall_mem_singleton.2 (.inl rfl)) fun s' op _ hop hr hl => ?_
  have hs' : s'.lexer.Stuck := by rwa [Stuck, hl.rest_eq]
  exact hl.trans (perform_of_stuck hs' hop fun c h => hc c (h ▸ List.mem_map_of_mem hr))

theorem after_of_nil (hr : l.rest = []) (ops : List Operation) :
    ((ofLexer l).after ops).lexer.rest = [] := by
  refine after_forall (P := (·.rest = [])) (List.forall_mem_singleton.2 hr)
    fun s' op _ hop _ hl => ?_
  have h := (s'.perform_path hop).rest_eq
  rw [hl] at h
  exact (List.append_eq_nil_iff.1 h.symm).2

end Session
end Cql
