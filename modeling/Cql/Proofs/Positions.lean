import Cql.Proofs.Answers

/-!
A position that is counted on, byte by byte and operation by operation, is the position that is
counted from the start of the text.
-/
namespace Cql

def Event.position : Event → Position
  | .scanned t => t.position
  | .failed e => e.position
  | .skipped _ p => p

namespace Lexer
variable {text : List Char} {l l' : Lexer} {es : List Event}

/-- The lexer stands in the text: the text ends with what is not read yet, and the position counts
all that is before it. -/
def StandsIn (l : Lexer) (text : List Char) : Prop :=
  ∃ before, text = before ++ l.rest ∧ l.position = .after before

/-- The ways to begin on a text. -/
inductive Begins (text : List Char) : Lexer → Prop where
  | ofText (config : Config) : Begins text (ofText config text)
  | at? {offset : Nat} {l : Lexer} (h : at? text offset = .ok l) : Begins text l

theorem Begins.standsIn (h : Begins text l) : l.StandsIn text := by
  cases h with
  | ofText config => exact ⟨[], rfl, rfl⟩
  | @at? offset _ h =>
    unfold Lexer.at? at h
    split at h
    · rename_i before rest hs
      cases h
      exact ⟨before, (splitAtByte_eq_some hs).1, rfl⟩
    · cases h

theorem Begins.index_eq (h : Begins text l) : l.index = 0 := by
  cases h with
  | ofText config => rfl
  | at? h =>
    unfold Lexer.at? at h
    split at h <;> cases h
    rfl

theorem StandsIn.move (hl : l.StandsIn text) (h : Move l es l') : l'.StandsIn text := by
  obtain ⟨before, ht, hp⟩ := hl
  cases h with
  | @take x hr hx =>
    exact ⟨before ++ l.rest.take x.length, by simp [pass, ht], by simp [pass, hp]⟩
  | fail => exact ⟨before, ht, hp⟩
  | @skip c cs hr => exact ⟨before ++ [c], by simp [ht, hr], by simp [hp]⟩
  | finish => exact ⟨before, ht, hp⟩

theorem Move.offset_le (h : Move l es l') : l.position.offset ≤ l'.position.offset := by
  cases h <;> simp [pass]

theorem Path.standsIn (h : Path l es l') (hl : l.StandsIn text) : l'.StandsIn text :=
  h.invariant StandsIn.move hl

theorem Path.offset_le (h : Path l es l') : l.position.offset ≤ l'.position.offset := by
  induction h with
  | refl => exact Nat.le_refl _
  | step first _ ih => exact Nat.le_trans first.offset_le ih

/-- The lexer that starts where this one stands has the same position and the same text before
it. -/
theorem StandsIn.at?_eq (hl : l.StandsIn text) :
    Lexer.at? text l.position.offset = .ok ⟨l.rest, l.position, 0, false, {}⟩ := by
  obtain ⟨before, ht, hp⟩ := hl
  simp [Lexer.at?, ht, hp]

theorem StandsIn.offset_le (hl : l.StandsIn text) : l.position.offset ≤ utf8Size text := by
  obtain ⟨before, ht, hp⟩ := hl
  simp [ht, hp]

theorem StandsIn.map_at? (hl : l.StandsIn text) :
    (Lexer.at? text l.position.offset).map Lexer.position = .ok l.position := by
  simp [hl.at?_eq, Except.map]

theorem StandsIn.offset_eq (hl : l.StandsIn text) (hr : l.rest = []) :
    l.position.offset = utf8Size text := by
  obtain ⟨before, ht, hp⟩ := hl
  simp [ht, hp, hr]

theorem StandsIn.offset_lt (hl : l.StandsIn text) (hr : l.rest ≠ []) :
    l.position.offset < utf8Size text := by
  obtain ⟨before, ht, hp⟩ := hl
  have hpos := utf8Size_pos hr
  simpa [ht, hp] using hpos

theorem StandsIn.rest_eq_nil_iff (hl : l.StandsIn text) :
    l.rest = [] ↔ l.position.offset = utf8Size text := by
  refine ⟨hl.offset_eq, fun h => ?_⟩
  cases hr : l.rest with
  | nil => rfl
  | cons c cs => exact absurd h (Nat.ne_of_lt (hl.offset_lt (by simp [hr])))

theorem StandsIn.split (hl : l.StandsIn text) :
    ∃ before, splitAtByte text l.position.offset = some (before, l.rest) ∧
      l.position.line = 1 + before.count '\n' ∧
      l.position.column = 1 + (Position.lastLine before).length := by
  obtain ⟨before, ht, hp⟩ := hl
  exact ⟨before, by simp [ht, hp], by simp [hp, Position.after], by simp [hp, Position.after]⟩

theorem Path.event_standsIn (h : Path l es l') (hl : l.StandsIn text) {e : Event} (he : e ∈ es) :
    ∃ m : Lexer, m.StandsIn text ∧ m.position = e.position := by
  obtain ⟨m, m', hm, hmove⟩ := h.move_of_mem StandsIn.move hl he
  have hm' := hm.move hmove
  cases hmove with
  | take | fail => exact ⟨m, hm, rfl⟩
  | skip => exact ⟨_, hm', rfl⟩

end Lexer

namespace Session
open Lexer
variable {text : List Char} {s : Session} {ops : List Operation}

theorem lexers_offsets (h : .restore ∉ ops) :
    ((s.lexers ops).map (·.position.offset)).Pairwise (· ≤ ·) := by
  induction ops generalizing s with
  | nil => exact List.pairwise_singleton _ _
  | cons op ops ih =>
    obtain ⟨hop, hops⟩ := List.ne_and_not_mem_of_not_mem_cons h
    have hle := (s.perform_path (Ne.symm hop)).offset_le
    have hrun := ih (s := (s.perform op).session) hops
    refine List.pairwise_cons.2 ⟨fun n hn => ?_, hrun⟩
    rcases List.mem_cons.1 hn with rfl | hn
    · exact hle
    · exact Nat.le_trans hle ((List.pairwise_cons.1 hrun).1 n hn)

theorem lexers_standsIn (hs : s.lexer.StandsIn text) (h : .restore ∉ ops) :
    ∀ m ∈ s.lexers ops, m.StandsIn text := by
  induction ops generalizing s with
  | nil => exact fun m hm => List.mem_singleton.1 hm ▸ hs
  | cons op ops ih =>
    obtain ⟨hop, hops⟩ := List.ne_and_not_mem_of_not_mem_cons h
    intro m hm
    rcases List.mem_cons.1 hm with rfl | hm
    · exact hs
    · exact ih ((s.perform_path (Ne.symm hop)).standsIn hs) hops m hm

/-- Whatever is done, copies taken up again included, the lexer stands in its text. -/
theorem after_standsIn {l : Lexer} (hl : l.StandsIn text) (ops : List Operation) :
    ((ofLexer l).after ops).lexer.StandsIn text :=
  after_forall (P := (·.StandsIn text)) (List.forall_mem_singleton.2 hl) fun s' _ _ hop _ hs =>
    (s'.perform_path hop).standsIn hs

theorem perform_positions (hs : s.lexer.StandsIn text) {op : Operation} (hop : op ≠ .restore) :
    (∀ t ∈ (s.perform op).answer.tokenList,
      ∃ m : Lexer, m.StandsIn text ∧ m.position = t.position) ∧
      ∀ e ∈ (s.perform op).answer.errorList,
        ∃ m : Lexer, m.StandsIn text ∧ m.position = e.position := by
  have hp := s.perform_path hop
  constructor
  · intro t ht
    rcases s.perform_tokens op ht with ht | ⟨ht, _⟩
    · exact hp.event_standsIn hs (mem_taken.1 ht)
    · exact ⟨_, hp.standsIn hs, ht.symm⟩
  · intro e he
    exact hp.event_standsIn hs (s.perform_errors op he)

/-- In every run the offset never falls, and the position of every lexer, of every token and of
every error that is answered is the one that a lexer started there counts from the text before
it. -/
theorem run_position_counted {l : Lexer} (hl : Begins text l) (h : .restore ∉ ops) :
    (((Session.ofLexer l).lexers ops).map (·.position.offset)).Pairwise (· ≤ ·) ∧
      (∀ m ∈ (Session.ofLexer l).lexers ops, m.position.offset ≤ utf8Size text ∧
        (Lexer.at? text m.position.offset).map Lexer.position = .ok m.position ∧
        ∃ before, splitAtByte text m.position.offset = some (before, m.rest) ∧
          m.position.line = 1 + before.count '\n' ∧
          m.position.column = 1 + (Position.lastLine before).length) ∧
      ∀ r ∈ (Session.ofLexer l).run ops,
        (∀ t ∈ r.answer.tokenList,
          (Lexer.at? text t.position.offset).map Lexer.position = .ok t.position) ∧
        ∀ e ∈ r.answer.errorList,
          (Lexer.at? text e.position.offset).map Lexer.position = .ok e.position := by
  have hs : (Session.ofLexer l).lexer.StandsIn text := hl.standsIn
  refine ⟨lexers_offsets h, fun m hm => ?_, fun r hr => ?_⟩
  · have hm := lexers_standsIn hs h m hm
    exact ⟨hm.offset_le, hm.map_at?, hm.split⟩
  · obtain ⟨ops₁, op, ops₂, rfl, rfl⟩ := mem_run hr
    rw [List.mem_append, List.mem_cons, not_or, not_or] at h
    have hp := run_path (Session.ofLexer l) h.1
    obtain ⟨ht, he⟩ := perform_positions (hp.standsIn hs) (Ne.symm h.2.1)
    refine ⟨fun t htm => ?_, fun e hem => ?_⟩
    · obtain ⟨m, hm, hmt⟩ := ht t htm
      exact hmt ▸ hm.map_at?
    · obtain ⟨m, hm, hme⟩ := he e hem
      exact hme ▸ hm.map_at?

/-- A literal over two lines with a character of two bytes, a blank, an error and the step over
it. -/
theorem run_position_counted_two_lines :
    let text := ['\'', 'é', '\n', '\'', ' ', '$']
    let ops : List Operation := [.next, .next, .next, .skip]
    .restore ∉ ops ∧
      ((Session.ofLexer (.ofText {} text)).lexers ops).map (·.position) =
        [⟨1, 1, 0⟩, ⟨2, 2, 5⟩, ⟨2, 3, 6⟩, ⟨2, 3, 6⟩, ⟨2, 4, 7⟩] ∧
      ∀ m ∈ (Session.ofLexer (.ofText {} text)).lexers ops,
        (Lexer.at? text m.position.offset).map Lexer.position = .ok m.position := by
  intro text ops
  have h : .restore ∉ ops := by decide
  exact ⟨h, by decide, fun m hm => ((run_position_counted (.ofText {}) h).2.1 m hm).2.1⟩

end Session
end Cql
