import Cql.Proofs.Indexed
import Cql.Proofs.Recovery
import Cql.Proofs.Stuck

/-!
A lexer never looks outside its text nor cuts a character. Whatever it has been through, each index
that its scan takes is in range, each slice lies between characters, and a character can be given up
behind every error.
-/
namespace Cql
namespace Lexer
variable {l l' : Lexer} {e : LexicalError} {es : List Event} {text : List Char}

/-- Reading on behind errors, with no result if there is no character to give up behind one. -/
def recover? (l : Lexer) : Option Recovery :=
  match _ : l.next with
  | ⟨.ok t, l', _⟩ =>
    if _ : t.isEof then some ⟨[t], []⟩
    else (recover? l').map fun r => { r with tokens := t :: r.tokens }
  | ⟨.error e, l', _⟩ =>
    match _ : l'.skip with
    | ⟨none, _, _⟩ => none
    | ⟨some _, l'', _⟩ => (recover? l'').map fun r => { r with errors := e :: r.errors }
termination_by l.rest.length
decreasing_by
  · exact length_rest_next ‹_› (eq_false_of_ne_true ‹_›)
  · exact length_rest_skip ‹_› ‹_›

theorem recover?_eq (l : Lexer) : l.recover? = some l.recover := by
  fun_induction recover? l with
  | case1 l t l' events hn ht =>
    obtain ⟨hr, rfl, rfl, rfl⟩ := next_eof_cases hn ht
    simp [hr]
  | case2 l t l' events hn ht ih =>
    obtain ⟨x, hr, hx, rfl, rfl, rfl⟩ := next_token_cases hn (eq_false_of_ne_true ht)
    simp [ih, hr, hx]
  | case3 l e l' events hn l'' events' hs =>
    obtain ⟨f, hf, _, rfl, _⟩ := next_error_cases hn
    exact absurd (skip_none_cases hs) (rest_ne_nil_of_error hf)
  | case4 l e l' events hn c l'' events' hs ih =>
    obtain ⟨f, hf, rfl, rfl, rfl⟩ := next_error_cases hn
    simp [ih, recover_of_error hf, hs]

theorem skip_eq_none : l.skip.result = none ↔ l.rest = [] := by
  rw [skip]
  cases l.rest <;> simp

theorem StandsIn.charAt?_of_error (hl : l.StandsIn text) (h : l.next.result = .error e) :
    Indexed.charAt? text l.position.offset = some e.fault.character := by
  obtain ⟨before, ht, hp⟩ := hl
  obtain ⟨hf, -⟩ := next_eq_error.1 h
  have ho : l.position.offset = utf8Size before := by simp [hp]
  obtain ⟨c, cs, hc⟩ := List.exists_cons_of_ne_nil (rest_ne_nil_of_error hf)
  rw [hc] at ht hf
  rw [Indexed.charAt?_eq ht ho, scan_error_character hf]
  rfl

theorem Path.scanned_in_bounds (h : Path l es l') (hl : l.StandsIn text) {t : Token}
    (ht : .scanned t ∈ es) :
    ∃ p, Indexed.next text t.position t.index = some (.ok t, p) ∧ IsBoundary text p.offset := by
  obtain ⟨m, m', hm, hmove⟩ := h.move_of_mem StandsIn.move hl ht
  have hm' := hm.move hmove
  cases hmove with
  | take hr hx =>
    have hn := Indexed.next_eq hm
    rw [next_of_ok hr hx] at hn
    exact ⟨_, hn, hm'.isBoundary⟩

theorem Path.failed_in_bounds (h : Path l es l') (hl : l.StandsIn text) (he : .failed e ∈ es) :
    ∃ i, Indexed.next text e.position i = some (.error e, e.position) ∧
      Indexed.charAt? text e.position.offset = some e.fault.character := by
  obtain ⟨m, m', hm, hmove⟩ := h.move_of_mem StandsIn.move hl he
  cases hmove with
  | fail hf =>
    have hn := Indexed.next_eq hm
    have hc := next_of_error hf
    rw [hc] at hn
    exact ⟨m.index, hn, hm.charAt?_of_error (congrArg Step.result hc)⟩

end Lexer

namespace Session
open Lexer

/-- What happens in an operation happens on a path, even where a copy is taken up again. -/
theorem exists_path (s : Session) (op : Operation) :
    ∃ l', Path s.lexer (s.perform op).events l' := by
  by_cases hop : op = .restore
  · subst hop
    have he : (s.perform .restore).events = [] := by cases hs : s.saved <;> simp [perform, hs]
    exact ⟨s.lexer, he ▸ .refl s.lexer⟩
  · exact ⟨_, s.perform_path hop⟩

/-- Behind any operations a scan comes to its result with all its indices in range and all its
slices between characters, and so does giving up a character. Every token that an operation takes
and every error that it meets is read so, a token from one boundary to another, an error at a
character of the text. There is a character to give up wherever the text has not ended, so behind
every error. -/
theorem reads_in_bounds {text : List Char} {l : Lexer} (hl : Begins text l)
    (ops : List Operation) :
    let s := (ofLexer l).after ops
    let m := s.lexer
    Indexed.next text m.position m.index = some (m.next.result, m.next.lexer.position) ∧
      Indexed.skip text m.position = (m.skip.result, m.skip.lexer.position) ∧
      (∀ offset, Indexed.at? text offset =
        some ((Lexer.at? text offset).map Lexer.position)) ∧
      IsBoundary text m.position.offset ∧ IsBoundary text m.next.lexer.position.offset ∧
      (∀ op t, .scanned t ∈ (s.perform op).events →
        ∃ p, Indexed.next text t.position t.index = some (.ok t, p) ∧
          IsBoundary text p.offset) ∧
      (∀ op e, .failed e ∈ (s.perform op).events →
        ∃ i, Indexed.next text e.position i = some (.error e, e.position) ∧
          Indexed.charAt? text e.position.offset = some e.fault.character) ∧
      (m.skip.result = none ↔ m.position.offset = utf8Size text) ∧
      m.recover? = some m.recover := by
  intro s m
  have hm : m.StandsIn text := after_standsIn hl.standsIn ops
  have hnext : m.next.lexer.StandsIn text := m.next_path.standsIn hm
  refine ⟨Indexed.next_eq hm, Indexed.skip_eq hm, Indexed.at?_eq text, hm.isBoundary,
    hnext.isBoundary, fun op t ht => ?_, fun op e he => ?_,
    skip_eq_none.trans hm.rest_eq_nil_iff, m.recover?_eq⟩
  · obtain ⟨l', hp⟩ := s.exists_path op
    exact hp.scanned_in_bounds hm ht
  · obtain ⟨l', hp⟩ := s.exists_path op
    exact hp.failed_in_bounds hm he

/-- A backslash passes over the first byte of a character, the string still ends between characters,
and behind it there is an error. -/
theorem reads_in_bounds_behind_escape :
    let text := ['\'', '\\', 'é', '\'', '€']
    let l : Lexer := .ofText {} text
    let m := ((ofLexer l).after [.next]).lexer
    let e : LexicalError := ⟨.unrecognized '€', ⟨1, 5, 5⟩⟩
    Begins text l ∧ m = ⟨['€'], ⟨1, 5, 5⟩, 1, false, {}⟩ ∧
      Indexed.next text l.position l.index =
        some (.ok (.of .stringLiteral ['\'', '\\', 'é', '\''] ⟨1, 1, 0⟩ 0), ⟨1, 5, 5⟩) ∧
      Indexed.next text m.position m.index = some (.error e, ⟨1, 5, 5⟩) ∧
      Indexed.skip text m.position = (some '€', ⟨1, 6, 8⟩) := by
  intro text l m e
  have hl : Begins text l := .ofText {}
  have hm : m = ⟨['€'], ⟨1, 5, 5⟩, 1, false, {}⟩ := by decide +kernel
  have hfirst : (l.next.result, l.next.lexer.position) =
      (.ok (.of .stringLiteral ['\'', '\\', 'é', '\''] ⟨1, 1, 0⟩ 0), ⟨1, 5, 5⟩) := rfl
  have hsecond : (m.next.result, m.next.lexer.position) = (.error e, ⟨1, 5, 5⟩) := rfl
  have hskip : (m.skip.result, m.skip.lexer.position) = (some '€', ⟨1, 6, 8⟩) := rfl
  have hstart := (reads_in_bounds hl []).1
  have hbehind := reads_in_bounds hl [.next]
  exact ⟨hl, hm, hstart.trans (congrArg some hfirst), hbehind.1.trans (congrArg some hsecond),
    hbehind.2.1.trans hskip⟩

end Session
end Cql
