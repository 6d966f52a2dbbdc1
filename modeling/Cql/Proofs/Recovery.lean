import Cql.Proofs.LongestMatch
import Cql.Proofs.Tiling

/-!
Reading on behind errors loses and invents nothing: the tokens and one character for each error tile
the text.
-/
namespace Cql

/-- The character that a fault is found at: the one that starts no token, or the first of an opening
delimiter. -/
def Fault.character : Fault → Char
  | .unrecognized c => c
  | .unterminated .string => '\''
  | .unterminated .quotedName => '"'
  | .unterminated .codeBlock => '$'

def LexicalError.piece (e : LexicalError) : Piece := ⟨e.position.offset, [e.fault.character]⟩

theorem Rule.missing_character (c : Char) (cs : List Char) : (missing c cs).character = c := by
  unfold missing
  split <;> rfl

theorem scan_error_character {c : Char} {cs : List Char} {fault : Fault}
    (h : scan (c :: cs) = .error fault) : fault.character = c := by
  obtain ⟨_, rfl⟩ := Rule.scan_missing h
  exact Rule.missing_character c cs

namespace Lexer

/-- Recovery is a path to the end of the text. It gives up one character for each error, the one at
fault, and consumes nothing else but the tokens. -/
theorem recover_path (l : Lexer) :
    ∃ es l', Path l es l' ∧ l'.rest = [] ∧ l.recover.tokens = taken es ++ [l'.endToken] ∧
      (l.recover.errors.map LexicalError.piece).Sublist (pieces es) ∧
      (pieces es).Perm ((taken es).map Token.piece ++ l.recover.errors.map LexicalError.piece) := by
  fun_induction recover l with
  | case1 l t l' events hn ht =>
    obtain ⟨hr, rfl, rfl, rfl⟩ := next_eof_cases hn ht
    exact ⟨[], l', .refl l', hr, rfl, .slnil, .nil⟩
  | case2 l t l' events hn ht r ih =>
    obtain ⟨es, m, hp, hr, hts, hs, hperm⟩ := ih
    obtain ⟨x, _, _, rfl, _, rfl⟩ := next_token_cases hn (eq_false_of_ne_true ht)
    refine ⟨_, m, (path_of_next hn).trans hp, hr, ?_, hs.cons _, hperm.cons _⟩
    simpa using hts
  | case3 l e l' events hn l'' events' hs =>
    obtain ⟨f, hf, _, rfl, _⟩ := next_error_cases hn
    -- there is a character before the fault, so one can be given up
    rw [skip_none_cases hs] at hf
    cases hf
  | case4 l e l' events hn c l'' events' hs r ih =>
    obtain ⟨es, m, hp, hr, hts, hsub, hperm⟩ := ih
    obtain ⟨f, hf, rfl, rfl, rfl⟩ := next_error_cases hn
    obtain ⟨cs, hc, hmove, rfl⟩ := skip_some_cases hs
    have hpiece : pieces [.skipped c (l'.position.next c)] =
        [LexicalError.piece ⟨f, l'.position⟩] := by
      rw [hc] at hf
      simp [LexicalError.piece, scan_error_character hf]
    refine ⟨_, m, (path_of_next hn).trans ((Path.single hmove).trans hp), hr, hts, ?_, ?_⟩
    all_goals rw [pieces_append, pieces_append, hpiece]
    · exact hsub.cons_cons _
    · exact (hperm.cons _).trans List.perm_middle.symm

/-- In all that is recovered from a text the end token comes last and only there, the tokens are
numbered from zero, and the errors come in the order of their offsets. The tokens before the end and
for each error the character at fault, in the order of their offsets, tile the text. -/
theorem recover_tiles (text : List Char) :
    let r := (Lexer.ofText {} text).recover
    ∃ ts t, r.tokens = ts ++ [t] ∧ t.isEof = true ∧ t.start = utf8Size text ∧
      (∀ u ∈ ts, u.isEof = false) ∧ r.tokens.map Token.index = List.range r.tokens.length ∧
      (r.errors.map (·.position.offset)).Pairwise (· < ·) ∧
      (∃ ps : List Piece, ps.Perm (ts.map Token.piece ++ r.errors.map LexicalError.piece) ∧
        ps.Pairwise (·.start < ·.start) ∧ Tiles text 0 ps (utf8Size text)) ∧
      ∀ e ∈ r.errors, slice text e.position.offset
        (e.position.offset + e.fault.character.utf8Size) = some [e.fault.character] := by
  intro r
  obtain ⟨es, l', hp, hr, hts, hsub, hperm⟩ := recover_path (Lexer.ofText {} text)
  have hs : (Lexer.ofText {} text).StandsIn text := (Begins.ofText {}).standsIn
  have hoff := (hp.standsIn hs).offset_eq hr
  have htiles := hp.tiles hs
  rw [hoff] at htiles
  refine ⟨taken es, l'.endToken, hts, endToken_isEof l', hoff, fun u hu => hp.taken_not_eof hu,
    ?_, ?_, ⟨pieces es, hperm, htiles.pairwise.1, htiles⟩, fun e he => ?_⟩
  · rw [hts, hp.indices_endToken, List.range_eq_range']
    rfl
  · have hstarts := htiles.pairwise.1.sublist hsub
    rw [List.pairwise_map] at hstarts ⊢
    exact hstarts
  · rw [← utf8Size_singleton]
    exact htiles.slice_of_mem (hsub.subset (List.mem_map_of_mem he))

end Lexer
end Cql
