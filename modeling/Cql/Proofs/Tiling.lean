import Cql.Proofs.Positions

/-!
What is consumed tiles the text: the pieces that a session takes, whole tokens and single characters
given up, follow one another without gap or overlap.
-/
namespace Cql

structure Piece where
  start : Nat
  text : List Char
deriving DecidableEq

def Token.piece (t : Token) : Piece := ⟨t.start, t.text⟩

def Event.piece? : Event → Option Piece
  | .scanned t => some t.piece
  | .skipped c p => some ⟨p.offset - c.utf8Size, [c]⟩
  | .failed _ => none

def pieces (events : List Event) : List Piece := events.filterMap Event.piece?

/-- The text between two byte offsets. -/
def slice (text : List Char) (start stop : Nat) : Option (List Char) :=
  if start ≤ stop then
    (splitAtByte text start).bind fun s => (splitAtByte s.2 (stop - start)).map Prod.fst
  else none

/-- From one offset of a text to another there is piece after piece, none of them empty, each where
the one before it ends. -/
def Tiles (text : List Char) : Nat → List Piece → Nat → Prop
  | i, [], j => i = j
  | i, p :: ps, j =>
    p.start = i ∧ p.text ≠ [] ∧ slice text i (i + utf8Size p.text) = some p.text ∧
      Tiles text (i + utf8Size p.text) ps j

theorem slice_append (before text after : List Char) :
    slice (before ++ (text ++ after)) (utf8Size before) (utf8Size before + utf8Size text) =
      some text := by
  simp [slice]

@[simp] theorem pieces_nil : pieces [] = [] := rfl

@[simp] theorem pieces_cons_scanned (t : Token) (es : List Event) :
    pieces (.scanned t :: es) = t.piece :: pieces es := rfl

@[simp] theorem pieces_cons_failed (e : LexicalError) (es : List Event) :
    pieces (.failed e :: es) = pieces es := rfl

@[simp] theorem pieces_cons_skipped (c : Char) (p : Position) (es : List Event) :
    pieces (.skipped c p :: es) = ⟨p.offset - c.utf8Size, [c]⟩ :: pieces es := rfl

@[simp] theorem pieces_append (es es' : List Event) :
    pieces (es ++ es') = pieces es ++ pieces es' :=
  List.filterMap_append

namespace Tiles
variable {text : List Char}

theorem append {i j k : Nat} {ps qs : List Piece} (h : Tiles text i ps j) (h' : Tiles text j qs k) :
    Tiles text i (ps ++ qs) k := by
  induction ps generalizing i with
  | nil => exact h ▸ h'
  | cons p ps ih => exact ⟨h.1, h.2.1, h.2.2.1, ih h.2.2.2⟩

theorem slice_of_mem {i j : Nat} {ps : List Piece} (h : Tiles text i ps j) {p : Piece}
    (hp : p ∈ ps) : slice text p.start (p.start + utf8Size p.text) = some p.text := by
  induction ps generalizing i with
  | nil => cases hp
  | cons q ps ih =>
    obtain ⟨rfl, _, hs, h⟩ := h
    rcases List.mem_cons.1 hp with rfl | hp
    · exact hs
    · exact ih h hp

theorem pairwise {i j : Nat} {ps : List Piece} (h : Tiles text i ps j) :
    ps.Pairwise (·.start < ·.start) ∧ ∀ p ∈ ps, i ≤ p.start := by
  induction ps generalizing i with
  | nil => simp
  | cons p ps ih =>
    obtain ⟨rfl, hp, _, h⟩ := h
    obtain ⟨hps, hle⟩ := ih h
    have hpos := utf8Size_pos hp
    refine ⟨List.pairwise_cons.2 ⟨fun q hq => ?_, hps⟩, fun q hq => ?_⟩
    · have := hle q hq; omega
    · rcases List.mem_cons.1 hq with rfl | hq
      · exact Nat.le_refl _
      · have := hle q hq; omega

end Tiles

namespace Lexer
variable {text : List Char} {l l' : Lexer} {es : List Event}

theorem StandsIn.slice_eq (hl : l.StandsIn text) {w after : List Char} (h : l.rest = w ++ after) :
    slice text l.position.offset (l.position.offset + utf8Size w) = some w := by
  obtain ⟨before, ht, hp⟩ := hl
  rw [ht, hp, h]
  exact slice_append before w after

/-- A move consumes the front of what is not read yet. -/
theorem Move.rest_eq (h : Move l es l') : l.rest = (pieces es).flatMap Piece.text ++ l'.rest := by
  cases h with
  | @take x _ _ => simp [Token.piece, token, Token.of, pass]
  | fail => rfl
  | skip hr => exact hr
  | finish => rfl

theorem Path.rest_eq (h : Path l es l') : l.rest = (pieces es).flatMap Piece.text ++ l'.rest := by
  induction h with
  | refl => rfl
  | step first _ ih => simp [first.rest_eq, ih]

theorem Move.tiles (h : Move l es l') (hl : l.StandsIn text) :
    Tiles text l.position.offset (pieces es) l'.position.offset := by
  cases h with
  | @take x hr hx =>
    obtain ⟨c, cs, hc⟩ := List.exists_cons_of_ne_nil hr
    have hx := scan_length_pos (hc ▸ hx)
    have hw : l.rest.take x.length ≠ [] := by simp [hc]; omega
    exact ⟨rfl, hw, hl.slice_eq (List.take_append_drop _ _).symm, by simp [Tiles, pass, token,
      Token.piece, Token.of]⟩
  | fail => rfl
  | @skip c cs hr =>
    have hs := hl.slice_eq (w := [c]) hr
    exact ⟨by simp, List.cons_ne_nil c [], hs, by simp [Tiles]⟩
  | finish => rfl

theorem Path.tiles (h : Path l es l') (hl : l.StandsIn text) :
    Tiles text l.position.offset (pieces es) l'.position.offset := by
  induction h with
  | refl => rfl
  | step first _ ih =>
    rw [pieces_append]
    exact (first.tiles hl).append (ih (hl.move first))

theorem Move.indices (h : Move l es l') :
    (taken es).map Token.index = List.range' l.index (taken es).length ∧
      l'.index = l.index + (taken es).length := by
  cases h <;> exact ⟨rfl, rfl⟩

theorem Path.indices (h : Path l es l') :
    (taken es).map Token.index = List.range' l.index (taken es).length ∧
      l'.index = l.index + (taken es).length := by
  induction h with
  | refl => exact ⟨rfl, rfl⟩
  | step first _ ih =>
    obtain ⟨hf, hn⟩ := first.indices
    rw [hn] at ih
    simp [hf, ih.1, ih.2, List.range'_append_1, Nat.add_assoc]

theorem Path.indices_endToken (h : Path l es l') :
    (taken es ++ [l'.endToken]).map Token.index =
      List.range' l.index (taken es ++ [l'.endToken]).length := by
  obtain ⟨hi, hn⟩ := h.indices
  rw [List.map_append, hi, List.length_append, List.length_singleton, List.range'_1_concat, ← hn]
  rfl

theorem Path.slice_taken (h : Path l es l') (hl : l.StandsIn text) {t : Token} (ht : t ∈ taken es) :
    t.stop = t.start + utf8Size t.text ∧ slice text t.start t.stop = some t.text := by
  obtain ⟨m, m', hm, hmove⟩ := h.move_of_mem StandsIn.move hl (mem_taken.1 ht)
  cases hmove with
  | take => exact ⟨rfl, hm.slice_eq (List.take_append_drop _ _).symm⟩

theorem pieces_collect (hidden : Bool) (l : Lexer) :
    pieces (l.collect hidden).events = (taken (l.collect hidden).events).map Token.piece := by
  have hnext {l l' : Lexer} {r : Except LexicalError Token} {events : List Event}
      (h : l.next = ⟨r, l', events⟩) : pieces events = (taken events).map Token.piece := by
    obtain ⟨f, _, hn⟩ | ⟨_, hn⟩ | ⟨x, _, _, _, hn⟩ := next_cases l
    all_goals
      rw [hn] at h
      cases h
      rfl
  fun_induction collect hidden l with
  | case1 l e l' events h => exact hnext h
  | case2 l t l' events h => exact hnext h
  | case3 l t l' events h _ _ s =>
    rename_i ih
    simpa [hnext h] using ih

theorem Path.taken_not_eof (h : Path l es l') {t : Token} (ht : t ∈ taken es) :
    t.isEof = false := by
  obtain ⟨m, m', _, hmove⟩ := h.move_of_mem (P := fun _ => True) (fun _ _ => trivial) trivial
    (mem_taken.1 ht)
  cases hmove with
  | take hr hx =>
    obtain ⟨c, cs, hc⟩ := List.exists_cons_of_ne_nil hr
    exact decide_eq_false (scan_kind_ne_eof (hc ▸ hx))

/-- All the tokens from a place on tile the rest of the text, they are numbered on, and behind them
is the end token. -/
theorem StandsIn.tokenizeAll_tiles (hl : l.StandsIn text) {ts : List Token}
    (h : l.tokenizeAll.result = .ok ts) :
    ∃ us u, ts = us ++ [u] ∧ (∀ t ∈ us, t.isEof = false) ∧ u.isEof = true ∧
      Tiles text l.position.offset (us.map Token.piece) (utf8Size text) ∧
      u.start = utf8Size text ∧ u.stop = utf8Size text ∧ ts.flatMap Token.text = l.rest ∧
      ts.map Token.index = List.range' l.index ts.length := by
  obtain ⟨hr, rfl⟩ := tokenizeAll_ok h
  have hp : Path l l.tokenizeAll.events l.tokenizeAll.lexer := l.collect_path true
  have hps : pieces l.tokenizeAll.events = (taken l.tokenizeAll.events).map Token.piece :=
    l.pieces_collect true
  have htiles := hp.tiles hl
  have hrest := hp.rest_eq
  have hoff := (hp.standsIn hl).offset_eq hr
  rw [hps, hoff] at htiles
  rw [hps, hr, List.append_nil, List.flatMap_map] at hrest
  refine ⟨_, _, rfl, fun t ht => hp.taken_not_eof ht, endToken_isEof _, htiles, hoff, hoff, ?_,
    hp.indices_endToken⟩
  rw [List.flatMap_append]
  exact (List.append_nil _).trans hrest.symm

end Lexer

namespace Session
open Lexer
variable {text : List Char}

end Session
end Cql
