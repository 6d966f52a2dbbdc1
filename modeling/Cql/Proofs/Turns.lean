import Cql.Proofs.Passes

/-!
The loops over a text, turn by turn. A turn scans once, and unless it is the last it takes a token
or gives up a character, so a loop is done after no more turns than there are characters, and one.
-/
namespace Cql

inductive Turn (σ α : Type) where
  | again (s : σ)
  | done (r : α)

section Halts
variable {σ α : Type} {turn : σ → Turn σ α} {s s' : σ} {r r' : α} {n n' : Nat}

/-- A loop that starts here is done after so many turns, with a result. -/
inductive Halts (turn : σ → Turn σ α) : σ → Nat → α → Prop where
  | done {s : σ} {r : α} (h : turn s = .done r) : Halts turn s 1 r
  | again {s s' : σ} {n : Nat} {r : α} (h : turn s = .again s') (later : Halts turn s' n r) :
      Halts turn s (n + 1) r

theorem Halts.unique (h : Halts turn s n r) (h' : Halts turn s n' r') : n = n' ∧ r = r' := by
  induction h generalizing n' with
  | done hs =>
    cases h' with
    | done hs' =>
      rw [hs] at hs'
      cases hs'
      exact ⟨rfl, rfl⟩
    | again hs' _ =>
      rw [hs] at hs'
      cases hs'
  | again hs _ ih =>
    cases h' with
    | done hs' =>
      rw [hs] at hs'
      cases hs'
    | again hs' later =>
      rw [hs] at hs'
      cases hs'
      obtain ⟨rfl, rfl⟩ := ih later
      exact ⟨rfl, rfl⟩

theorem Halts.iff (h : Halts turn s n r) : Halts turn s n' r' ↔ n' = n ∧ r' = r := by
  constructor
  · exact fun h' => h'.unique h
  · rintro ⟨rfl, rfl⟩
    exact h

/-- What gets smaller with every turn but the last bounds the turns. -/
theorem Halts.le {size : σ → Nat} (hsize : ∀ s s', turn s = .again s' → size s' < size s)
    (h : Halts turn s n r) : n ≤ size s + 1 := by
  induction h with
  | done => exact Nat.le_add_left 1 _
  | again hs _ ih =>
    have hlt := hsize _ _ hs
    omega

end Halts

/-- The scans that a recovery takes: one for each token before the end and for each error, and one
for the end token. -/
def Recovery.turns (r : Recovery) : Nat :=
  (r.tokens.filter fun t => !t.isEof).length + r.errors.length + 1

theorem Recovery.turns_token {t : Token} (ht : t.isEof = false) (r : Recovery) :
    turns { r with tokens := t :: r.tokens } = r.turns + 1 := by
  simp only [turns, ht, List.filter_cons, Bool.not_false, if_true, List.length_cons]
  omega

theorem Recovery.turns_error (e : LexicalError) (r : Recovery) :
    turns { r with errors := e :: r.errors } = r.turns + 1 := by
  simp only [turns, List.length_cons]
  omega

namespace Lexer

def significantTurn (s : Step Unit) : Turn (Step Unit) (Step (Except LexicalError Token)) :=
  match s.lexer.next with
  | ⟨.error e, l', events⟩ => .done ⟨.error e, l', s.events ++ events⟩
  | ⟨.ok t, l', events⟩ =>
    if t.isHidden then .again ⟨(), l', s.events ++ events⟩
    else .done ⟨.ok t, l', s.events ++ events⟩

def collectTurn (hidden : Bool) (s : Step (List Token)) :
    Turn (Step (List Token)) (Step (Except LexicalError (List Token))) :=
  match s.lexer.next with
  | ⟨.error e, l', events⟩ => .done ⟨.error e, l', s.events ++ events⟩
  | ⟨.ok t, l', events⟩ =>
    let ts := s.result ++ if hidden || !t.isHidden then [t] else []
    if t.isEof then .done ⟨.ok ts, l', s.events ++ events⟩
    else .again ⟨ts, l', s.events ++ events⟩

def recoverTurn (s : Recovery × Lexer) : Turn (Recovery × Lexer) Recovery :=
  match s.2.next with
  | ⟨.ok t, l', _⟩ =>
    let r := { s.1 with tokens := s.1.tokens ++ [t] }
    if t.isEof then .done r else .again (r, l')
  | ⟨.error e, l', _⟩ =>
    let r := { s.1 with errors := s.1.errors ++ [e] }
    match l'.skip with
    | ⟨none, _, _⟩ => .done r
    | ⟨some _, l'', _⟩ => .again (r, l'')

variable {l : Lexer} {t : Token} {e : LexicalError}

theorem rest_of_next_ok (h : l.next.result = .ok t) (ht : t.isEof = false) :
    t.text ≠ [] ∧ l.rest = t.text ++ l.next.lexer.rest ∧
      l.next.lexer.position = l.position.advance t.text := by
  obtain ⟨_, _, hn⟩ | ⟨_, hn⟩ | ⟨x, hr, hx, _, hn⟩ := next_cases l <;> rw [hn] at h ⊢ <;> cases h
  · simp at ht
  · exact ⟨text_token_ne_nil hr hx, (List.take_append_drop x.length l.rest).symm, rfl⟩

theorem rest_of_next_error (h : l.next.result = .error e) :
    l.next.lexer = l ∧ ∃ c, l.skip.result = some c ∧ l.rest = c :: l.skip.lexer.rest ∧
      l.skip.lexer.position = l.position.next c := by
  obtain ⟨_, hf, hn⟩ | ⟨_, hn⟩ | ⟨x, _, _, _, hn⟩ := next_cases l <;> rw [hn] at h ⊢ <;> cases h
  obtain ⟨c, cs, hc⟩ := List.exists_cons_of_ne_nil (rest_ne_nil_of_error hf)
  refine ⟨rfl, c, ?_⟩
  simp [skip, hc]

theorem significantTurn_again (s s' : Step Unit) (h : significantTurn s = .again s') :
    s'.lexer.rest.length < s.lexer.rest.length := by
  unfold significantTurn at h
  split at h
  case h_1 => cases h
  case h_2 t l' events hn =>
    split at h
    case isTrue ht =>
      cases h
      exact length_rest_next hn (not_eof_of_hidden hn ht)
    case isFalse => cases h

theorem collectTurn_again {hidden : Bool} (s s' : Step (List Token))
    (h : collectTurn hidden s = .again s') : s'.lexer.rest.length < s.lexer.rest.length := by
  unfold collectTurn at h
  split at h
  case h_1 => cases h
  case h_2 t l' events hn =>
    cases ht : t.isEof <;> simp only [ht] at h <;> cases h
    exact length_rest_next hn ht

theorem recoverTurn_again (s s' : Recovery × Lexer) (h : recoverTurn s = .again s') :
    s'.2.rest.length < s.2.rest.length := by
  unfold recoverTurn at h
  split at h
  case h_1 t l' events hn =>
    split at h
    case isTrue => cases h
    case isFalse ht =>
      cases h
      exact length_rest_next hn (eq_false_of_ne_true ht)
  case h_2 e l' events hn =>
    split at h
    case h_1 => cases h
    case h_2 c l'' events' hs =>
      cases h
      exact length_rest_skip hn hs

/-- The search for a visible token scans once for each hidden token before it and once more. -/
theorem nextSignificant_halts (l : Lexer) (es : List Event) :
    Halts significantTurn ⟨(), l, es⟩ ((l.ahead.takeWhile Token.isHidden).length + 1)
      { l.nextSignificant with events := es ++ l.nextSignificant.events } := by
  -- later turns start with the events of earlier ones, so these stay general
  induction l using scan_induction generalizing es with
  | fail l fault hf _ =>
    rw [ahead_of_error hf, nextSignificant_of_error hf]
    exact .done (by simp [significantTurn, hf])
  | stop l hr =>
    rw [ahead_of_nil hr, nextSignificant_of_nil hr]
    exact .done (by simp [significantTurn, hr])
  | pass l x hr hx ih =>
    rw [ahead_of_ok hr hx, nextSignificant_of_ok hr hx]
    cases hh : (l.token x).isHidden with
    | true =>
      have h := ih (es ++ [.scanned (l.token x)])
      rw [List.takeWhile_cons_of_pos hh, if_pos rfl, List.length_cons]
      rw [List.append_assoc] at h
      exact .again (by simp [significantTurn, hr, hx, hh]) h
    | false =>
      rw [List.takeWhile_cons_of_neg (by simp [hh]), if_neg Bool.false_ne_true]
      exact .done (by simp [significantTurn, hr, hx, hh])

theorem collect_halts (hidden : Bool) (l : Lexer) (ts : List Token) (es : List Event) :
    Halts (collectTurn hidden) ⟨ts, l, es⟩ (l.ahead.length + 1)
      ⟨(l.collect hidden).result.map (ts ++ ·), (l.collect hidden).lexer,
        es ++ (l.collect hidden).events⟩ := by
  induction l using scan_induction generalizing ts es with
  | fail l fault hf _ =>
    rw [ahead_of_error hf, collect_of_error hidden hf]
    exact .done (by simp [collectTurn, hf, Except.map])
  | stop l hr =>
    rw [ahead_of_nil hr, collect_of_nil hidden hr]
    exact .done (by simp [collectTurn, hr, Except.map])
  | pass l x hr hx ih =>
    rw [ahead_of_ok hr hx, collect_of_ok hidden hr hx]
    have h := ih (ts ++ if hidden || !(l.token x).isHidden then [l.token x] else [])
      (es ++ [.scanned (l.token x)])
    -- the loop puts a token behind the list, the operation in front of what is still to come
    have hmap (r : Except LexicalError (List Token)) (us : List Token) :
        (r.map (us ++ ·)).map (ts ++ ·) = r.map ((ts ++ us) ++ ·) := by
      cases r <;> simp [Except.map]
    rw [List.append_assoc, ← hmap] at h
    exact .again (by simp [collectTurn, hr, hx]) h

theorem recover_halts (l : Lexer) (r : Recovery) :
    Halts recoverTurn (r, l) l.recover.turns
      ⟨r.tokens ++ l.recover.tokens, r.errors ++ l.recover.errors⟩ := by
  induction l using scan_induction generalizing r with
  | fail l fault hf ih =>
    obtain ⟨c, cs, hc⟩ := List.exists_cons_of_ne_nil (rest_ne_nil_of_error hf)
    have h := ih { r with errors := r.errors ++ [⟨fault, l.position⟩] }
    simp only [List.append_assoc, List.singleton_append] at h
    rw [recover_of_error hf, Recovery.turns_error]
    exact .again (by simp [recoverTurn, next_of_error hf, skip, hc]) h
  | stop l hr =>
    rw [recover_of_nil hr]
    exact .done (by simp [recoverTurn, hr])
  | pass l x hr hx ih =>
    have ht := isEof_token hr hx
    have h := ih { r with tokens := r.tokens ++ [l.token x] }
    simp only [List.append_assoc, List.singleton_append] at h
    rw [recover_of_ok hr hx, Recovery.turns_token ht]
    exact .again (by simp [recoverTurn, hr, hx]) h

theorem nextSignificant_halts_le (l : Lexer) :
    ∃ n ≤ l.rest.length + 1, Halts significantTurn ⟨(), l, []⟩ n l.nextSignificant := by
  have h := nextSignificant_halts l []
  have hle := h.le significantTurn_again
  exact ⟨_, hle, h⟩

theorem collect_halts_le (hidden : Bool) (l : Lexer) :
    ∃ n ≤ l.rest.length + 1, Halts (collectTurn hidden) ⟨[], l, []⟩ n (l.collect hidden) := by
  have h := collect_halts hidden l [] []
  have hmap (r : Except LexicalError (List Token)) : r.map ([] ++ ·) = r := by cases r <;> rfl
  rw [hmap] at h
  have hle := h.le collectTurn_again
  exact ⟨_, hle, h⟩

theorem turns_recover_le (l : Lexer) : l.recover.turns ≤ l.rest.length + 1 := by
  have hle := (recover_halts l ⟨[], []⟩).le recoverTurn_again
  exact hle

/-- The loops over a text come to their end, with the results that the operations have. From any
place a search or a list of tokens takes no more scans than there are characters left, and one. A
recovery takes exactly one for each token before the end, for each error and for the end token. A
token before the end takes its characters and a scan that fails none, and then there is one to give
up. -/
theorem loops_halt (l : Lexer) (text : List Char) :
    let r := (ofText {} text).recover
    let turns := (r.tokens.filter fun t => !t.isEof).length + r.errors.length + 1
    (∃ n ≤ l.rest.length + 1, Halts significantTurn ⟨(), l, []⟩ n l.nextSignificant) ∧
      (∃ n ≤ l.rest.length + 1,
        Halts (collectTurn l.config.emitHidden) ⟨[], l, []⟩ n l.tokenize) ∧
      (∃ n ≤ l.rest.length + 1, Halts (collectTurn true) ⟨[], l, []⟩ n l.tokenizeAll) ∧
      (∀ n r', Halts recoverTurn (⟨[], []⟩, ofText {} text) n r' ↔ n = turns ∧ r' = r) ∧
      turns ≤ text.length + 1 ∧
      (∀ t, l.next.result = .ok t → t.isEof = false → t.text ≠ [] ∧
        l.rest = t.text ++ l.next.lexer.rest ∧
          l.next.lexer.position = l.position.advance t.text) ∧
      ∀ e, l.next.result = .error e → l.next.lexer = l ∧ ∃ c, l.skip.result = some c ∧
        l.rest = c :: l.skip.lexer.rest ∧ l.skip.lexer.position = l.position.next c := by
  intro r turns
  have hr : Halts recoverTurn (⟨[], []⟩, ofText {} text) turns r :=
    recover_halts (ofText {} text) ⟨[], []⟩
  exact ⟨l.nextSignificant_halts_le, l.collect_halts_le l.config.emitHidden,
    l.collect_halts_le true, fun n r' => hr.iff, turns_recover_le (ofText {} text),
    fun t => rest_of_next_ok, fun e => rest_of_next_error⟩

end Lexer
end Cql
