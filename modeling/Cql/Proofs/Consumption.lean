import Cql.TokenStream

/-!
A stream of tokens is consumed one visible token after another, up to the first end token, and there
it stays.
-/
namespace Cql.TokenStream
variable {tokens ts : List Token} {s : TokenStream} {t : Token}

def unread (s : TokenStream) : List Token := (s.tokens.drop s.cursor).filter fun t => !t.isHidden

/-- The cursor has gone over hidden tokens, as far as it could. -/
def Settled (s : TokenStream) : Prop := ∃ i, s.cursor = visibleFrom s.tokens i

def consumed : Nat → TokenStream → List (Option Token)
  | 0, _ => []
  | n + 1, s => s.consume.1 :: consumed n s.consume.2

theorem drop_visibleFrom (tokens : List Token) (i : Nat) :
    tokens.drop (visibleFrom tokens i) = (tokens.drop i).dropWhile Token.isHidden := by
  rw [visibleFrom, ← List.drop_drop]
  generalize tokens.drop i = ts
  calc ts.drop (ts.takeWhile Token.isHidden).length
      = (ts.takeWhile Token.isHidden ++ ts.dropWhile Token.isHidden).drop
          (ts.takeWhile Token.isHidden).length := by rw [List.takeWhile_append_dropWhile]
    _ = ts.dropWhile Token.isHidden := List.drop_left

theorem filter_dropWhile_hidden (ts : List Token) :
    (ts.dropWhile Token.isHidden).filter (fun t => !t.isHidden) =
      ts.filter fun t => !t.isHidden := by
  induction ts with
  | nil => rfl
  | cons t ts ih => by_cases ht : t.isHidden = true <;> simp [ht, ih]

theorem head_dropWhile_hidden (h : tokens.dropWhile Token.isHidden = t :: ts) :
    t.isHidden = false := by
  have ht := List.head?_dropWhile_not Token.isHidden tokens
  rw [h] at ht
  exact ht

theorem settled_ofTokens (tokens : List Token) : (ofTokens tokens).Settled := ⟨0, rfl⟩

theorem unread_ofTokens (tokens : List Token) : (ofTokens tokens).unread =
    (ofTokens tokens).significant := by
  rw [unread, significant]
  change ((tokens.drop (visibleFrom tokens 0)).filter _) = tokens.filter _
  rw [drop_visibleFrom, filter_dropWhile_hidden, List.drop_zero]

theorem Settled.drop_cursor (hs : s.Settled) (hu : s.unread = t :: ts) :
    ∃ after, s.tokens.drop s.cursor = t :: after ∧ after.filter (fun t => !t.isHidden) = ts := by
  obtain ⟨i, hi⟩ := hs
  unfold unread at hu
  cases hd : s.tokens.drop s.cursor with
  | nil =>
    rw [hd] at hu
    cases hu
  | cons u after =>
    have hh : u.isHidden = false := by
      rw [hi, drop_visibleFrom] at hd
      exact head_dropWhile_hidden hd
    rw [hd, List.filter_cons_of_pos (by simp [hh])] at hu
    cases hu
    exact ⟨after, rfl, rfl⟩

theorem get?_cursor {after : List Token} (h : s.tokens.drop s.cursor = t :: after) :
    s.get? s.cursor = some t := by
  rw [get?, ← List.head?_drop, h]
  rfl

theorem Settled.consume_eof (hs : s.Settled) (hu : s.unread = t :: ts) (ht : t.isEof = true) :
    s.consume = (some t, s) := by
  obtain ⟨after, hd, -⟩ := hs.drop_cursor hu
  simp [consume, get?_cursor hd, ht]

theorem Settled.consume_token (hs : s.Settled) (hu : s.unread = t :: ts) (ht : t.isEof = false) :
    s.consume.1 = some t ∧ s.consume.2.Settled ∧ s.consume.2.unread = ts := by
  obtain ⟨after, hd, rfl⟩ := hs.drop_cursor hu
  have hc : s.consume =
      (some t, { s with cursor := visibleFrom s.tokens (s.cursor + 1) }) := by
    simp [consume, get?_cursor hd, ht]
  rw [hc]
  refine ⟨rfl, ⟨s.cursor + 1, rfl⟩, ?_⟩
  rw [unread, drop_visibleFrom, filter_dropWhile_hidden, ← List.drop_drop, hd]
  rfl

end Cql.TokenStream
