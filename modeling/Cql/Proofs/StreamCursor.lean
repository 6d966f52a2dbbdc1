import Cql.Proofs.Consumption
import Cql.TokenStream.Session

/-!
The cursor of a stream against the list of its visible tokens. Consuming moves it on by one, up to
the first end token, and looking ahead counts from where it stands.
-/
namespace Cql.TokenStream
variable {ts : List Token} {s : TokenStream} {n : Nat}

/-- The place of the first end token, or the end of the list. -/
def stop (ts : List Token) : Nat := ts.findIdx Token.isEof

/-- So many of the visible tokens are consumed, or as many as can be. -/
def Reaches (s : TokenStream) (ts : List Token) (n : Nat) : Prop :=
  s.Settled ∧ s.unread = ts.drop (min n (stop ts))

def consumeReplies (s : TokenStream) (calls : List Call) : List Reply :=
  ((calls.zip (s.run calls)).filter (·.1 = .consume)).map fun x => x.2.1

theorem stop_append {us : List Token} {t : Token} (hus : ∀ u ∈ us, u.isEof = false)
    (ht : t.isEof = true) : stop (us ++ t :: ts) = us.length := by
  induction us with
  | nil =>
    rw [stop, List.nil_append, List.findIdx_cons, ht]
    rfl
  | cons u us ih =>
    obtain ⟨hu, hus⟩ := List.forall_mem_cons.1 hus
    rw [stop, List.cons_append, List.findIdx_cons, hu]
    exact congrArg (· + 1) (ih hus)

theorem reaches_ofTokens (tokens : List Token) :
    (ofTokens tokens).Reaches (ofTokens tokens).significant 0 := by
  refine ⟨settled_ofTokens tokens, ?_⟩
  rw [Nat.zero_min, List.drop_zero, unread_ofTokens]

theorem Settled.consume_nil (hs : s.Settled) (hu : s.unread = []) : s.consume = (none, s) := by
  obtain ⟨i, hi⟩ := hs
  have hd : s.tokens.drop s.cursor = [] := by
    cases hd : s.tokens.drop s.cursor with
    | nil => rfl
    | cons t after =>
      have hv := hd
      rw [hi, drop_visibleFrom] at hv
      rw [unread, hd, List.filter_cons_of_pos (by simp [head_dropWhile_hidden hv])] at hu
      cases hu
  have hg : s.get? s.cursor = none := by
    rw [get?, ← List.head?_drop, hd]
    rfl
  rw [consume, hg]

theorem Settled.consume_cases (hs : s.Settled) :
    s.consume.1 = s.unread.head? ∧ s.consume.2.Settled ∧ s.consume.2.unread =
      if s.unread.head?.any Token.isEof then s.unread else s.unread.tail := by
  cases hu : s.unread with
  | nil =>
    rw [hs.consume_nil hu]
    exact ⟨rfl, hs, hu⟩
  | cons t us =>
    cases ht : t.isEof with
    | true =>
      rw [hs.consume_eof hu ht]
      exact ⟨rfl, hs, by simp [hu, ht]⟩
    | false =>
      obtain ⟨hc, hs', hu'⟩ := hs.consume_token hu ht
      exact ⟨hc, hs', by simp [hu', ht]⟩

theorem drop_stop_succ (ts : List Token) (n : Nat) :
    ts.drop (min (n + 1) (stop ts)) =
      if (ts.drop (min n (stop ts))).head?.any Token.isEof then ts.drop (min n (stop ts))
      else (ts.drop (min n (stop ts))).tail := by
  rw [List.head?_drop]
  by_cases hn : n < stop ts
  · have hl : n < ts.length := Nat.lt_of_lt_of_le hn List.findIdx_le_length
    have he : ts[n].isEof = false := List.not_of_lt_findIdx hn
    rw [Nat.min_eq_left hn, Nat.min_eq_left (Nat.le_of_lt hn), List.getElem?_eq_getElem hl,
      Option.any_some, he, if_neg Bool.false_ne_true, List.tail_drop]
  · -- nothing leads on from the end token, nor from the end of the list
    have hn := Nat.le_of_not_lt hn
    rw [Nat.min_eq_right hn, Nat.min_eq_right (Nat.le_succ_of_le hn)]
    by_cases hl : stop ts < ts.length
    · have he : ts[stop ts].isEof = true := List.findIdx_getElem
      rw [List.getElem?_eq_getElem hl, Option.any_some, he, if_pos rfl]
    · have hl := Nat.le_of_not_lt hl
      rw [List.drop_eq_nil_of_le hl, List.getElem?_eq_none hl]
      rfl

namespace Reaches

theorem consume (h : s.Reaches ts n) :
    s.consume.1 = ts[min n (stop ts)]? ∧ s.consume.2.Reaches ts (n + 1) := by
  obtain ⟨hs, hu⟩ := h
  obtain ⟨hc, hs', hu'⟩ := hs.consume_cases
  rw [hu, List.head?_drop] at hc
  refine ⟨hc, hs', ?_⟩
  rw [hu', hu, drop_stop_succ]

theorem lookahead_succ (h : s.Reaches ts n) (k : Nat) :
    s.lookahead (k + 1) = ts[min n (stop ts) + k]? := by
  rw [← List.getElem?_drop, ← h.2]
  rfl

theorem lookahead_one (h : s.Reaches ts n) : s.lookahead 1 = s.consume.1 := by
  rw [h.lookahead_succ 0, h.consume.1, Nat.add_zero]

theorem perform (h : s.Reaches ts n) (call : Call) :
    (s.perform call).2.Reaches ts (n + if call = .consume then 1 else 0) := by
  cases call with
  | consume => exact h.consume.2
  | _ => exact h

theorem after (h : s.Reaches ts n) (calls : List Call) :
    (s.after calls).Reaches ts (n + calls.count .consume) := by
  induction calls generalizing s n with
  | nil => exact h
  | cons call calls ih =>
    have hc := ih (h.perform call)
    simp only [List.count_cons, beq_iff_eq, Nat.add_comm (calls.count _), ← Nat.add_assoc]
    exact hc

theorem consumeReplies_eq (h : s.Reaches ts n) (calls : List Call) : s.consumeReplies calls =
    (List.range' n (calls.count .consume)).map fun i => .token ts[min i (stop ts)]? := by
  induction calls generalizing s n with
  | nil => rfl
  | cons call calls ih =>
    have hc := ih (h.perform call)
    by_cases he : call = .consume
    · subst he
      have hr : s.consumeReplies (.consume :: calls) =
          .token s.consume.1 :: s.consume.2.consumeReplies calls := rfl
      rw [hr, h.consume.1, List.count_cons_self, List.range'_succ, List.map_cons]
      exact congrArg _ hc
    · have hr : s.consumeReplies (call :: calls) = (s.perform call).2.consumeReplies calls := by
        simp [consumeReplies, run, he]
      rw [hr, hc, List.count_cons_of_ne he, if_neg he, Nat.add_zero]

theorem consumed_eq (h : s.Reaches ts n) (m : Nat) :
    s.consumed m = (List.range' n m).map fun i => ts[min i (stop ts)]? := by
  induction m generalizing s n with
  | zero => rfl
  | succ m ih => rw [consumed, h.consume.1, ih h.consume.2, List.range'_succ, List.map_cons]

end Reaches

theorem map_range_stop (ts : List Token) (m : Nat) :
    (List.range (stop ts + m)).map (fun i => ts[min i (stop ts)]?) =
      (ts.take (stop ts)).map some ++ List.replicate m ts[stop ts]? := by
  refine List.ext_getElem? fun i => ?_
  have hl : stop ts ≤ ts.length := List.findIdx_le_length
  by_cases hi : i < stop ts
  · have hlen : i < ((ts.take (stop ts)).map some).length := by
      rw [List.length_map, List.length_take]
      omega
    rw [List.getElem?_append_left hlen, List.getElem?_map, List.getElem?_map,
      List.getElem?_range (by omega), List.getElem?_take_of_lt hi, Option.map_some,
      Nat.min_eq_left (Nat.le_of_lt hi), List.getElem?_eq_getElem (Nat.lt_of_lt_of_le hi hl)]
    rfl
  · have hlen : ((ts.take (stop ts)).map some).length = stop ts := by
      rw [List.length_map, List.length_take, Nat.min_eq_left hl]
    rw [List.getElem?_append_right (by omega), hlen, List.getElem?_map, List.getElem?_replicate]
    by_cases hm : i < stop ts + m
    · rw [List.getElem?_range hm, if_pos (by omega), Option.map_some,
        Nat.min_eq_right (Nat.le_of_not_lt hi)]
    · rw [List.getElem?_eq_none (by rw [List.length_range]; omega), if_neg (by omega)]
      rfl

theorem consumed_ofTokens {tokens : List Token} (hv : (ofTokens tokens).significant = ts)
    (m : Nat) : (ofTokens tokens).consumed (stop ts + m) =
      (ts.take (stop ts)).map some ++ List.replicate m ts[stop ts]? := by
  rw [← map_range_stop, List.range_eq_range', ← hv]
  exact (reaches_ofTokens tokens).consumed_eq _

/-- Behind any calls, looking ahead counts the visible tokens from as many as were consumed, but not
from beyond the first end token. So `consume` gives them one after another up to that, and then the
end token for ever, or nothing if there is none. -/
theorem run_cursor (tokens : List Token) (calls : List Call) :
    let visible := tokens.filter fun t => !t.isHidden
    let stop := visible.findIdx Token.isEof
    let n := calls.count .consume
    let s := (ofTokens tokens).after calls
    s.lookahead 0 = none ∧
      (∀ k, s.lookahead (k + 1) = visible[min n stop + k]?) ∧
      s.consume.1 = s.lookahead 1 ∧
      (ofTokens tokens).consumeReplies calls =
        (List.range n).map (fun i => .token visible[min i stop]?) ∧
      ∀ m, (ofTokens tokens).consumed (stop + m) =
        (visible.take stop).map some ++ List.replicate m visible[stop]? := by
  intro visible stop n s
  have h0 : (ofTokens tokens).Reaches visible 0 := reaches_ofTokens tokens
  have hs : s.Reaches visible n := by
    have h := h0.after calls
    rwa [Nat.zero_add] at h
  refine ⟨rfl, hs.lookahead_succ, hs.lookahead_one.symm, ?_, consumed_ofTokens rfl⟩
  rw [h0.consumeReplies_eq, List.range_eq_range']
  rfl

end Cql.TokenStream
