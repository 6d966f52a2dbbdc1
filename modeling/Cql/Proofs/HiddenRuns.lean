import Cql.TokenStream
import Mathlib.Data.List.Chain
import Mathlib.Data.List.DropRight

/-!
The hidden tokens around the visible ones. What stands behind a visible token is what stands before
the next, so that visible tokens with the hidden ones before each are all the tokens of a stream.
-/
namespace Cql.TokenStream
variable {ts run : List Token} {s : TokenStream} {t : Token} {i j n : Nat}

/-- Hidden tokens in a row that end just before a place. -/
def HiddenTo (ts : List Token) (n : Nat) (run : List Token) : Prop :=
  run <:+ ts.take n ∧ ∀ t ∈ run, t.isHidden = true

def HiddenFrom (ts : List Token) (n : Nat) (run : List Token) : Prop :=
  run <+: ts.drop n ∧ ∀ t ∈ run, t.isHidden = true

def Longest (P : List Token → Prop) (run : List Token) : Prop :=
  P run ∧ ∀ run', P run' → run'.length ≤ run.length

/-- The tokens between two places, if both are places of the list and in this order. -/
def between? (ts : List Token) (start stop : Nat) : Option (List Token) :=
  if start ≤ stop ∧ stop ≤ ts.length then some ((ts.take stop).drop start) else none

def behindVisible (ts : List Token) : Nat :=
  ts.length - ts.reverse.findIdx fun t => !t.isHidden

def hiddenBefore? (s : TokenStream) (i : Nat) : Option (List Token) :=
  let stop := min i s.length
  (between? s.tokens 0 stop).bind fun front => between? s.tokens (behindVisible front) stop

/-- The hidden tokens after a place, cut out between two places. Counting goes no further than to
`top`. -/
def hiddenAfter? (top : Nat) (s : TokenStream) (i : Nat) : Option (List Token) :=
  let start := min (min (i + 1) top) s.length
  between? s.tokens start (visibleFrom s.tokens start)

def visibleBelow (ts : List Token) (n : Nat) : List Nat :=
  (List.range n).filter fun i => ts[i]?.any fun t => !t.isHidden

def visiblePlaces (ts : List Token) : List Nat := visibleBelow ts ts.length

/-- What a formatter writes that goes over some visible tokens: each with the hidden ones before
it. -/
def written (s : TokenStream) (places : List Nat) : List Token :=
  places.flatMap fun i => s.hiddenBefore i ++ (s.get? i).toList

/-- What it writes in the end: the hidden tokens after the last visible one, or all there are. -/
def trailing (s : TokenStream) : List Token :=
  match (visiblePlaces s.tokens).getLast? with
  | some i => s.hiddenAfter i
  | none => s.hiddenBefore s.length

theorem length_le_of_hidden (hp : run <+: ts) (hr : ∀ t ∈ run, t.isHidden = true) :
    run.length ≤ (ts.takeWhile Token.isHidden).length := by
  obtain ⟨after, rfl⟩ := hp
  rw [List.takeWhile_append_of_pos hr, List.length_append]
  exact Nat.le_add_right _ _

theorem longest_hiddenAfter (s : TokenStream) (i : Nat) :
    Longest (HiddenFrom s.tokens (i + 1)) (s.hiddenAfter i) := by
  constructor
  · exact ⟨List.takeWhile_prefix _, List.all_eq_true.1 List.all_takeWhile⟩
  · intro run' h
    exact length_le_of_hidden h.1 h.2

theorem hiddenBefore_eq (s : TokenStream) (i : Nat) :
    s.hiddenBefore i = (s.tokens.take i).rtakeWhile Token.isHidden := rfl

theorem longest_hiddenBefore (s : TokenStream) (i : Nat) :
    Longest (HiddenTo s.tokens i) (s.hiddenBefore i) := by
  constructor
  · exact ⟨List.rtakeWhile_suffix _ _, fun t ht => List.mem_rtakeWhile_imp ht⟩
  · intro run' h
    have hle := length_le_of_hidden (List.reverse_prefix.2 h.1)
      fun t ht => h.2 t (List.mem_reverse.1 ht)
    rw [List.length_reverse] at hle
    rwa [hiddenBefore, List.length_reverse]

theorem hiddenBefore_min (s : TokenStream) (i : Nat) :
    s.hiddenBefore (min i s.length) = s.hiddenBefore i := by
  rw [hiddenBefore, hiddenBefore, length, ← List.take_eq_take_min]

theorem between?_zero (hn : n ≤ ts.length) : between? ts 0 n = some (ts.take n) := by
  rw [between?, if_pos ⟨Nat.zero_le n, hn⟩, List.drop_zero]

theorem drop_behindVisible (ts : List Token) :
    ts.drop (behindVisible ts) = ts.rtakeWhile Token.isHidden := by
  rw [List.rtakeWhile, List.takeWhile_eq_take_findIdx_not, List.reverse_take, List.reverse_reverse,
    List.length_reverse, behindVisible]

theorem hiddenBefore?_eq (s : TokenStream) (i : Nat) :
    s.hiddenBefore? i = some (s.hiddenBefore i) := by
  have hn : min i s.length ≤ s.tokens.length := Nat.min_le_right _ _
  rw [← hiddenBefore_min, hiddenBefore?, between?_zero hn, Option.bind_some]
  generalize min i s.length = n at hn
  have hstart : behindVisible (s.tokens.take n) ≤ n := by
    rw [behindVisible, List.length_take]
    omega
  rw [between?, if_pos ⟨hstart, hn⟩, drop_behindVisible, hiddenBefore_eq]

theorem visibleFrom_le (hn : n ≤ ts.length) : visibleFrom ts n ≤ ts.length := by
  have h := (List.takeWhile_prefix (l := ts.drop n) Token.isHidden).length_le
  rw [List.length_drop] at h
  rw [visibleFrom]
  omega

theorem between?_visibleFrom (hn : n ≤ ts.length) :
    between? ts n (visibleFrom ts n) = some ((ts.drop n).takeWhile Token.isHidden) := by
  have h := List.prefix_iff_eq_take.1 (List.takeWhile_prefix (l := ts.drop n) Token.isHidden)
  rw [between?, if_pos ⟨Nat.le_add_right _ _, visibleFrom_le hn⟩, visibleFrom, List.drop_take,
    Nat.add_sub_cancel_left, ← h]

theorem drop_min (ts : List Token) (n : Nat) : ts.drop (min n ts.length) = ts.drop n := by
  by_cases hn : n ≤ ts.length
  · rw [Nat.min_eq_left hn]
  · rw [Nat.min_eq_right (by omega), List.drop_length, List.drop_eq_nil_of_le (by omega)]

theorem hiddenAfter?_eq {top : Nat} (htop : s.length ≤ top) (i : Nat) :
    s.hiddenAfter? top i = some (s.hiddenAfter i) := by
  have hstart : min (min (i + 1) top) s.length = min (i + 1) s.tokens.length := by
    rw [length] at htop ⊢
    omega
  rw [hiddenAfter?, hstart, between?_visibleFrom (Nat.min_le_right _ _), drop_min, hiddenAfter]

/-- What holds at the start and is handed on over hidden and over visible tokens holds at every
place. -/
theorem place_induction {motive : Nat → Prop} (ts : List Token) (start : motive 0)
    (hidden : ∀ n t, ts[n]? = some t → t.isHidden = true → motive n → motive (n + 1))
    (visible : ∀ n t, ts[n]? = some t → t.isHidden = false → motive n → motive (n + 1)) :
    ∀ n ≤ ts.length, motive n := by
  intro n hn
  induction n with
  | zero => exact start
  | succ n ih =>
    have ht : ts[n]? = some ts[n] := List.getElem?_eq_getElem hn
    have hm : motive n := ih (Nat.le_of_succ_le hn)
    cases hh : ts[n].isHidden with
    | true => exact hidden n ts[n] ht hh hm
    | false => exact visible n ts[n] ht hh hm

theorem hiddenBefore_succ (ht : s.tokens[n]? = some t) :
    s.hiddenBefore (n + 1) = if t.isHidden then s.hiddenBefore n ++ [t] else [] := by
  rw [hiddenBefore_eq, List.take_add_one, ht, Option.toList_some, List.rtakeWhile_concat]
  rfl

theorem visibleBelow_succ (ht : ts[n]? = some t) :
    visibleBelow ts (n + 1) = visibleBelow ts n ++ if t.isHidden then [] else [n] := by
  rw [visibleBelow, List.range_succ, List.filter_append, ← visibleBelow]
  cases hh : t.isHidden <;> simp [ht, hh]

theorem drop_getLast (s : TokenStream) : ∀ n ≤ s.tokens.length,
    ∀ i ∈ (visibleBelow s.tokens n).getLast?,
      s.tokens.drop (i + 1) = s.hiddenBefore n ++ s.tokens.drop n := by
  apply place_induction
  case start =>
    intro i hi
    cases hi
  case hidden =>
    intro n t ht hh ih i hi
    rw [visibleBelow_succ ht, if_pos hh, List.append_nil] at hi
    rw [hiddenBefore_succ ht, if_pos hh, List.append_assoc, ih i hi,
      List.drop_eq_getElem?_toList_append, ht, Option.toList_some]
  case visible =>
    intro n t ht hh ih i hi
    rw [visibleBelow_succ ht, hh, if_neg Bool.false_ne_true, List.getLast?_concat] at hi
    obtain rfl := Option.some.inj hi
    rw [hiddenBefore_succ ht, hh, if_neg Bool.false_ne_true, List.nil_append]

theorem written_append (s : TokenStream) : ∀ n ≤ s.tokens.length,
    s.written (visibleBelow s.tokens n) ++ s.hiddenBefore n = s.tokens.take n := by
  apply place_induction
  case start => rfl
  case hidden =>
    intro n t ht hh ih
    rw [visibleBelow_succ ht, if_pos hh, List.append_nil, hiddenBefore_succ ht, if_pos hh,
      ← List.append_assoc, ih, List.take_add_one, ht, Option.toList_some]
  case visible =>
    intro n t ht hh ih
    rw [visibleBelow_succ ht, hiddenBefore_succ ht, hh, if_neg Bool.false_ne_true,
      if_neg Bool.false_ne_true, List.append_nil, written, List.flatMap_append, ← written,
      List.flatMap_singleton, get?, ht, ← List.append_assoc, ih, List.take_add_one, ht]

theorem hiddenAfter_getLast (hn : n ≤ s.tokens.length)
    (hend : ∀ t ∈ s.tokens[n]?, t.isHidden = false)
    (hi : i ∈ (visibleBelow s.tokens n).getLast?) : s.hiddenAfter i = s.hiddenBefore n := by
  have hhidden : ∀ t ∈ s.hiddenBefore n, t.isHidden = true := (longest_hiddenBefore s n).1.2
  have hnil : (s.tokens.drop n).takeWhile Token.isHidden = [] := by
    rw [← List.head?_eq_none_iff, List.head?_takeWhile, List.head?_drop]
    cases ht : s.tokens[n]? with
    | none => rfl
    | some t => simp [hend t ht]
  rw [hiddenAfter, drop_getLast s n hn i hi, List.takeWhile_append_of_pos hhidden, hnil,
    List.append_nil]

/-- Visible tokens that are neighbours have the hidden ones between them in common. -/
theorem isChain_visibleBelow (s : TokenStream) : ∀ n ≤ s.tokens.length,
    (visibleBelow s.tokens n).IsChain fun i j => s.hiddenAfter i = s.hiddenBefore j := by
  apply place_induction
  case start => exact .nil
  case hidden =>
    intro n t ht hh ih
    rwa [visibleBelow_succ ht, if_pos hh, List.append_nil]
  case visible =>
    intro n t ht hh ih
    have hend : ∀ u ∈ s.tokens[n]?, u.isHidden = false := by
      intro u hu
      rw [ht] at hu
      obtain rfl := Option.some.inj hu
      exact hh
    rw [visibleBelow_succ ht, hh, if_neg Bool.false_ne_true]
    refine ih.append (.singleton n) fun i hi j hj => ?_
    obtain rfl := Option.some.inj hj
    exact hiddenAfter_getLast (List.getElem?_eq_some_iff.1 ht).1.le hend hi

theorem mem_visiblePlaces : i ∈ visiblePlaces ts ↔ ∃ t ∈ ts[i]?, t.isHidden = false := by
  rw [visiblePlaces, visibleBelow, List.mem_filter, List.mem_range]
  constructor
  · intro h
    obtain ⟨hi, hv⟩ := h
    rw [List.getElem?_eq_getElem hi] at hv ⊢
    exact ⟨ts[i], rfl, by simpa using hv⟩
  · intro h
    obtain ⟨t, ht, hv⟩ := h
    refine ⟨(List.getElem?_eq_some_iff.1 ht).1, ?_⟩
    rw [Option.mem_def.1 ht, Option.any_some, hv]
    rfl

theorem trailing_eq (s : TokenStream) : s.trailing = s.hiddenBefore s.length := by
  unfold trailing
  split
  case h_1 i hi =>
    have hend : s.tokens[s.length]? = none := List.getElem?_eq_none (Nat.le_refl _)
    exact hiddenAfter_getLast (Nat.le_refl _) (fun t ht => by cases hend ▸ ht) hi
  case h_2 => rfl

/-- The hidden tokens found before a place and those found after it are as many in a row as there
are, counting places never leaves the list, and from one visible token to the next they are the
same. Visible tokens with the hidden ones before each, and in the end those after the last, are all
the tokens of a stream, none twice. -/
theorem hidden_runs_partition (s : TokenStream) :
    let ts := s.tokens
    let places := visiblePlaces ts
    (∀ i, Longest (HiddenTo ts (min i ts.length)) (s.hiddenBefore i)) ∧
      (∀ i, Longest (HiddenFrom ts (min (i + 1) ts.length)) (s.hiddenAfter i)) ∧
      (∀ top, ts.length ≤ top → ∀ i, s.hiddenBefore? i = some (s.hiddenBefore i) ∧
        s.hiddenAfter? top i = some (s.hiddenAfter i)) ∧
      places.Pairwise (· < ·) ∧ (∀ i, i ∈ places ↔ ∃ t ∈ ts[i]?, t.isHidden = false) ∧
      (∀ j (h : j + 1 < places.length), s.hiddenAfter places[j] = s.hiddenBefore places[j + 1]) ∧
      s.written places ++ s.trailing = ts := by
  intro ts places
  refine ⟨fun i => ?_, fun i => ?_,
    fun top htop i => ⟨s.hiddenBefore?_eq i, hiddenAfter?_eq htop i⟩,
    List.pairwise_lt_range.filter _, fun i => mem_visiblePlaces, ?_, ?_⟩
  · rw [← hiddenBefore_min]
    exact s.longest_hiddenBefore (min i ts.length)
  · have h := s.longest_hiddenAfter i
    unfold HiddenFrom at h ⊢
    rwa [drop_min]
  · exact List.isChain_iff_getElem.1 (isChain_visibleBelow s ts.length (Nat.le_refl _))
  · have h := s.written_append ts.length (Nat.le_refl _)
    rw [List.take_length] at h
    rw [trailing_eq]
    exact h

/-- A comment, a word, two blanks, a word and a blank: hidden tokens at both ends and between, and
places at the end of all numbers. -/
theorem hidden_runs_partition_commented :
    let t (kind : TokenKind) (text : List Char) : Token := .of kind text .start 0
    let a := t .lineComment ['#', '\n']
    let b := t .objectName ['a']
    let c := t .space [' ']
    let d := t .blockComment ['/', '*']
    let s := ofTokens [a, b, c, d, b, c]
    let top := UInt64.size - 1
    s.tokens.length ≤ top ∧ visiblePlaces s.tokens = [1, 4] ∧
      s.hiddenAfter? top top = some [] ∧ s.hiddenBefore? top = some [c] ∧
      s.hiddenAfter 1 = [c, d] ∧ s.hiddenAfter 1 = s.hiddenBefore 4 := by
  intro t a b c d s top
  have htop : s.tokens.length ≤ top := by decide
  obtain ⟨-, -, hcut, -, -, hmeet, -⟩ := hidden_runs_partition s
  obtain ⟨hbefore, hafter⟩ := hcut top htop top
  exact ⟨htop, rfl, hafter, hbefore, rfl, hmeet 0 (by decide)⟩

end Cql.TokenStream
