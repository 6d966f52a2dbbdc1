import Mathlib.Data.List.TakeWhile
import Cql.Proofs.LetterCase
import Cql.Proofs.Passes

/-!
The search for a keyword by a table of capital letters. It finds what going through all keywords
would find, and words on their own are looked up as a whole.
-/
namespace Cql
open Scan

namespace Keyword
variable {k k' : Keyword} {w : List Char} {s : String}

def pairs : List (String × Keyword) := all.map fun k => (k.word, k)

/-- The keywords by their words. Of two with one word this would be the later one. -/
def table : Std.HashMap String Keyword := .ofList pairs

/-- The search by the table. What takes more bytes than any keyword or is not of ASCII is not
searched for. -/
def lookup? (w : List Char) : Option Keyword :=
  if utf8Size w ≤ maxLength ∧ w.all fun c => c.toNat < 128 then
    table[String.ofList (w.map Char.toUpper)]?
  else none

/-- The same characters one by one, but that a letter of ASCII may be small or capital. -/
def SameLetters (u v : List Char) : Prop := u.map Char.toUpper = v.map Char.toUpper

def isIdentifier : List Char → Bool
  | [] => false
  | c :: cs => c.isAlpha && cs.all isWordChar

theorem mem_pairs : (s, k) ∈ pairs ↔ k ∈ all ∧ k.word = s := by
  rw [pairs, List.mem_map]
  constructor
  · intro h
    obtain ⟨_, hk, he⟩ := h
    cases he
    exact ⟨hk, rfl⟩
  · intro h
    obtain ⟨hk, rfl⟩ := h
    exact ⟨k, hk, rfl⟩

theorem words_nodup : (all.map word).Nodup := by decide +kernel

theorem form_word : ∀ k ∈ all, isIdentifier k.word.toList = true ∧
    k.word.toList.map Char.toUpper = k.word.toList := by
  decide +kernel

theorem word_inj (hk : k ∈ all) (hk' : k' ∈ all) (h : k.word = k'.word) : k = k' :=
  List.inj_on_of_nodup_map words_nodup hk hk' h

theorem getElem?_table : table[s]? = some k ↔ (s, k) ∈ pairs := by
  have hdistinct : pairs.Pairwise fun x y => (x.1 == y.1) = false := by
    rw [pairs, List.pairwise_map]
    exact (List.pairwise_map.1 words_nodup).imp fun h => beq_eq_false_iff_ne.2 h
  have hfound {k : Keyword} (h : (s, k) ∈ pairs) : table[s]? = some k :=
    Std.HashMap.getElem?_ofList_of_mem (beq_self_eq_true s) hdistinct h
  refine ⟨fun h => ?_, hfound⟩
  cases hs : (pairs.map Prod.fst).contains s with
  | true =>
    obtain ⟨⟨_, k'⟩, hp, rfl⟩ := List.mem_map.1 (List.contains_iff_mem.1 hs)
    rw [hfound hp] at h
    cases h
    exact hp
  | false =>
    rw [table, Std.HashMap.getElem?_ofList_of_contains_eq_false hs] at h
    cases h

theorem isWordChar_of_isIdentifier (h : isIdentifier w = true) : ∀ c ∈ w, isWordChar c = true := by
  cases w with
  | nil => cases h
  | cons c cs =>
    obtain ⟨hc, hcs⟩ := Bool.and_eq_true_iff.1 h
    exact List.forall_mem_cons.2 ⟨isWordChar_of_isAlpha hc, List.all_eq_true.1 hcs⟩

theorem sameLetters_word (hk : k ∈ all) :
    SameLetters w k.word.toList ↔ k.word = String.ofList (w.map Char.toUpper) := by
  rw [SameLetters, (form_word k hk).2]
  constructor
  · intro h
    rw [h, String.ofList_toList]
  · intro h
    rw [h, String.toList_ofList]

theorem short_of_sameLetters (hk : k ∈ all) (h : SameLetters w k.word.toList) :
    w.length ≤ maxLength ∧ utf8Size w ≤ maxLength ∧ (w.all fun c => c.toNat < 128) = true := by
  have hascii : ∀ c ∈ w, c.toNat < 128 := by
    intro c hc
    rw [← ascii_toUpper]
    have hu : c.toUpper ∈ w.map Char.toUpper := List.mem_map_of_mem hc
    rw [h, (form_word k hk).2] at hu
    exact toNat_of_isWordChar (isWordChar_of_isIdentifier (form_word k hk).1 _ hu)
  have hlen : w.length ≤ maxLength := by
    have he := congrArg List.length h
    rw [List.length_map, List.length_map] at he
    rw [he]
    exact keyword_length k hk
  refine ⟨hlen, ?_, List.all_eq_true.2 fun c hc => decide_eq_true (hascii c hc)⟩
  rwa [utf8Size_of_ascii hascii]

theorem lookup?_eq_some :
    lookup? w = some k ↔ (k.word, k) ∈ pairs ∧ SameLetters w k.word.toList := by
  unfold lookup?
  constructor
  · intro h
    split at h
    · obtain ⟨hk, hw⟩ := mem_pairs.1 (getElem?_table.1 h)
      exact ⟨mem_pairs.2 ⟨hk, rfl⟩, (sameLetters_word hk).2 hw⟩
    · cases h
  · intro h
    obtain ⟨hp, hw⟩ := h
    have hk := (mem_pairs.1 hp).1
    rw [if_pos (short_of_sameLetters hk hw).2, getElem?_table, ← (sameLetters_word hk).1 hw]
    exact hp

theorem find?_eq_some :
    (all.find? fun k => k.word.toList = w.map Char.toUpper) = some k ↔
      k ∈ all ∧ SameLetters w k.word.toList := by
  constructor
  · intro h
    have hk := List.mem_of_find?_eq_some h
    have hw : k.word.toList = w.map Char.toUpper := by simpa using List.find?_some h
    refine ⟨hk, ?_⟩
    rw [SameLetters, (form_word k hk).2, hw]
  · intro h
    obtain ⟨hk, hw⟩ := h
    rw [SameLetters, (form_word k hk).2] at hw
    cases hf : all.find? fun k => k.word.toList = w.map Char.toUpper with
    | none => exact absurd (decide_eq_true hw.symm) (List.find?_eq_none.1 hf k hk)
    | some k' =>
      have hw' : k'.word.toList = w.map Char.toUpper := by simpa using List.find?_some hf
      rw [hw, String.toList_inj] at hw'
      rw [word_inj (List.mem_of_find?_eq_some hf) hk hw']

theorem ofWord?_eq_some :
    ofWord? w = some k ↔ (k.word, k) ∈ pairs ∧ SameLetters w k.word.toList := by
  rw [mem_pairs, and_iff_left rfl, ← find?_eq_some]
  unfold ofWord?
  constructor
  · intro h
    split at h
    · exact h
    · cases h
  · intro h
    obtain ⟨hk, hw⟩ := find?_eq_some.1 h
    obtain ⟨hlen, -, hascii⟩ := short_of_sameLetters hk hw
    rwa [if_pos ⟨hlen, hascii⟩]

theorem lookup?_eq (w : List Char) : lookup? w = ofWord? w := by
  ext k
  exact lookup?_eq_some.trans ofWord?_eq_some.symm

theorem eq_of_sameLetters {p q : String × Keyword} (hp : p ∈ pairs) (hq : q ∈ pairs)
    (h : SameLetters w p.1.toList) (h' : SameLetters w q.1.toList) : p = q := by
  obtain ⟨s, k⟩ := p
  obtain ⟨s', k'⟩ := q
  obtain ⟨hk, rfl⟩ := mem_pairs.1 hp
  obtain ⟨hk', rfl⟩ := mem_pairs.1 hq
  rw [sameLetters_word hk] at h
  rw [sameLetters_word hk', ← h] at h'
  rw [word_inj hk hk' h'.symm]

theorem isIdentifier_of_mem_pairs {p : String × Keyword} (hp : p ∈ pairs) :
    isIdentifier p.1.toList = true := by
  obtain ⟨hk, hw⟩ := mem_pairs.1 hp
  rw [← hw]
  exact (form_word p.2 hk).1

theorem lookup?_eq_none (h : ∃ c ∈ w, 128 ≤ c.toNat) : lookup? w = none := by
  obtain ⟨c, hc, hlarge⟩ := h
  refine if_neg fun h => ?_
  have hsmall := of_decide_eq_true (List.all_eq_true.1 h.2 c hc)
  omega

theorem wordKind_eq_lookup? (w : List Char) :
    wordKind w = (lookup? w).elim .objectName .keyword := by
  rw [wordKind, lookup?_eq]
  cases ofWord? w <;> rfl

end Keyword

namespace Scan
open Keyword Rule
variable {w : List Char}

theorem startsUuid_identifier (h : isIdentifier w = true) : startsUuid w = false := by
  refine eq_false_of_ne_true fun hu => ?_
  obtain ⟨u, hf⟩ := startsUuid_iff.1 hu
  obtain ⟨hp, hu⟩ := (fits_iff rfl fun _ => rfl).1 hf
  have hdash : '-' ∈ u := List.count_pos_iff.1 (by rw [count_uuid hu]; decide)
  have hword := isWordChar_of_isIdentifier h '-' (hp.subset hdash)
  cases hword

theorem quotedHex?_identifier (h : isIdentifier w = true) : quotedHex? w = none := by
  have hw := isWordChar_of_isIdentifier h
  refine Option.eq_none_iff_forall_ne_some.2 fun n hn => ?_
  obtain ⟨x, rest, rfl, -⟩ := quotedHex?_eq_some.1 hn
  have hquote := hw '\'' (by simp)
  cases hquote

theorem scan_identifier (h : isIdentifier w = true) : scan w = .ok ⟨wordKind w, w.length⟩ := by
  have hrun : w.takeWhile isWordChar = w :=
    List.takeWhile_eq_self_iff.2 (isWordChar_of_isIdentifier h)
  have hword : word w = ⟨wordKind w, w.length⟩ := by
    rw [word, startsUuid_identifier h, if_neg Bool.false_ne_true, quotedHex?_identifier h,
      runLength, hrun]
  cases w with
  | nil => cases h
  | cons c cs =>
    have hc := (Bool.and_eq_true_iff.1 h).1
    rw [scan, Lead.of_letter hc, hword]

end Scan

namespace Lexer
variable {w : List Char}

theorem tokenizeAll_identifier (config : Config) (h : Keyword.isIdentifier w = true) :
    (ofText config w).tokenizeAll.result =
      .ok [.of ((Keyword.lookup? w).elim .objectName .keyword) w .start 0,
        .of .eof [] (.after w) 1] := by
  have hne : w ≠ [] := by
    intro he
    rw [he] at h
    cases h
  have hrest : ((ofText config w).pass ⟨wordKind w, w.length⟩).rest = [] := List.drop_length
  have hpass : Passes (ofText config w) _ _ := .cons hne (scan_identifier h) (.refl _)
  rw [hpass.tokenizeAll_of_nil hrest, ← Keyword.wordKind_eq_lookup?]
  simp [token, endToken, pass, ofText]

end Lexer

namespace Keyword

/-- The search for a keyword finds the one that a word spells in small or capital letters, whatever
the word is, and there is no second one. Nothing beyond ASCII spells a keyword. Keywords are names
by their form, and what has this form is read, alone, as one token, a keyword if it spells one and
an object's name if not. -/
theorem lookup_searches (w : List Char) (config : Config) :
    (∀ k, lookup? w = some k ↔ (k.word, k) ∈ pairs ∧ SameLetters w k.word.toList) ∧
      (∀ p ∈ pairs, ∀ q ∈ pairs, SameLetters w p.1.toList → SameLetters w q.1.toList → p = q) ∧
      ofWord? w = lookup? w ∧
      ((∃ c ∈ w, 128 ≤ c.toNat) → lookup? w = none) ∧
      (∀ p ∈ pairs, isIdentifier p.1.toList = true) ∧
      (isIdentifier w = true → (Lexer.ofText config w).tokenizeAll.result =
        .ok [.of ((lookup? w).elim .objectName .keyword) w .start 0,
          .of .eof [] (.after w) 1]) := by
  refine ⟨fun k => lookup?_eq_some, ?_, (lookup?_eq w).symm, lookup?_eq_none, ?_, ?_⟩
  · exact fun p hp q hq => eq_of_sameLetters hp hq
  · exact fun p => isIdentifier_of_mem_pairs
  · exact Lexer.tokenizeAll_identifier config

/-- A keyword in mixed letters that goes on is a name. -/
theorem lookup_searches_selector :
    let w := ['s', 'e', 'L', 'E', 'c', 't', 'o', 'r']
    isIdentifier w = true ∧ lookup? w = none ∧ lookup? (w.take 6) = some .SELECT ∧
      (Lexer.ofText {} w).tokenizeAll.result =
        .ok [.of .objectName w .start 0, .of .eof [] ⟨1, 9, 8⟩ 1] := by
  intro w
  have hw : isIdentifier w = true := rfl
  obtain ⟨-, -, heq, -, -, hread⟩ := lookup_searches w {}
  obtain ⟨-, -, heq', -⟩ := lookup_searches (w.take 6) {}
  have hnone : lookup? w = none := by
    rw [← heq]
    decide +kernel
  have hfound : lookup? (w.take 6) = some .SELECT := by
    rw [← heq']
    decide +kernel
  have hafter : Position.after w = ⟨1, 9, 8⟩ := rfl
  have h := hread hw
  rw [hnone, hafter] at h
  exact ⟨hw, hnone, hfound, h⟩

/-- Unicode has `S` as the capital of the long s. -/
example : ofWord? ['ſ', 'e', 't'] = none ∧ ofWord? ['s', 'e', 't'] = some .SET := by
  decide +kernel

end Keyword
end Cql
