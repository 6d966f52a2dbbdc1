import Cql.Scan.Lexeme

/-!
Literals between delimiters. Each measure starts after the opening delimiter and runs through the
closing one; there is none if the text ends first.
-/
namespace Cql.Scan

/-- A quote closes unless a backslash stands before it or a second quote after it. -/
def stringBody? : List Char → Option Nat
  | [] => none
  | '\\' :: _ :: cs => (stringBody? cs).map (· + 2)
  | '\'' :: '\'' :: cs => (stringBody? cs).map (· + 2)
  | '\'' :: _ => some 1
  | _ :: cs => (stringBody? cs).map (· + 1)

/-- A quote closes unless a second one stands after it; a backslash is an ordinary character. -/
def nameBody? : List Char → Option Nat
  | [] => none
  | '"' :: '"' :: cs => (nameBody? cs).map (· + 2)
  | '"' :: _ => some 1
  | _ :: cs => (nameBody? cs).map (· + 1)

/-- The first two dollars in a row close. -/
def codeBody? : List Char → Option Nat
  | [] => none
  | '$' :: '$' :: _ => some 2
  | _ :: cs => (codeBody? cs).map (· + 1)

theorem stringBody?_le {cs : List Char} {n : Nat} (h : stringBody? cs = some n) :
    n ≤ cs.length := by
  fun_induction stringBody? cs generalizing n with
  | case1 => cases h
  | case2 _ _ ih =>
    obtain ⟨m, hm, rfl⟩ := Option.map_eq_some_iff.1 h
    simpa using ih hm
  | case3 _ ih =>
    obtain ⟨m, hm, rfl⟩ := Option.map_eq_some_iff.1 h
    simpa using ih hm
  | case4 => simp at h; simp [← h]
  | case5 _ _ _ _ _ ih =>
    obtain ⟨m, hm, rfl⟩ := Option.map_eq_some_iff.1 h
    simpa using ih hm

theorem nameBody?_le {cs : List Char} {n : Nat} (h : nameBody? cs = some n) :
    n ≤ cs.length := by
  fun_induction nameBody? cs generalizing n with
  | case1 => cases h
  | case2 _ ih =>
    obtain ⟨m, hm, rfl⟩ := Option.map_eq_some_iff.1 h
    simpa using ih hm
  | case3 => simp at h; simp [← h]
  | case4 _ _ _ _ ih =>
    obtain ⟨m, hm, rfl⟩ := Option.map_eq_some_iff.1 h
    simpa using ih hm

theorem codeBody?_le {cs : List Char} {n : Nat} (h : codeBody? cs = some n) :
    n ≤ cs.length := by
  fun_induction codeBody? cs generalizing n with
  | case1 => cases h
  | case2 => simp at h; simp [← h]
  | case3 _ _ _ ih =>
    obtain ⟨m, hm, rfl⟩ := Option.map_eq_some_iff.1 h
    simpa using ih hm

end Cql.Scan
