import Cql.Proofs.LongestMatch

/-!
Any text can be written between delimiters. With its delimiters and escapes doubled it is read back
as one literal, wherever it stands and whatever comes behind it.
-/
namespace Cql
open Pattern Scan
open scoped Computability

variable {u v w before after : List Char}

/-- Each character of a class is written twice. -/
def doubled (p : Char → Bool) (u : List Char) : List Char :=
  u.flatMap fun c => if p c then [c, c] else [c]

def quoteString (u : List Char) : List Char :=
  '\'' :: (doubled (fun c => c = '\'' || c = '\\') u ++ ['\''])

def quoteName (u : List Char) : List Char := '"' :: (doubled (fun c => c = '"') u ++ ['"'])

def quoteCode (u : List Char) : List Char := '$' :: '$' :: (u ++ ['$', '$'])

/-- A text is made of the parts of a literal if each of its characters is one, alone or doubled. -/
theorem doubled_mem_many {p : Char → Bool} {l : Language Char}
    (htwice : ∀ c, p c = true → [c, c] ∈ l) (honce : ∀ c, p c = false → [c] ∈ l)
    (u : List Char) : doubled p u ∈ l∗ := by
  induction u with
  | nil => exact Language.nil_mem_kstar l
  | cons c u ih =>
    have hpart : (if p c then [c, c] else [c]) ∈ l := by
      cases hc : p c with
      | true => exact htwice c hc
      | false => exact honce c hc
    exact mem_many.2 (.inr ⟨_, hpart, _, ih, rfl⟩)

theorem stringParts (u : List Char) :
    doubled (fun c => c = '\'' || c = '\\') u ++ ['\''] ∈ stringPart∗ * {['\'']} := by
  refine ⟨_, doubled_mem_many (fun c hc => ?_) (fun c hc => ?_) u, _, rfl, rfl⟩
  · have hc : c = '\'' ∨ c = '\\' := by simpa using hc
    obtain rfl | rfl := hc
    · exact .inl (.inr rfl)
    · exact .inl (.inl ⟨_, rfl, _, ⟨'\\', rfl, rfl⟩, rfl⟩)
  · have hc : c ≠ '\'' ∧ c ≠ '\\' := by simpa using hc
    exact .inr ⟨c, decide_eq_true hc.symm, rfl⟩

theorem nameParts (u : List Char) :
    doubled (fun c => c = '"') u ++ ['"'] ∈ namePart∗ * {['"']} := by
  refine ⟨_, doubled_mem_many (fun c hc => ?_) (fun c hc => ?_) u, _, rfl, rfl⟩
  · obtain rfl := of_decide_eq_true hc
    exact .inl rfl
  · exact .inr ⟨c, decide_eq_true (of_decide_eq_false hc), rfl⟩

/-- Two dollars behind a text are the first in it, unless there are two before or the text ends in
one. -/
theorem through_dollars (hu : ¬ ['$', '$'] <:+: u) (hlast : u.getLast? ≠ some '$') :
    u ++ ['$', '$'] ∈ through ['$', '$'] := by
  -- an earlier close would lie in the text or begin with its last character
  have hdrop : (u ++ ['$', '$']).dropLast = u ++ ['$'] := by simp
  refine ⟨List.suffix_append u _, ?_⟩
  rw [hdrop, List.infix_concat_iff]
  intro h
  obtain h | h := h
  · obtain h | ⟨t, ht, hs⟩ := List.suffix_concat_iff.1 h
    · cases h
    · obtain rfl : t = ['$'] := (List.append_cancel_right ht).symm
      obtain ⟨front, rfl⟩ := hs
      exact hlast List.getLast?_concat
  · exact hu h

theorem scan_quoteString (hv : v.head? ≠ some '\'') :
    scan (quoteString u ++ v) = .ok ⟨.stringLiteral, (quoteString u).length⟩ := by
  have hstop : ∀ c ∈ v.head?, Rule.stringLiteral.continues c = false :=
    fun c hc => decide_eq_false fun h => hv (h ▸ hc)
  exact congrArg (literal .stringLiteral .string 1) (stringBody?_eq (stringParts u) hstop)

theorem scan_quoteName (hv : v.head? ≠ some '"') :
    scan (quoteName u ++ v) = .ok ⟨.objectName, (quoteName u).length⟩ := by
  have hstop : ∀ c ∈ v.head?, Rule.quotedName.continues c = false :=
    fun c hc => decide_eq_false fun h => hv (h ▸ hc)
  exact congrArg (literal .objectName .quotedName 1) (nameBody?_eq (nameParts u) hstop)

theorem scan_quoteCode (hu : ¬ ['$', '$'] <:+: u) (hlast : u.getLast? ≠ some '$')
    (v : List Char) : scan (quoteCode u ++ v) = .ok ⟨.codeBlock, (quoteCode u).length⟩ :=
  congrArg (literal .codeBlock .codeBlock 2) (codeBody?_eq (through_dollars hu hlast))

theorem tokenAt_of_scan {kind : TokenKind} (hw : w ≠ [])
    (h : scan (w ++ after) = .ok ⟨kind, w.length⟩) :
    tokenAt (before ++ w ++ after) (utf8Size before) =
      .ok ⟨.of kind w (.after before) 0, utf8Size before + utf8Size w⟩ := by
  obtain ⟨c, cs, rfl⟩ := List.exists_cons_of_ne_nil hw
  rw [List.cons_append] at h
  rw [List.append_assoc, List.cons_append, tokenAt_of_ok h, ← List.cons_append, List.take_left,
    utf8Size_append]

/-- A text in quotes, with the quotes in it doubled and in a string the backslashes too, is one
token, and a block of code is one if its text has no two dollars in a row and does not end in one.
The token ends behind the closing delimiter, wherever it stands and whatever it contains, and
whatever comes next but a quote of the same kind. -/
theorem quoted_text_contained (p u v : List Char) :
    (v.head? ≠ some '\'' →
      tokenAt (p ++ quoteString u ++ v) (utf8Size p) =
        .ok ⟨.of .stringLiteral (quoteString u) (.after p) 0,
          utf8Size p + utf8Size (quoteString u)⟩) ∧
      (v.head? ≠ some '"' →
        tokenAt (p ++ quoteName u ++ v) (utf8Size p) =
          .ok ⟨.of .objectName (quoteName u) (.after p) 0,
            utf8Size p + utf8Size (quoteName u)⟩) ∧
      (¬ ['$', '$'] <:+: u → u.getLast? ≠ some '$' →
        tokenAt (p ++ quoteCode u ++ v) (utf8Size p) =
          .ok ⟨.of .codeBlock (quoteCode u) (.after p) 0,
            utf8Size p + utf8Size (quoteCode u)⟩) := by
  refine ⟨fun hv => ?_, fun hv => ?_, fun hu hlast => ?_⟩
  · exact tokenAt_of_scan (List.cons_ne_nil _ _) (scan_quoteString hv)
  · exact tokenAt_of_scan (List.cons_ne_nil _ _) (scan_quoteName hv)
  · exact tokenAt_of_scan (List.cons_ne_nil _ _) (scan_quoteCode hu hlast v)

/-- A text that closes literals of every kind where it is not quoted, behind an open string and
before a comment. -/
theorem quoted_text_contained_closing :
    let p := ['\'', 'é']
    let u := ['\\', '\'', '"', '$', '\'', ';', '\\']
    let v := ['-', '-', '\'']
    v.head? ≠ some '\'' ∧ v.head? ≠ some '"' ∧ ¬ ['$', '$'] <:+: u ∧ u.getLast? ≠ some '$' ∧
      tokenAt (p ++ quoteString u ++ v) 3 =
        .ok ⟨.of .stringLiteral (quoteString u) ⟨1, 3, 3⟩ 0, 16⟩ ∧
      tokenAt (p ++ quoteName u ++ v) 3 =
        .ok ⟨.of .objectName (quoteName u) ⟨1, 3, 3⟩ 0, 13⟩ ∧
      tokenAt (p ++ quoteCode u ++ v) 3 =
        .ok ⟨.of .codeBlock (quoteCode u) ⟨1, 3, 3⟩ 0, 14⟩ := by
  intro p u v
  have hq : v.head? ≠ some '\'' := by decide
  have hd : v.head? ≠ some '"' := by decide
  have hu : ¬ ['$', '$'] <:+: u := by decide
  have hlast : u.getLast? ≠ some '$' := by decide
  obtain ⟨hstring, hname, hcode⟩ := quoted_text_contained p u v
  exact ⟨hq, hd, hu, hlast, hstring hq, hname hd, hcode hu hlast⟩

end Cql
