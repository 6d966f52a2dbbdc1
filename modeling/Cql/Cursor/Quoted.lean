import Cql.Cursor
import Cql.Scan.Quoted

/-!
The readers of literals between delimiters. Behind a backslash a single byte is passed over, which
may be the first of several; the others are no delimiters. A reader that finds no delimiter has come
to the end of the text.
-/
namespace Cql.Cursor
open Scan

/-- Behind the quote that opens a string. -/
def closeString : List UInt8 → Position → Bool × Cursor
  | [], p => (false, ⟨[], p⟩)
  | b :: bs, p =>
    if Char.ofUInt8 b = '\\' then
      match bs with
      | [] => (false, ⟨[], p.nextByte b⟩)
      | e :: bs => closeString bs ((p.nextByte b).nextByte e)
    else if Char.ofUInt8 b = '\'' then
      match bs with
      | [] => (true, ⟨[], p.nextByte b⟩)
      | q :: bs =>
        if Char.ofUInt8 q = '\'' then closeString bs ((p.nextByte b).nextByte q)
        else (true, ⟨q :: bs, p.nextByte b⟩)
    else closeString bs (p.nextByte b)

/-- Behind the quote that opens a name. -/
def closeName : List UInt8 → Position → Bool × Cursor
  | [], p => (false, ⟨[], p⟩)
  | b :: bs, p =>
    if Char.ofUInt8 b = '"' then
      match bs with
      | [] => (true, ⟨[], p.nextByte b⟩)
      | q :: bs =>
        if Char.ofUInt8 q = '"' then closeName bs ((p.nextByte b).nextByte q)
        else (true, ⟨q :: bs, p.nextByte b⟩)
    else closeName bs (p.nextByte b)

/-- Behind the dollars that open a block of code. -/
def closeCode : List UInt8 → Position → Bool × Cursor
  | [], p => (false, ⟨[], p⟩)
  | b :: bs, p =>
    let k : Cursor := ⟨b :: bs, p⟩
    if k.peek 0 = some '$' ∧ k.peek 1 = some '$' then (true, k.advanceBy 2)
    else closeCode bs (p.nextByte b)

variable {c : Char} {cs : List Char} {b : UInt8} {bs : List UInt8}

theorem closeString_cons (hb : Char.ofUInt8 b ≠ '\\') (hq : Char.ofUInt8 b ≠ '\'') (bs : List UInt8)
    (p : Position) : closeString (b :: bs) p = closeString bs (p.nextByte b) := by
  cases bs <;> simp [closeString, hb, hq]

theorem closeString_append (h : ∀ b ∈ bs, Char.ofUInt8 b ≠ '\\' ∧ Char.ofUInt8 b ≠ '\'')
    (rest : List UInt8) (p : Position) :
    closeString (bs ++ rest) p = closeString rest (bs.foldl Position.nextByte p) :=
  pass_append (fun _ bs p hb => closeString_cons hb.1 hb.2 bs p) h rest p

/-- A character that is no delimiter does not begin with a delimiter's byte. -/
theorem utf8_cons_of_ne {d : Char} (hd : d.toNat < 128) (hc : c ≠ d) (cs : List Char) :
    ∃ b bs, utf8 (c :: cs) = b :: bs ∧ Char.ofUInt8 b ≠ d := by
  obtain ⟨b, bs, he⟩ := List.exists_cons_of_ne_nil (utf8EncodeChar_ne_nil c)
  exact ⟨b, bs ++ utf8 cs, congrArg (· ++ utf8 cs) he,
    ne_of_mem hd hc (he ▸ List.mem_cons_self)⟩

theorem closeString_eq (cs : List Char) (p : Position) :
    closeString (utf8 cs) p = closing (stringBody? cs) cs p := by
  fun_induction stringBody? cs generalizing p with
  | case1 => rfl
  | case2 c cs ih =>
    obtain ⟨e, es, he⟩ := List.exists_cons_of_ne_nil (utf8EncodeChar_ne_nil c)
    have hes (b : UInt8) (hb : b ∈ es) : Char.ofUInt8 b ≠ '\\' ∧ Char.ofUInt8 b ≠ '\'' :=
      ⟨ne_of_le (by decide) (le_of_mem_tail he hb), ne_of_le (by decide) (le_of_mem_tail he hb)⟩
    -- only the first byte of the character is passed over, the others are read as any
    have hp : es.foldl Position.nextByte ((p.next '\\').nextByte e) = (p.next '\\').next c := by
      rw [Position.next, Position.next, he]
      rfl
    have h : closeString (utf8 ('\\' :: c :: cs)) p =
        closeString (es ++ utf8 cs) ((p.next '\\').nextByte e) := by
      change closeString (_ :: (String.utf8EncodeChar c ++ utf8 cs)) p = _
      rw [he]
      rfl
    rw [h, closeString_append hes, hp, ih]
    exact (closing_append _ ['\\', c] cs p).symm
  | case3 cs ih =>
    change closeString (utf8 cs) ((p.next '\'').next '\'') = _
    rw [ih]
    exact (closing_append _ ['\'', '\''] cs p).symm
  | case4 cs hq =>
    cases cs with
    | nil => rfl
    | cons c cs =>
      have hc : c ≠ '\'' := fun h => hq cs (h ▸ rfl)
      obtain ⟨b, bs, he, hn⟩ := utf8_cons_of_ne (by decide) hc cs
      change closeString (_ :: utf8 (c :: cs)) p = (true, ⟨utf8 (c :: cs), p.next '\''⟩)
      rw [he]
      exact if_neg hn
  | case5 c cs hb hq hq' ih =>
    by_cases hc : c = '\\'
    · subst hc
      cases cs with
      | nil => rfl
      | cons d cs => exact absurd rfl (hb d cs rfl)
    · have hbs (b : UInt8) (h : b ∈ String.utf8EncodeChar c) :
          Char.ofUInt8 b ≠ '\\' ∧ Char.ofUInt8 b ≠ '\'' :=
        ⟨ne_of_mem (by decide) hc h, ne_of_mem (by decide) hq' h⟩
      refine (closeString_append hbs (utf8 cs) p).trans ((ih (p.next c)).trans ?_)
      exact (closing_append _ [c] cs p).symm

theorem closeName_cons (hq : Char.ofUInt8 b ≠ '"') (bs : List UInt8) (p : Position) :
    closeName (b :: bs) p = closeName bs (p.nextByte b) := by
  cases bs <;> simp [closeName, hq]

theorem closeName_append (h : ∀ b ∈ bs, Char.ofUInt8 b ≠ '"') (rest : List UInt8) (p : Position) :
    closeName (bs ++ rest) p = closeName rest (bs.foldl Position.nextByte p) :=
  pass_append (fun _ bs p hq => closeName_cons hq bs p) h rest p

theorem closeName_eq (cs : List Char) (p : Position) :
    closeName (utf8 cs) p = closing (nameBody? cs) cs p := by
  fun_induction nameBody? cs generalizing p with
  | case1 => rfl
  | case2 cs ih =>
    change closeName (utf8 cs) ((p.next '"').next '"') = _
    rw [ih]
    exact (closing_append _ ['"', '"'] cs p).symm
  | case3 cs hq =>
    cases cs with
    | nil => rfl
    | cons c cs =>
      have hc : c ≠ '"' := fun h => hq cs (h ▸ rfl)
      obtain ⟨b, bs, he, hn⟩ := utf8_cons_of_ne (by decide) hc cs
      change closeName (_ :: utf8 (c :: cs)) p = (true, ⟨utf8 (c :: cs), p.next '"'⟩)
      rw [he]
      exact if_neg hn
  | case4 c cs hq hq' ih =>
    refine (closeName_append (fun b h => ne_of_mem (by decide) hq' h) (utf8 cs) p).trans ?_
    exact (ih (p.next c)).trans (closing_append _ [c] cs p).symm

theorem closeCode_append (h : ∀ b ∈ bs, Char.ofUInt8 b ≠ '$') (rest : List UInt8) (p : Position) :
    closeCode (bs ++ rest) p = closeCode rest (bs.foldl Position.nextByte p) := by
  refine pass_append (fun b bs p hb => ?_) h rest p
  have hn : ¬ some (Char.ofUInt8 b) = some '$' := fun h => hb (Option.some.inj h)
  exact if_neg fun h => hn h.1

theorem closeCode_eq (cs : List Char) (p : Position) :
    closeCode (utf8 cs) p = closing (codeBody? cs) cs p := by
  fun_induction codeBody? cs generalizing p with
  | case1 => rfl
  | case2 cs => rfl
  | case3 c cs hn ih =>
    have hstep : closeCode (utf8 (c :: cs)) p = closeCode (utf8 cs) (p.next c) := by
      by_cases hc : c = '$'
      · subst hc
        refine if_neg fun h => ?_
        have h := (peek_one (c := '$') (d := '$') (by decide) (by decide) cs p).1 h.2
        obtain ⟨rest, rfl⟩ := List.head?_eq_some_iff.1 h
        exact hn rest rfl rfl
      · exact closeCode_append (fun b hb => ne_of_mem (by decide) hc hb) (utf8 cs) p
    rw [hstep, ih]
    exact (closing_append _ [c] cs p).symm

end Cql.Cursor
