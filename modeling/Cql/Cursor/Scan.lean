import Cql.Cursor.Comment
import Cql.Cursor.Quoted
import Cql.Cursor.Word
import Cql.Scan

/-!
The token at the front of a text, read byte by byte. The reader that the first byte selects ends
where the scan over characters does.
-/
namespace Cql.Cursor
open Scan

def readOne (kind : TokenKind) (k : Cursor) : TokenKind × Cursor := (kind, k.advance)

def readTwo (kind : TokenKind) (k : Cursor) : TokenKind × Cursor := (kind, k.advanceBy 2)

def readComparison (k : Cursor) : TokenKind × Cursor :=
  if k.peek 0 = some '<' ∧ k.peek 1 = some '=' then k.readTwo (.symbol .lessEqual)
  else if k.peek 0 = some '>' ∧ k.peek 1 = some '=' then k.readTwo (.symbol .greaterEqual)
  else if k.peek 0 = some '<' then k.readOne (.symbol .less)
  else k.readOne (.symbol .greater)

def readMinus (k : Cursor) : TokenKind × Cursor :=
  if k.peek 1 = some '-' then
    if k.peek 2 = some ' ' ∨ k.peek 2 = none ∨ k.peek 2 = some '\n' ∨
        k.peek 2 = some '\r' ∧ k.peek 3 = some '\n' then
      k.readLineComment 2
    else k.readTwo (.symbol .minusMinus)
  else if (k.peek 1).any Char.isDigit then k.advance.readDecimalOrFloat
  else k.readOne (.symbol .minus)

def readSlash (k : Cursor) : TokenKind × Cursor :=
  if k.peek 1 = some '/' then k.readLineComment 2
  else if k.peek 1 = some '*' then k.readBlockComment
  else k.readOne (.symbol .divide)

/-- A literal is read to its end. If it has none the cursor has gone through all of the text. -/
def readLiteral (kind : TokenKind) (missing : Literal) (opening : Nat)
    (close : List UInt8 → Position → Bool × Cursor) (k : Cursor) :
    Except Fault TokenKind × Cursor :=
  let k := k.advanceBy opening
  let closed := close k.bytes k.position
  (if closed.1 then .ok kind else .error (.unterminated missing), closed.2)

def readDollar (k : Cursor) : Except Fault TokenKind × Cursor :=
  if k.peek 1 = some '$' then k.readLiteral .codeBlock .codeBlock 2 closeCode
  else (.error (.unrecognized '$'), k)

def readPoint (k : Cursor) : TokenKind × Cursor :=
  if (k.peek 1).any Char.isDigit then k.readNumber else k.readOne (.symbol .dot)

def firstByte (c : Char) : Char :=
  Char.ofUInt8 ((String.utf8EncodeChar c).head (utf8EncodeChar_ne_nil c))

def accept (x : TokenKind × Cursor) : Except Fault TokenKind × Cursor := (.ok x.1, x.2)

/-- The first byte selects the reader. What it finds comes with the cursor it has moved, also where
it fails. -/
def scanToken (c : Char) (cs : List Char) (p : Position) : Except Fault TokenKind × Cursor :=
  let k := ofText (c :: cs) p
  match Lead.of (firstByte c) with
  | .blank => accept k.readBlanks
  | .dash => accept k.readMinus
  | .hash => accept (k.readLineComment 1)
  | .slash => accept k.readSlash
  | .quote => k.readLiteral .stringLiteral .string 1 closeString
  | .doubleQuote => k.readLiteral .objectName .quotedName 1 closeName
  | .dollar => k.readDollar
  | .digit => accept k.readNumber
  | .point => accept k.readPoint
  | .letter => accept (readWord (c :: cs) p)
  | .less | .greater => accept k.readComparison
  | .other =>
    match Symbol.ofChar? (firstByte c) with
    | some s => accept (k.readOne (.symbol s))
    | none => (.error (.unrecognized c), k)

/-- What a scan over characters finds, and the cursor where it comes to stand. -/
def scanned (r : Except Fault Lexeme) (cs : List Char) (p : Position) :
    Except Fault TokenKind × Cursor :=
  (r.map Lexeme.kind, behind cs p (reach cs r))

variable {c : Char} {cs : List Char}

theorem isAlpha_ascii (c : Char) (h : c.isAlpha = true) : c.toNat < 128 := by
  rw [isAlpha_iff] at h
  omega

theorem firstByte_of_ascii (h : c.toNat < 128) : firstByte c = c := by
  obtain ⟨b, he, hb⟩ := utf8EncodeChar_of_ascii h
  simp [firstByte, he, hb]

theorem le_firstByte (h : 128 ≤ c.toNat) : 128 ≤ (firstByte c).toNat :=
  le_of_mem_utf8EncodeChar h (List.head_mem _)

theorem lead_of_le (h : 128 ≤ c.toNat) : Lead.of c = .other := by
  have hn {q : Char → Bool} (hq : ∀ c, q c = true → c.toNat < 128) : ¬ q c = true :=
    fun hc => Nat.not_lt.2 h (hq c hc)
  cases hl : Lead.of c
  case other => rfl
  case blank => exact absurd (Lead.isBlank_of hl) (hn isBlank_ascii)
  case digit => exact absurd (Lead.isDigit_of hl) (hn isDigit_ascii)
  case letter => exact absurd (Lead.isAlpha_of hl) (hn isAlpha_ascii)
  all_goals
    rw [Lead.eq_of_char? (congrArg Lead.char? hl)] at h
    exact absurd h (by decide)

theorem ofChar?_of_le (h : 128 ≤ c.toNat) : Symbol.ofChar? c = none := by
  unfold Symbol.ofChar?
  split
  case h_19 => rfl
  all_goals exact absurd h (by decide)

theorem lead_firstByte (c : Char) : Lead.of (firstByte c) = Lead.of c := by
  by_cases h : c.toNat < 128
  · rw [firstByte_of_ascii h]
  · have h := Nat.not_lt.1 h
    rw [lead_of_le h, lead_of_le (le_firstByte h)]

theorem ofChar?_firstByte (c : Char) : Symbol.ofChar? (firstByte c) = Symbol.ofChar? c := by
  by_cases h : c.toNat < 128
  · rw [firstByte_of_ascii h]
  · have h := Nat.not_lt.1 h
    rw [ofChar?_of_le h, ofChar?_of_le (le_firstByte h)]

theorem readLiteral_eq {kind : TokenKind} {missing : Literal}
    {close : List UInt8 → Position → Bool × Cursor} {w : List Char} {body : Option Nat}
    (hw : ∀ c ∈ w, c.toNat < 128) (hc : ∀ p, close (utf8 cs) p = closing body cs p)
    (p : Position) : readLiteral kind missing w.length close (ofText (w ++ cs) p) =
      scanned (literal kind missing w.length body) (w ++ cs) p := by
  have hclose : close (ofText cs (p.advance w)).bytes (ofText cs (p.advance w)).position =
      closing (body.map (· + w.length)) (w ++ cs) p :=
    (hc _).trans (closing_append body w cs p).symm
  rw [readLiteral, advanceBy_ascii hw, hclose]
  cases body <;> rfl

theorem readOne_eq (hc : c.toNat < 128) (kind : TokenKind) (cs : List Char) (p : Position) :
    readOne kind (ofText (c :: cs) p) = Lexeme.found ⟨kind, 1⟩ (c :: cs) p :=
  congrArg _ (advance_cons hc)

theorem readTwo_eq {d : Char} (hc : c.toNat < 128) (hd : d.toNat < 128) (kind : TokenKind)
    (cs : List Char) (p : Position) :
    readTwo kind (ofText (c :: d :: cs) p) = Lexeme.found ⟨kind, 2⟩ (c :: d :: cs) p := by
  have h : ∀ x ∈ [c, d], x.toNat < 128 := by
    rw [List.forall_mem_cons, List.forall_mem_singleton]
    exact ⟨hc, hd⟩
  exact congrArg _ (advanceBy_ascii h cs p)

theorem readSlash_eq (cs : List Char) (p : Position) :
    readSlash (ofText ('/' :: cs) p) = (slash cs).found ('/' :: cs) p := by
  have h {d : Char} (hd : d.toNat < 128) := peek_one (c := '/') (by decide) hd cs p
  rw [readSlash]
  by_cases hl : cs.head? = some '/'
  · rw [if_pos ((h (by decide)).2 hl)]
    obtain ⟨cs, rfl⟩ := List.head?_eq_some_iff.1 hl
    exact readLineComment_eq (w := ['/', '/']) (by simp) cs p
  · rw [if_neg (mt (h (by decide)).1 hl)]
    by_cases hb : cs.head? = some '*'
    · rw [if_pos ((h (by decide)).2 hb)]
      obtain ⟨cs, rfl⟩ := List.head?_eq_some_iff.1 hb
      exact readBlockComment_eq cs p
    · have hs : slash cs = ⟨.symbol .divide, 1⟩ := by
        unfold slash
        split
        · exact absurd rfl hl
        · exact absurd rfl hb
        · rfl
      rw [if_neg (mt (h (by decide)).1 hb), hs, readOne_eq (by decide)]

theorem comparison_of_ne {alone orEqual : Symbol} (h : ¬ cs.head? = some '=') :
    comparison alone orEqual cs = ⟨.symbol alone, 1⟩ := by
  unfold comparison
  split
  · exact absurd rfl h
  · rfl

theorem readLess_eq (cs : List Char) (p : Position) : readComparison (ofText ('<' :: cs) p) =
    (comparison .less .lessEqual cs).found ('<' :: cs) p := by
  have h0 : (ofText ('<' :: cs) p).peek 0 = some '<' := (peek_zero (by decide)).2 rfl
  have h1 := peek_one (c := '<') (d := '=') (by decide) (by decide) cs p
  rw [readComparison]
  by_cases he : cs.head? = some '='
  · rw [if_pos ⟨h0, h1.2 he⟩]
    obtain ⟨cs, rfl⟩ := List.head?_eq_some_iff.1 he
    exact readTwo_eq (by decide) (by decide) _ cs p
  · have hn : ¬ (ofText ('<' :: cs) p).peek 1 = some '=' := mt h1.1 he
    rw [if_neg fun h => hn h.2, if_neg fun h => hn h.2, if_pos h0, comparison_of_ne he,
      readOne_eq (by decide)]

theorem readGreater_eq (cs : List Char) (p : Position) : readComparison (ofText ('>' :: cs) p) =
    (comparison .greater .greaterEqual cs).found ('>' :: cs) p := by
  have h0 : (ofText ('>' :: cs) p).peek 0 = some '>' := (peek_zero (by decide)).2 rfl
  have h1 := peek_one (c := '>') (d := '=') (by decide) (by decide) cs p
  have hl : ¬ (ofText ('>' :: cs) p).peek 0 = some '<' := by
    rw [h0]
    decide
  rw [readComparison, if_neg fun h => hl h.1]
  by_cases he : cs.head? = some '='
  · rw [if_pos ⟨h0, h1.2 he⟩]
    obtain ⟨cs, rfl⟩ := List.head?_eq_some_iff.1 he
    exact readTwo_eq (by decide) (by decide) _ cs p
  · rw [if_neg fun h => he (h1.1 h.2), if_neg hl, comparison_of_ne he, readOne_eq (by decide)]

theorem dashesOpenComment_iff (cs : List Char) (p : Position) :
    (let k := ofText ('-' :: '-' :: cs) p
    k.peek 2 = some ' ' ∨ k.peek 2 = none ∨ k.peek 2 = some '\n' ∨
      k.peek 2 = some '\r' ∧ k.peek 3 = some '\n') ↔ dashesOpenComment cs = true := by
  have h2 : (ofText ('-' :: '-' :: cs) p).peek 2 = (ofText cs p).peek 0 := by
    rw [peek_succ (by decide), peek_succ (by decide)]
  have h3 : (ofText ('-' :: '-' :: cs) p).peek 3 = (ofText cs p).peek 1 := by
    rw [peek_succ (by decide), peek_succ (by decide)]
  simp only [h2, h3, peek_zero (d := ' ') (by decide), peek_zero (d := '\n') (by decide),
    peek_zero (d := '\r') (by decide), peek_zero_eq_none]
  unfold dashesOpenComment
  split
  · simp
  · simp
  · simp
  · refine iff_of_true (.inr (.inr (.inr ⟨rfl, ?_⟩))) rfl
    exact (peek_one (by decide) (by decide) _ p).2 rfl
  · rename_i hnil hspace hline hreturn
    refine iff_of_false (fun h => ?_) Bool.false_ne_true
    obtain h | h | h | ⟨h, h'⟩ := h
    · obtain ⟨rest, rfl⟩ := List.head?_eq_some_iff.1 h
      exact hspace rest rfl
    · exact hnil h
    · obtain ⟨rest, rfl⟩ := List.head?_eq_some_iff.1 h
      exact hline rest rfl
    · obtain ⟨rest, rfl⟩ := List.head?_eq_some_iff.1 h
      rw [peek_one (by decide) (by decide)] at h'
      obtain ⟨rest, rfl⟩ := List.head?_eq_some_iff.1 h'
      exact hreturn rest rfl

theorem peek_one_any {q : Char → Bool} (hc : c.toNat < 128) (hq : Blind q) (cs : List Char)
    (p : Position) : ((ofText (c :: cs) p).peek 1).any q = cs.head?.any q := by
  rw [peek_succ hc, peek_zero_any hq]

theorem readMinus_eq (cs : List Char) (p : Position) :
    readMinus (ofText ('-' :: cs) p) = (dash cs).found ('-' :: cs) p := by
  have h1 := peek_one (c := '-') (d := '-') (by decide) (by decide) cs p
  have hd := peek_one_any (c := '-') (by decide) (blind_of_ascii isDigit_ascii) cs p
  rw [readMinus]
  cases cs with
  | nil => rfl
  | cons c cs =>
    rw [dash]
    by_cases hc : c = '-'
    · subst hc
      rw [if_pos (h1.2 rfl), if_pos rfl, dashes]
      by_cases ho : dashesOpenComment cs = true
      · rw [if_pos ((dashesOpenComment_iff cs p).2 ho), if_pos ho]
        exact readLineComment_eq (w := ['-', '-']) (by simp) cs p
      · rw [if_neg (mt (dashesOpenComment_iff cs p).1 ho), if_neg ho]
        exact readTwo_eq (by decide) (by decide) _ cs p
    · rw [if_neg (mt h1.1 fun h => hc (Option.some.inj h)), if_neg hc, hd, List.head?_cons,
        Option.any_some]
      by_cases hd : c.isDigit = true
      · rw [if_pos hd, if_pos hd, advance_cons (by decide),
          readDecimalOrFloat_eq (.inl (runLength_pos hd))]
        rfl
      · rw [if_neg hd, if_neg hd, readOne_eq (by decide)]

theorem readDollar_eq (cs : List Char) (p : Position) :
    readDollar (ofText ('$' :: cs) p) = scanned (dollar cs) ('$' :: cs) p := by
  rw [readDollar]
  have h1 := peek_one (c := '$') (d := '$') (by decide) (by decide) cs p
  by_cases hd : cs.head? = some '$'
  · rw [if_pos (h1.2 hd)]
    obtain ⟨cs, rfl⟩ := List.head?_eq_some_iff.1 hd
    exact readLiteral_eq (w := ['$', '$']) (by simp) (closeCode_eq cs) p
  · have hn : dollar cs = .error (.unrecognized '$') := by
      unfold dollar
      split
      · exact absurd rfl hd
      · rfl
    rw [if_neg (mt h1.1 hd), hn]
    rfl

theorem readPoint_eq (cs : List Char) (p : Position) :
    readPoint (ofText ('.' :: cs) p) = (point cs).found ('.' :: cs) p := by
  rw [readPoint, peek_one_any (by decide) (blind_of_ascii isDigit_ascii)]
  cases cs with
  | nil => rfl
  | cons c cs =>
    rw [point, List.head?_cons, Option.any_some]
    by_cases hd : c.isDigit = true
    · rw [if_pos hd, if_pos hd, readNumber_eq (.inr ⟨c, cs, rfl, hd⟩)]
    · rw [if_neg hd, if_neg hd, readOne_eq (by decide)]

/-- What is read byte by byte is what a scan over characters finds, and the cursor goes as far. -/
theorem scanToken_eq (c : Char) (cs : List Char) (p : Position) :
    scanToken c cs p = scanned (scan (c :: cs)) (c :: cs) p := by
  have hc {d : Char} : (Lead.of c).char? = some d → c = d := Lead.eq_of_char?
  simp only [scanToken, lead_firstByte, ofChar?_firstByte]
  cases hl : Lead.of c <;> simp only [scan, hl] <;> rw [hl] at hc
  case blank => exact congrArg accept (readBlanks_eq (c :: cs) p)
  case digit =>
    have hd := Lead.isDigit_of hl
    exact congrArg accept (readNumber_eq (.inl (runLength_pos hd)) p)
  case letter => exact congrArg accept (readWord_eq (c :: cs) p)
  case dash =>
    obtain rfl := hc rfl
    exact congrArg accept (readMinus_eq cs p)
  case hash =>
    obtain rfl := hc rfl
    exact congrArg accept (readLineComment_eq (w := ['#']) (by simp) cs p)
  case slash =>
    obtain rfl := hc rfl
    exact congrArg accept (readSlash_eq cs p)
  case quote =>
    obtain rfl := hc rfl
    exact readLiteral_eq (w := ['\'']) (by simp) (closeString_eq cs) p
  case doubleQuote =>
    obtain rfl := hc rfl
    exact readLiteral_eq (w := ['"']) (by simp) (closeName_eq cs) p
  case dollar =>
    obtain rfl := hc rfl
    exact readDollar_eq cs p
  case point =>
    obtain rfl := hc rfl
    exact congrArg accept (readPoint_eq cs p)
  case less =>
    obtain rfl := hc rfl
    exact congrArg accept (readLess_eq cs p)
  case greater =>
    obtain rfl := hc rfl
    exact congrArg accept (readGreater_eq cs p)
  case other =>
    unfold Scan.symbol
    cases hs : Symbol.ofChar? c with
    | none => rfl
    | some s =>
      -- every symbol of one character is of ASCII
      have ha : c.toNat < 128 := by
        refine Nat.lt_of_not_ge fun hn => ?_
        rw [ofChar?_of_le hn] at hs
        cases hs
      exact congrArg accept (readOne_eq ha _ cs p)

/-- Where no closing delimiter is found the cursor has come to the end of the text. -/
theorem scanToken_unterminated {c : Char} {cs : List Char} {p : Position} {missing : Literal}
    (h : scan (c :: cs) = .error (.unterminated missing)) :
    (scanToken c cs p).2 = ofText [] (p.advance (c :: cs)) := by
  have hend : behind (c :: cs) p (c :: cs).length = ofText [] (p.advance (c :: cs)) := by
    rw [behind, List.drop_length, List.take_length]
  rw [scanToken_eq, h]
  exact hend

theorem splitAtByte_behind (cs : List Char) (p : Position) (n : Nat) :
    splitAtByte cs ((behind cs p n).position.offset - p.offset) =
      some (cs.take n, cs.drop n) := by
  have h : (behind cs p n).position.offset = p.offset + utf8Size (cs.take n) :=
    Position.offset_advance p (cs.take n)
  have hs := splitAtByte_append (cs.take n) (cs.drop n)
  rw [List.take_append_drop] at hs
  rw [h, Nat.add_sub_cancel_left, hs]

theorem splitAtByte_scanToken (c : Char) (cs : List Char) (p : Position) :
    splitAtByte (c :: cs) ((scanToken c cs p).2.position.offset - p.offset) =
      some ((c :: cs).take (reach (c :: cs) (scan (c :: cs))),
        (c :: cs).drop (reach (c :: cs) (scan (c :: cs)))) := by
  rw [scanToken_eq]
  exact splitAtByte_behind (c :: cs) p _

/-- The cursor never comes to rest inside a character. -/
theorem isSome_token (c : Char) (cs : List Char) (p : Position) :
    (splitAtByte (c :: cs) ((scanToken c cs p).2.position.offset - p.offset)).isSome := by
  rw [splitAtByte_scanToken]
  rfl

/-- The text that a scan has gone over, and the text behind the cursor. -/
def cut (c : Char) (cs : List Char) (p : Position) : List Char × List Char :=
  (splitAtByte (c :: cs) ((scanToken c cs p).2.position.offset - p.offset)).get
    (isSome_token c cs p)

theorem cut_eq (c : Char) (cs : List Char) (p : Position) :
    cut c cs p = ((c :: cs).take (reach (c :: cs) (scan (c :: cs))),
      (c :: cs).drop (reach (c :: cs) (scan (c :: cs)))) := by
  simp only [cut, splitAtByte_scanToken, Option.get_some]

end Cql.Cursor
