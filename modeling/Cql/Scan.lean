import Cql.Error
import Cql.Scan.Comment
import Cql.Scan.Quoted
import Cql.Scan.Word

/-!
The token at the front of a text, by its characters. The first of them selects the rule, and the
rule takes as many characters as it can; a text that is not empty gives up at least one.
-/
namespace Cql
namespace Scan

def dash : List Char → Lexeme
  | [] => ⟨.symbol .minus, 1⟩
  | c :: cs =>
    if c = '-' then dashes cs
    else if c.isDigit then ⟨(number (c :: cs)).kind, (number (c :: cs)).length + 1⟩
    else ⟨.symbol .minus, 1⟩

/-- After a less-than or greater-than sign that is `alone`, or `orEqual` before an equals sign. -/
def comparison (alone orEqual : Symbol) : List Char → Lexeme
  | '=' :: _ => ⟨.symbol orEqual, 2⟩
  | _ => ⟨.symbol alone, 1⟩

def point : List Char → Lexeme
  | [] => ⟨.symbol .dot, 1⟩
  | c :: cs => if c.isDigit then numeric ('.' :: c :: cs) else ⟨.symbol .dot, 1⟩

/-- A literal whose body is measured, `opening` characters after its start. -/
def literal (kind : TokenKind) (missing : Literal) (opening : Nat) :
    Option Nat → Except Fault Lexeme
  | some n => .ok ⟨kind, n + opening⟩
  | none => .error (.unterminated missing)

def dollar : List Char → Except Fault Lexeme
  | '$' :: cs => literal .codeBlock .codeBlock 2 (codeBody? cs)
  | _ => .error (.unrecognized '$')

def symbol (c : Char) : Except Fault Lexeme :=
  match Symbol.ofChar? c with
  | some s => .ok ⟨.symbol s, 1⟩
  | none => .error (.unrecognized c)

/-- What the first character of a text announces. -/
inductive Lead where
  | blank | digit | letter | dash | hash | slash | quote | doubleQuote | dollar | point
  | less | greater | other
deriving DecidableEq

def Lead.of (c : Char) : Lead :=
  if isBlank c then .blank
  else if c.isDigit then .digit
  else if c.isAlpha then .letter
  else match c with
    | '-' => .dash
    | '#' => .hash
    | '/' => .slash
    | '\'' => .quote
    | '"' => .doubleQuote
    | '$' => .dollar
    | '.' => .point
    | '<' => .less
    | '>' => .greater
    | _ => .other

end Scan

open Scan in
def scan : List Char → Except Fault Lexeme
  | [] => .ok ⟨.eof, 0⟩
  | c :: cs =>
    match Lead.of c with
    | .blank => .ok ⟨.space, runLength isBlank (c :: cs)⟩
    | .digit => .ok (numeric (c :: cs))
    | .letter => .ok (word (c :: cs))
    | .dash => .ok (dash cs)
    | .hash => .ok (lineComment (c :: cs))
    | .slash => .ok (slash cs)
    | .quote => literal .stringLiteral .string 1 (stringBody? cs)
    | .doubleQuote => literal .objectName .quotedName 1 (nameBody? cs)
    | .dollar => dollar cs
    | .point => .ok (point cs)
    | .less => .ok (comparison .less .lessEqual cs)
    | .greater => .ok (comparison .greater .greaterEqual cs)
    | .other => symbol c

namespace Scan

/-- How far into a text the search for a token goes: over what is found, to the end where a
delimiter is missing, and nowhere where no token begins. -/
def reach (cs : List Char) : Except Fault Lexeme → Nat
  | .ok x => x.length
  | .error (.unterminated _) => cs.length
  | .error (.unrecognized _) => 0

theorem numeric_length_pos {c : Char} {cs : List Char} (h : c.isDigit = true) :
    0 < (numeric (c :: cs)).length := by
  unfold numeric
  split
  · decide
  · split
    · rename_i n hn
      obtain ⟨x, rest, -, -, -, rfl⟩ := hexNumber?_eq_some.1 hn
      exact Nat.succ_pos _
    · have : 0 < runLength Char.isDigit (c :: cs) := runLength_pos h
      simp [number, digits]
      omega

theorem dash_length_pos (cs : List Char) : 0 < (dash cs).length := by
  unfold dash dashes
  repeat' split
  all_goals simp

theorem point_length_pos (cs : List Char) : 0 < (point cs).length := by
  unfold point
  split
  · decide
  · split
    · rename_i c cs _
      change 0 < 0 + (digits (c :: cs) + 1) + exponentLength _
      omega
    · decide

theorem word_length_pos {c : Char} {cs : List Char} (h : c.isAlpha = true) :
    0 < (word (c :: cs)).length := by
  unfold word
  split
  · decide
  · split
    · rename_i n hn
      obtain ⟨x, rest, -, -, -, -, -, rfl⟩ := quotedHex?_eq_some.1 hn
      exact Nat.succ_pos _
    · exact runLength_pos (by simp [isWordChar, Char.isAlphanum, h])

theorem literal_length_pos {kind : TokenKind} {missing : Literal} {opening : Nat}
    {body : Option Nat} {x : Lexeme} (ho : 0 < opening)
    (h : literal kind missing opening body = .ok x) : 0 < x.length := by
  cases body with
  | none => cases h
  | some n => cases h; exact Nat.add_pos_right n ho

theorem dollar_length_pos {cs : List Char} {x : Lexeme} (h : dollar cs = .ok x) :
    0 < x.length := by
  unfold dollar at h
  split at h
  · exact literal_length_pos (by decide) h
  · cases h

theorem symbol_length_pos {c : Char} {x : Lexeme} (h : symbol c = .ok x) : 0 < x.length := by
  unfold symbol at h
  split at h
  · cases h; exact Nat.one_pos
  · cases h

theorem dashes_length_le (cs : List Char) : (dashes cs).length ≤ cs.length + 2 := by
  have := lineLength_le cs
  unfold dashes
  split
  · simpa using this
  · simp

theorem dash_length_le (cs : List Char) : (dash cs).length ≤ cs.length + 1 := by
  unfold dash
  split
  · decide
  · rename_i c cs
    split
    · exact dashes_length_le cs
    · split
      · have := number_length_le (c :: cs)
        simp at this ⊢
        omega
      · simp

theorem slash_length_le (cs : List Char) : (slash cs).length ≤ cs.length + 1 := by
  unfold slash
  split
  · have := lineLength_le ‹_›; simp; omega
  · have := closeLength_le ‹_›; simp; omega
  · simp

theorem point_length_le (cs : List Char) : (point cs).length ≤ cs.length + 1 := by
  unfold point
  split
  · decide
  · split
    · exact numeric_length_le _
    · simp

theorem comparison_length_le (alone orEqual : Symbol) (cs : List Char) :
    (comparison alone orEqual cs).length ≤ cs.length + 1 := by
  unfold comparison
  split <;> simp

theorem literal_length_le {kind : TokenKind} {missing : Literal} {opening : Nat}
    {body : Option Nat} {x : Lexeme} {m : Nat} (hb : ∀ n, body = some n → n ≤ m)
    (h : literal kind missing opening body = .ok x) : x.length ≤ m + opening := by
  cases body with
  | none => cases h
  | some n => cases h; exact Nat.add_le_add_right (hb n rfl) opening

theorem dollar_length_le {cs : List Char} {x : Lexeme} (h : dollar cs = .ok x) :
    x.length ≤ cs.length + 1 := by
  unfold dollar at h
  split at h
  · have := literal_length_le (fun _ => codeBody?_le) h
    simp at this ⊢
    omega
  · cases h

theorem symbol_length_le {c : Char} {x : Lexeme} (h : symbol c = .ok x) : x.length ≤ 1 := by
  unfold symbol at h
  split at h
  · cases h; exact Nat.le_refl 1
  · cases h

theorem Lead.isBlank_of {c : Char} (h : Lead.of c = .blank) : isBlank c = true := by
  unfold Lead.of at h
  repeat' split at h
  all_goals simp_all

theorem Lead.isDigit_of {c : Char} (h : Lead.of c = .digit) : c.isDigit = true := by
  unfold Lead.of at h
  repeat' split at h
  all_goals simp_all

theorem Lead.isAlpha_of {c : Char} (h : Lead.of c = .letter) : c.isAlpha = true := by
  unfold Lead.of at h
  repeat' split at h
  all_goals simp_all

def Lead.char? : Lead → Option Char
  | .dash => '-'
  | .hash => '#'
  | .slash => '/'
  | .quote => '\''
  | .doubleQuote => '"'
  | .dollar => '$'
  | .point => '.'
  | .less => '<'
  | .greater => '>'
  | .blank | .digit | .letter | .other => none

theorem Lead.eq_of_char? {c d : Char} (h : (of c).char? = some d) : c = d := by
  unfold of at h
  repeat' split at h
  all_goals cases h
  all_goals rfl

end Scan

open Scan in
theorem scan_length_pos {c : Char} {cs : List Char} {x : Lexeme} (h : scan (c :: cs) = .ok x) :
    0 < x.length := by
  cases hl : Lead.of c <;> simp only [scan, hl] at h
  case blank => cases h; exact runLength_pos (Lead.isBlank_of hl)
  case digit => cases h; exact numeric_length_pos (Lead.isDigit_of hl)
  case letter => cases h; exact word_length_pos (Lead.isAlpha_of hl)
  case dash => cases h; exact dash_length_pos cs
  case hash => cases h; unfold lineComment lineLength; split <;> simp
  case slash => cases h; unfold slash; split <;> simp
  case quote => exact literal_length_pos (by decide) h
  case doubleQuote => exact literal_length_pos (by decide) h
  case dollar => exact dollar_length_pos h
  case point => cases h; exact point_length_pos cs
  case less => cases h; unfold comparison; split <;> simp
  case greater => cases h; unfold comparison; split <;> simp
  case other => exact symbol_length_pos h

open Scan in
theorem scan_length_le {cs : List Char} {x : Lexeme} (h : scan cs = .ok x) :
    x.length ≤ cs.length := by
  cases cs with
  | nil => cases h; exact Nat.le_refl 0
  | cons c cs =>
    cases hl : Lead.of c <;> simp only [scan, hl] at h
    case blank => cases h; exact runLength_le _ _
    case digit => cases h; exact numeric_length_le _
    case letter => cases h; exact word_length_le _
    case dash => cases h; exact dash_length_le cs
    case hash => cases h; exact lineLength_le _
    case slash => cases h; exact slash_length_le cs
    case quote => exact literal_length_le (fun _ => stringBody?_le) h
    case doubleQuote => exact literal_length_le (fun _ => nameBody?_le) h
    case dollar => exact dollar_length_le h
    case point => cases h; exact point_length_le cs
    case less => cases h; exact comparison_length_le _ _ cs
    case greater => cases h; exact comparison_length_le _ _ cs
    case other => exact Nat.le_trans (symbol_length_le h) (by simp)

namespace Scan

theorem number_kind_ne_eof (cs : List Char) : (number cs).kind ≠ .eof := by
  unfold number
  dsimp only
  split <;> simp

theorem numeric_kind_ne_eof (cs : List Char) : (numeric cs).kind ≠ .eof := by
  unfold numeric
  repeat' split
  · simp
  · simp
  · exact number_kind_ne_eof cs

theorem word_kind_ne_eof (cs : List Char) : (word cs).kind ≠ .eof := by
  unfold word wordKind
  repeat' split
  all_goals simp

theorem dash_kind_ne_eof (cs : List Char) : (dash cs).kind ≠ .eof := by
  unfold dash dashes
  repeat' split
  · simp
  · simp
  · simp
  · exact number_kind_ne_eof _
  · simp

theorem literal_kind {kind : TokenKind} {missing : Literal} {opening : Nat} {body : Option Nat}
    {x : Lexeme} (h : literal kind missing opening body = .ok x) : x.kind = kind := by
  cases body with
  | none => cases h
  | some n => cases h; rfl

theorem symbol_kind_ne_eof {c : Char} {x : Lexeme} (h : symbol c = .ok x) : x.kind ≠ .eof := by
  unfold symbol at h
  split at h
  · cases h; simp
  · cases h

end Scan

open Scan in
theorem scan_kind_ne_eof {c : Char} {cs : List Char} {x : Lexeme} (h : scan (c :: cs) = .ok x) :
    x.kind ≠ .eof := by
  cases hl : Lead.of c <;> simp only [scan, hl] at h
  case blank => cases h; simp
  case digit => cases h; exact numeric_kind_ne_eof _
  case letter => cases h; exact word_kind_ne_eof _
  case dash => cases h; exact dash_kind_ne_eof cs
  case hash => cases h; simp [lineComment]
  case slash => cases h; unfold slash; split <;> simp
  case quote => rw [literal_kind h]; simp
  case doubleQuote => rw [literal_kind h]; simp
  case dollar =>
    unfold dollar at h
    split at h
    · rw [literal_kind h]; simp
    · cases h
  case point =>
    cases h
    unfold point
    repeat' split
    · simp
    · exact numeric_kind_ne_eof _
    · simp
  case less => cases h; unfold comparison; split <;> simp
  case greater => cases h; unfold comparison; split <;> simp
  case other => exact symbol_kind_ne_eof h

end Cql
