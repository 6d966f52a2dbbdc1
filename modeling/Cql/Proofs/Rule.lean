import Cql.Error
import Cql.Proofs.Pattern
import Cql.TokenKind

/-!
The lexical rules, and which of them wins at a place: the one with the longest match, and among
matches of one length the rule declared first.
-/
namespace Cql

/-- A quote opens a literal and is no symbol of a text. -/
def Symbol.isQuote (s : Symbol) : Bool := s = .singleQuote || s = .doubleQuote

namespace Pattern
open Scan
open scoped Computability

def digit : Language Char := one Char.isDigit

def hex : Language Char := one isHexDigit

def ex : Language Char := one fun c => c = 'x' ∨ c = 'X'

def sign : Language Char := one fun c => c = '+' ∨ c = '-'

def exponent : Language Char := one (fun c => c = 'e' ∨ c = 'E') * opt sign * plus digit

def wholeFloat : Language Char :=
  plus digit * {['.']} * digit∗ * opt exponent + plus digit * exponent

def pointFloat : Language Char := {['.']} * plus digit * opt exponent

/-- A line that is commented out, up to its newline. -/
def line : Language Char :=
  ({['#']} + {['/', '/']} + {['-', '-', ' ']}) * (one (· ≠ '\n'))∗

def stringPart : Language Char :=
  {['\\']} * one (fun _ => true) + {['\'', '\'']} + one fun c => c ≠ '\\' ∧ c ≠ '\''

def namePart : Language Char := {['"', '"']} + one (· ≠ '"')

end Pattern

/-- In the order of their declaration. -/
inductive Rule where
  | space | lineComment | blockComment | stringLiteral | quotedName | codeBlock | uuid
  | hexadecimal | float | decimal | word
  | symbol (s : Symbol)
deriving DecidableEq

namespace Rule
open Pattern Scan
open scoped Computability

def rank : Rule → Nat
  | .space => 0 | .lineComment => 1 | .blockComment => 2 | .stringLiteral => 3
  | .quotedName => 4 | .codeBlock => 5 | .uuid => 6 | .hexadecimal => 7 | .float => 8
  | .decimal => 9 | .word => 10
  | .symbol s => 11 + Symbol.all.idxOf s

/-- What a rule takes wherever it stands. -/
def pattern : Rule → Language Char
  | .space => plus (one isBlank)
  | .lineComment => line * {['\n']} + {['-', '-', '\n']} + {['-', '-', '\r', '\n']}
  | .blockComment => {['/', '*']} * through ['*', '/']
  | .stringLiteral => {['\'']} * (stringPart∗ * {['\'']})
  | .quotedName => {['"']} * (namePart∗ * {['"']})
  | .codeBlock => {['$', '$']} * through ['$', '$']
  | .uuid =>
    hex ^ 8 * {['-']} * hex ^ 4 * {['-']} * hex ^ 4 * {['-']} * hex ^ 4 * {['-']} * hex ^ 12
  | .hexadecimal => {['0']} * ex * plus hex + ex * {['\'']} * plus (hex * hex) * {['\'']}
  | .float => opt {['-']} * wholeFloat + pointFloat
  | .decimal => opt {['-']} * plus digit
  | .word => one Char.isAlpha * (one isWordChar)∗
  | .symbol s => if s.isQuote then 0 else {s.text}

/-- What a rule takes only where the text ends. -/
def openPattern : Rule → Language Char
  | .lineComment => line + {['-', '-']}
  | .blockComment => {['/', '*']} * without ['*', '/']
  | _ => 0

/-- A run of blanks goes on while it can, and a quote before another one does not close. -/
def continues : Rule → Char → Bool
  | .space, c => isBlank c
  | .stringLiteral, c => c = '\''
  | .quotedName, c => c = '"'
  | _, _ => false

def Takes (rule : Rule) (w after : List Char) : Prop :=
  w ∈ rule.pattern ∧ (∀ c ∈ after.head?, rule.continues c = false) ∨
    w ∈ rule.openPattern ∧ after = []

/-- A rule matches a word at the front of a text. -/
def Fits (cs : List Char) (rule : Rule) (w : List Char) : Prop :=
  ∃ after, cs = w ++ after ∧ rule.Takes w after

/-- No match is longer, and no rule declared before matches as much. -/
def Best (cs : List Char) (rule : Rule) (w : List Char) : Prop :=
  Fits cs rule w ∧ ∀ rule' w', Fits cs rule' w' →
    w'.length < w.length ∨ w'.length = w.length ∧ rule.rank ≤ rule'.rank

/-- The kind of the token a rule makes of a word. What has the spelling of a keyword, in letters of
either case, is that keyword. -/
def kind (w : List Char) : Rule → TokenKind
  | .space => .space
  | .lineComment => .lineComment
  | .blockComment => .blockComment
  | .stringLiteral => .stringLiteral
  | .quotedName => .objectName
  | .codeBlock => .codeBlock
  | .uuid => .uuidLiteral
  | .hexadecimal => .hexadecimalLiteral
  | .float => .floatLiteral
  | .decimal => .decimalLiteral
  | .word =>
    match Keyword.all.find? fun k => k.word.toList = w.map Char.toUpper with
    | some k => .keyword k
    | none => .objectName
  | .symbol s => .symbol s

/-- Where no rule fits: a literal is opened and never closed, or nothing starts with the first
character. -/
def missing : Char → List Char → Fault
  | '\'', _ => .unterminated .string
  | '"', _ => .unterminated .quotedName
  | '$', '$' :: _ => .unterminated .codeBlock
  | c, _ => .unrecognized c

theorem takes_of_openPattern_zero {rule : Rule} {w after : List Char}
    (h : rule.openPattern = 0) :
    rule.Takes w after ↔ w ∈ rule.pattern ∧ ∀ c ∈ after.head?, rule.continues c = false := by
  rw [Takes, h]
  simp [Language.notMem_zero]

theorem fits_iff {rule : Rule} {cs w : List Char} (h : rule.openPattern = 0)
    (hc : ∀ c, rule.continues c = false) : Fits cs rule w ↔ w <+: cs ∧ w ∈ rule.pattern := by
  constructor
  · intro h
    obtain ⟨after, rfl, ht⟩ := h
    exact ⟨List.prefix_append w after, ((takes_of_openPattern_zero h).1 ht).1⟩
  · intro h
    obtain ⟨⟨after, rfl⟩, hw⟩ := h
    exact ⟨after, rfl, (takes_of_openPattern_zero h).2 ⟨hw, fun c _ => hc c⟩⟩

theorem fits_symbol {s : Symbol} {cs w : List Char} :
    Fits cs (.symbol s) w ↔ w <+: cs ∧ s.isQuote = false ∧ w = s.text := by
  rw [fits_iff rfl fun _ => rfl, pattern]
  cases s.isQuote
  · simp [mem_only]
  · simp [Language.notMem_zero]

theorem rank_injective {r r' : Rule} (h : r.rank = r'.rank) : r = r' := by
  cases r <;> cases r' <;> simp only [rank] at h <;> first | rfl | omega | skip
  case symbol s t =>
    have hs : s ∈ Symbol.all := by cases s <;> decide
    exact congrArg Rule.symbol ((List.idxOf_inj hs).1 (by omega))

theorem Best.unique {cs w w' : List Char} {rule rule' : Rule} (h : Best cs rule w)
    (h' : Best cs rule' w') : rule = rule' ∧ w = w' := by
  obtain ⟨⟨after, rfl, ht⟩, hb⟩ := h
  obtain ⟨⟨after', he, ht'⟩, hb'⟩ := h'
  have h₁ := hb rule' w' ⟨after', he, ht'⟩
  have h₂ := hb' rule w ⟨after, rfl, ht⟩
  exact ⟨rank_injective (by omega), (List.append_inj he (by omega)).1⟩

end Rule
end Cql
