import Cql.Json
import Cql.Lexer.Tokens

/-!
Tokens kept in a list for a parser that looks ahead over the visible ones, and for a formatter that
wants the hidden ones around any token.
-/
namespace Cql

/-- The cursor is the place of the current visible token, or the end. -/
structure TokenStream where
  tokens : List Token
  cursor : Nat
deriving DecidableEq

namespace TokenStream

def visibleFrom (tokens : List Token) (i : Nat) : Nat :=
  i + ((tokens.drop i).takeWhile Token.isHidden).length

def ofTokens (tokens : List Token) : TokenStream := ⟨tokens, visibleFrom tokens 0⟩

def ofText (text : List Char) : Except LexicalError TokenStream :=
  (Lexer.ofText {} text).tokenizeAll.result.map ofTokens

def get? (s : TokenStream) (i : Nat) : Option Token := s.tokens[i]?

def length (s : TokenStream) : Nat := s.tokens.length

def isEmpty (s : TokenStream) : Bool := s.tokens.isEmpty

def significant (s : TokenStream) : List Token := s.tokens.filter fun t => !t.isHidden

/-- The visible token `k` places ahead; the current one is one place ahead. -/
def lookahead (s : TokenStream) : Nat → Option Token
  | 0 => none
  | k + 1 => ((s.tokens.drop s.cursor).filter fun t => !t.isHidden)[k]?

/-- The current token, and the stream behind it. An end token is never left behind. -/
def consume (s : TokenStream) : Option Token × TokenStream :=
  match s.get? s.cursor with
  | none => (none, s)
  | some t =>
    (some t, if t.isEof then s else { s with cursor := visibleFrom s.tokens (s.cursor + 1) })

def hiddenBefore (s : TokenStream) (i : Nat) : List Token :=
  ((s.tokens.take i).reverse.takeWhile Token.isHidden).reverse

def hiddenAfter (s : TokenStream) (i : Nat) : List Token :=
  (s.tokens.drop (i + 1)).takeWhile Token.isHidden

def text (s : TokenStream) : List Char := s.tokens.flatMap Token.text

def toJson (s : TokenStream) : List Char := Json.array (s.tokens.map Token.toJson)

end TokenStream
end Cql
