import Cql.Position
import Cql.TokenKind
import Cql.Unicode.Escape

/-!
Tokens: a piece of the text, its kind and its place.
-/
namespace Cql

/-- The fields `start` and `stop` are byte offsets; `index` counts the tokens of a text, hidden
ones too. -/
structure Token where
  kind : TokenKind
  text : List Char
  channel : Channel
  position : Position
  start : Nat
  stop : Nat
  index : Nat
deriving DecidableEq

namespace Token

def of (kind : TokenKind) (text : List Char) (position : Position) (index : Nat) : Token where
  kind := kind
  text := text
  channel := kind.channel
  position := position
  start := position.offset
  stop := position.offset + utf8Size text
  index := index

def isHidden (t : Token) : Bool := t.channel = .hidden

def isEof (t : Token) : Bool := t.kind = .eof

def display (t : Token) : String :=
  t.kind.name ++ "('" ++ Unicode.escapeText t.text ++ "') at " ++ t.position.display

@[simp] theorem isHidden_of (kind : TokenKind) (text : List Char) (position : Position)
    (index : Nat) : (of kind text position index).isHidden = kind.isHidden := by
  cases h : kind.isHidden <;> simp [of, isHidden, TokenKind.channel, h]

end Token
end Cql
