import Cql.Keyword
import Cql.Symbol

/-!
What a token can be: a symbol, a keyword, or one of the classes whose text varies.
-/
namespace Cql

/-- Parsers see the visible channel; blanks and comments are on the hidden one. -/
inductive Channel where
  | visible | hidden
deriving DecidableEq

def Channel.tag : Channel → String
  | .visible => "Default"
  | .hidden => "Hidden"

/-- Some kinds belong to the vocabulary and are found in no text: `mysqlComment`, `realLiteral` and
the symbols of the two quotes. -/
inductive TokenKind where
  | symbol (s : Symbol)
  | keyword (k : Keyword)
  | space | mysqlComment | lineComment | blockComment
  | codeBlock | stringLiteral | decimalLiteral | floatLiteral | hexadecimalLiteral | realLiteral
  | objectName | uuidLiteral
  | eof
deriving DecidableEq

namespace TokenKind

/-- The name a token of this kind is reported under. -/
def tag : TokenKind → String
  | .symbol s => s.tag
  | .keyword k => k.tag
  | .space => "Space"
  | .mysqlComment => "SpecMysqlComment"
  | .lineComment => "LineComment"
  | .blockComment => "BlockComment"
  | .codeBlock => "CodeBlock"
  | .stringLiteral => "StringLiteral"
  | .decimalLiteral => "DecimalLiteral"
  | .floatLiteral => "FloatLiteral"
  | .hexadecimalLiteral => "HexadecimalLiteral"
  | .realLiteral => "RealLiteral"
  | .objectName => "ObjectName"
  | .uuidLiteral => "UuidLiteral"
  | .eof => "Eof"

/-- The name of the kind in the language's vocabulary. -/
def name : TokenKind → String
  | .symbol s => s.name
  | .keyword k => "K_" ++ k.word
  | .space => "SPACE"
  | .mysqlComment => "SPEC_MYSQL_COMMENT"
  | .lineComment => "LINE_COMMENT"
  | .blockComment => "COMMENT_INPUT"
  | .codeBlock => "CODE_BLOCK"
  | .stringLiteral => "STRING_LITERAL"
  | .decimalLiteral => "DECIMAL_LITERAL"
  | .floatLiteral => "FLOAT_LITERAL"
  | .hexadecimalLiteral => "HEXADECIMAL_LITERAL"
  | .realLiteral => "REAL_LITERAL"
  | .objectName => "OBJECT_NAME"
  | .uuidLiteral => "UUID"
  | .eof => "EOF"

def all : List TokenKind :=
  Symbol.all.map .symbol ++ Keyword.all.map .keyword ++
    [.space, .mysqlComment, .lineComment, .blockComment, .codeBlock, .stringLiteral,
      .decimalLiteral, .floatLiteral, .hexadecimalLiteral, .realLiteral, .objectName,
      .uuidLiteral, .eof]

def ofTag? (tag : String) : Option TokenKind := all.find? fun k => k.tag = tag

/-- The spelling of a kind that has only one, letter case aside. -/
def fixedText? : TokenKind → Option String
  | .symbol s => some (String.ofList s.text)
  | .keyword k => some k.word
  | _ => none

def literalName? : TokenKind → Option String
  | .symbol s => some ("'" ++ String.ofList s.text ++ "'")
  | _ => none

def display (k : TokenKind) : String := k.fixedText?.getD k.name

def isKeyword : TokenKind → Bool
  | .keyword _ => true
  | _ => false

def isHidden : TokenKind → Bool
  | .space | .mysqlComment | .lineComment | .blockComment => true
  | _ => false

def isLiteral : TokenKind → Bool
  | .codeBlock | .stringLiteral | .decimalLiteral | .floatLiteral => true
  | .hexadecimalLiteral | .realLiteral | .uuidLiteral => true
  | _ => false

def isOperator : TokenKind → Bool
  | .symbol s => s.isOperator
  | _ => false

def isPunctuation : TokenKind → Bool
  | .symbol s => s.isPunctuation
  | _ => false

def channel (k : TokenKind) : Channel := if k.isHidden then .hidden else .visible

end TokenKind
end Cql
