import Cql.Token

/-!
Tokens as JSON text without blanks, the fields always in the same order.
-/
namespace Cql
namespace Json

/-- Quotes, backslashes and controls are escaped, all other characters stand for themselves. -/
def escape (c : Char) : List Char :=
  if c = '"' then ['\\', '"']
  else if c = '\\' then ['\\', '\\']
  else if c = '\x08' then ['\\', 'b']
  else if c = '\t' then ['\\', 't']
  else if c = '\n' then ['\\', 'n']
  else if c = '\x0c' then ['\\', 'f']
  else if c = '\r' then ['\\', 'r']
  else if c.toNat < 32 then
    ['\\', 'u', '0', '0', (c.toNat / 16).digitChar, (c.toNat % 16).digitChar]
  else [c]

def string (cs : List Char) : List Char := '"' :: cs.flatMap escape ++ ['"']

def natural (n : Nat) : List Char := Nat.toDigits 10 n

def commaSeparated : List (List Char) → List Char
  | [] => []
  | [x] => x
  | x :: y :: xs => x ++ ',' :: commaSeparated (y :: xs)

def array (values : List (List Char)) : List Char := '[' :: commaSeparated values ++ [']']

def object (fields : List (String × List Char)) : List Char :=
  '{' :: commaSeparated (fields.map fun f => string f.1.toList ++ ':' :: f.2) ++ ['}']

end Json

open Json

def TokenKind.toJson (k : TokenKind) : List Char := string k.tag.toList

def Channel.toJson (c : Channel) : List Char := string c.tag.toList

def Position.toJson (p : Position) : List Char :=
  object [("line", natural p.line), ("column", natural p.column), ("offset", natural p.offset)]

def Token.toJson (t : Token) : List Char :=
  object [
    ("token_type", t.kind.toJson),
    ("text", string t.text),
    ("channel", t.channel.toJson),
    ("position", t.position.toJson),
    ("start", natural t.start),
    ("end", natural t.stop),
    ("index", natural t.index)]

end Cql
