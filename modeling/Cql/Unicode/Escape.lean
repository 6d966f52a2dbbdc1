import Cql.Unicode.Classes

/-!
Characters and texts made visible for messages, to be written between quotes.
-/
namespace Cql.Unicode

def codePoint (c : Char) : List Char :=
  ['\\', 'u', '{'] ++ Nat.toDigits 16 c.toNat ++ ['}']

/-- One character with `quotes` escaped. A combining character that has nothing to combine with
shows as its code point. -/
def escape (quotes : List Char) (combines : Bool) (c : Char) : List Char :=
  if c = '\x00' then ['\\', '0']
  else if c = '\t' then ['\\', 't']
  else if c = '\r' then ['\\', 'r']
  else if c = '\n' then ['\\', 'n']
  else if c = '\\' || quotes.contains c then ['\\', c]
  else if isPrintable c && (combines || !isCombining c) then [c]
  else codePoint c

def quoteChar (c : Char) : String := String.ofList ('\'' :: escape ['\''] false c ++ ['\''])

/-- A text with both kinds of quotes escaped; only its first character has none before it. -/
def escapeText : List Char → String
  | [] => ""
  | c :: cs => String.ofList
      (escape ['\'', '"'] false c ++ cs.flatMap (escape ['\'', '"'] true))

end Cql.Unicode
