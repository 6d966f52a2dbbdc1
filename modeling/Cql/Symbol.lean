/-!
The symbols of the language: separators and operators that are always written the same way.
-/
namespace Cql

inductive Symbol where
  | leftParen | rightParen | leftBrace | rightBrace | leftBracket | rightBracket | comma
  | semicolon | colon | doubleQuote | singleQuote | dot | star | divide | modulo | plus
  | minusMinus | minus | equal | less | greater | lessEqual | greaterEqual
deriving DecidableEq

namespace Symbol

def text : Symbol → List Char
  | .leftParen => ['('] | .rightParen => [')'] | .leftBrace => ['{'] | .rightBrace => ['}']
  | .leftBracket => ['['] | .rightBracket => [']'] | .comma => [','] | .semicolon => [';']
  | .colon => [':'] | .doubleQuote => ['"'] | .singleQuote => ['\''] | .dot => ['.']
  | .star => ['*'] | .divide => ['/'] | .modulo => ['%'] | .plus => ['+']
  | .minusMinus => ['-', '-'] | .minus => ['-'] | .equal => ['='] | .less => ['<']
  | .greater => ['>'] | .lessEqual => ['<', '='] | .greaterEqual => ['>', '=']

def tag : Symbol → String
  | .leftParen => "LeftParen" | .rightParen => "RightParen" | .leftBrace => "LeftBrace"
  | .rightBrace => "RightBrace" | .leftBracket => "LeftBracket" | .rightBracket => "RightBracket"
  | .comma => "Comma" | .semicolon => "Semicolon" | .colon => "Colon"
  | .doubleQuote => "DoubleQuote" | .singleQuote => "SingleQuote" | .dot => "Dot"
  | .star => "Star" | .divide => "Divide" | .modulo => "Modulo" | .plus => "Plus"
  | .minusMinus => "MinusMinus" | .minus => "Minus" | .equal => "Equal" | .less => "Less"
  | .greater => "Greater" | .lessEqual => "LessEqual" | .greaterEqual => "GreaterEqual"

def name : Symbol → String
  | .leftParen => "LR_BRACKET" | .rightParen => "RR_BRACKET" | .leftBrace => "LC_BRACKET"
  | .rightBrace => "RC_BRACKET" | .leftBracket => "LS_BRACKET" | .rightBracket => "RS_BRACKET"
  | .comma => "COMMA" | .semicolon => "SEMI" | .colon => "COLON" | .doubleQuote => "DQUOTE"
  | .singleQuote => "SQUOTE" | .dot => "DOT" | .star => "STAR" | .divide => "DIVIDE"
  | .modulo => "MODULE" | .plus => "PLUS" | .minusMinus => "MINUSMINUS" | .minus => "MINUS"
  | .equal => "OPERATOR_EQ" | .less => "OPERATOR_LT" | .greater => "OPERATOR_GT"
  | .lessEqual => "OPERATOR_LTE" | .greaterEqual => "OPERATOR_GTE"

def all : List Symbol := [
  .leftParen, .rightParen, .leftBrace, .rightBrace, .leftBracket, .rightBracket, .comma,
  .semicolon, .colon, .doubleQuote, .singleQuote, .dot, .star, .divide, .modulo, .plus,
  .minusMinus, .minus, .equal, .less, .greater, .lessEqual, .greaterEqual]

def isOperator : Symbol → Bool
  | .dot | .star | .divide | .modulo | .plus | .minusMinus | .minus => true
  | .equal | .less | .greater | .lessEqual | .greaterEqual => true
  | _ => false

def isPunctuation (s : Symbol) : Bool := !s.isOperator

/-- The symbol that a character is on its own. The quotes open literals and are not among them. -/
def ofChar? : Char → Option Symbol
  | '(' => some .leftParen
  | ')' => some .rightParen
  | '{' => some .leftBrace
  | '}' => some .rightBrace
  | '[' => some .leftBracket
  | ']' => some .rightBracket
  | ',' => some .comma
  | ';' => some .semicolon
  | ':' => some .colon
  | '.' => some .dot
  | '*' => some .star
  | '/' => some .divide
  | '%' => some .modulo
  | '+' => some .plus
  | '-' => some .minus
  | '=' => some .equal
  | '<' => some .less
  | '>' => some .greater
  | _ => none

end Symbol
end Cql
