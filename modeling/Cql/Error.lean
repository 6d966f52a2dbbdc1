import Cql.Position
import Cql.Unicode.Escape

/-!
What can go wrong, and how it is said.
-/
namespace Cql

inductive Literal where
  | string | quotedName | codeBlock
deriving DecidableEq

def Literal.display : Literal → String
  | .string => "string literal"
  | .quotedName => "quoted object name"
  | .codeBlock => "code block"

inductive Fault where
  | unterminated (literal : Literal)
  | unrecognized (character : Char)
deriving DecidableEq

structure LexicalError where
  fault : Fault
  position : Position
deriving DecidableEq

def LexicalError.message (e : LexicalError) : String :=
  match e.fault with
  | .unterminated literal =>
    "Unterminated " ++ literal.display ++ " starting at " ++ e.position.display
  | .unrecognized character =>
    "Unrecognized character " ++ Unicode.quoteChar character ++ " at " ++ e.position.display

/-- An `invalidOffset` names no place between characters of a text of `length` bytes; `io` has the
system's reason for not reading or writing a file. -/
inductive Error where
  | lexical (e : LexicalError)
  | invalidOffset (offset length : Nat)
  | configuration (reason : String)
  | io (reason : String)
deriving DecidableEq

namespace Error

def message : Error → String
  | .lexical e => e.message
  | .invalidOffset offset length =>
    "Invalid offset " ++ toString offset ++ " for input of " ++ toString length ++ " bytes"
  | .configuration reason => "Configuration error: " ++ reason
  | .io reason => "I/O error: " ++ reason

def isLexical : Error → Bool
  | .lexical _ => true
  | _ => false

def position? : Error → Option Position
  | .lexical e => some e.position
  | _ => none

def offset? (e : Error) : Option Nat := e.position?.map Position.offset

end Error
end Cql
