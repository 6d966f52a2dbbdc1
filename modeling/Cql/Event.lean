import Cql.Config
import Cql.Error
import Cql.Token

/-!
What happens to a lexer at work, and what of it is logged.
-/
namespace Cql

/-- A token is taken, a scan fails, or a character is given up, with the position behind it. -/
inductive Event where
  | scanned (token : Token)
  | failed (error : LexicalError)
  | skipped (character : Char) (position : Position)
deriving DecidableEq

namespace Event

def isFailure : Event → Bool
  | .failed _ => true
  | _ => false

def isLogged (c : Config) : Event → Bool
  | .scanned _ => c.traceTokens
  | _ => true

def display : Event → String
  | .scanned token => "TRACE " ++ token.display
  | .failed error => "DEBUG lexical error: " ++ error.message
  | .skipped character position =>
    "DEBUG skipped " ++ Unicode.quoteChar character ++ " at " ++ position.display

end Event
end Cql
