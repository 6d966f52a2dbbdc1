import Cql.Lexer.Tokens

/-!
A lexer put through a sequence of operations, with copies of it set aside and taken up again.
-/
namespace Cql

inductive Operation where
  | next | nextSignificant | peek | pull | skip | tokenize | tokenizeAll
  | position | offset | atEnd | config
  | save | restore
deriving DecidableEq

inductive Answer where
  | token (t : Token)
  | tokens (ts : List Token)
  | error (e : LexicalError)
  | character (c : Char)
  | position (p : Position)
  | offset (n : Nat)
  | atEnd (b : Bool)
  | config (c : Config)
  | nothing
deriving DecidableEq

/-- The lexer at work and the copies set aside, the last one first. -/
structure Session where
  lexer : Lexer
  saved : List Lexer
deriving DecidableEq

/-- What one operation answers, what happened, and the session after it. -/
structure Report where
  answer : Answer
  events : List Event
  session : Session
deriving DecidableEq

/-- What is logged of an operation. Only `restore` can change the configuration, and nothing
happens then. -/
def Report.log (r : Report) : List Event :=
  r.events.filter (Event.isLogged r.session.lexer.config)

namespace Answer

def ofToken : Except LexicalError Token → Answer
  | .ok t => .token t
  | .error e => .error e

def ofTokens : Except LexicalError (List Token) → Answer
  | .ok ts => .tokens ts
  | .error e => .error e

end Answer

namespace Session

def ofLexer (l : Lexer) : Session := ⟨l, []⟩

def report {α : Type} (s : Session) (answer : α → Answer) (step : Step α) : Report :=
  ⟨answer step.result, step.events, { s with lexer := step.lexer }⟩

def perform (s : Session) : Operation → Report
  | .next => s.report .ofToken s.lexer.next
  | .nextSignificant => s.report .ofToken s.lexer.nextSignificant
  | .peek => s.report .ofToken s.lexer.peek
  | .pull => s.report (fun x => (x.map Answer.ofToken).getD .nothing) s.lexer.pull
  | .skip => s.report (fun c => (c.map Answer.character).getD .nothing) s.lexer.skip
  | .tokenize => s.report .ofTokens s.lexer.tokenize
  | .tokenizeAll => s.report .ofTokens s.lexer.tokenizeAll
  | .position => ⟨.position s.lexer.position, [], s⟩
  | .offset => ⟨.offset s.lexer.position.offset, [], s⟩
  | .atEnd => ⟨.atEnd s.lexer.atEnd, [], s⟩
  | .config => ⟨.config s.lexer.config, [], s⟩
  | .save => ⟨.nothing, [], { s with saved := s.lexer :: s.saved }⟩
  | .restore =>
    match s.saved with
    | [] => ⟨.nothing, [], s⟩
    | l :: saved => ⟨.nothing, [], ⟨l, saved⟩⟩

def run (s : Session) : List Operation → List Report
  | [] => []
  | op :: ops =>
    let r := s.perform op
    r :: run r.session ops

end Session
end Cql
