import Cql.TokenStream

/-!
A stream of tokens put through a sequence of calls.
-/
namespace Cql.TokenStream

/-- What a stream can be asked for. Of all calls only `consume` moves the cursor. -/
inductive Call where
  | lookahead (k : Nat) | get (i : Nat) | consume
  | hiddenBefore (i : Nat) | hiddenAfter (i : Nat)
  | tokens | significant | length | isEmpty | text | toJson
deriving DecidableEq

inductive Reply where
  | token (t : Option Token)
  | tokens (ts : List Token)
  | length (n : Nat)
  | isEmpty (b : Bool)
  | text (cs : List Char)
deriving DecidableEq

def perform (s : TokenStream) : Call → Reply × TokenStream
  | .lookahead k => (.token (s.lookahead k), s)
  | .get i => (.token (s.get? i), s)
  | .consume => (.token s.consume.1, s.consume.2)
  | .hiddenBefore i => (.tokens (s.hiddenBefore i), s)
  | .hiddenAfter i => (.tokens (s.hiddenAfter i), s)
  | .tokens => (.tokens s.tokens, s)
  | .significant => (.tokens s.significant, s)
  | .length => (.length s.length, s)
  | .isEmpty => (.isEmpty s.isEmpty, s)
  | .text => (.text s.text, s)
  | .toJson => (.text s.toJson, s)

def run (s : TokenStream) : List Call → List (Reply × TokenStream)
  | [] => []
  | call :: calls => s.perform call :: run (s.perform call).2 calls

def after (s : TokenStream) : List Call → TokenStream
  | [] => s
  | call :: calls => (s.perform call).2.after calls

end Cql.TokenStream
