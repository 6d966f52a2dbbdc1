import Cql.Config
import Cql.Cursor
import Cql.Cursor.Comment
import Cql.Cursor.Number
import Cql.Cursor.Quoted
import Cql.Cursor.Scan
import Cql.Cursor.Word
import Cql.Error
import Cql.Event
import Cql.Json
import Cql.Keyword
import Cql.Lexer
import Cql.Lexer.Located
import Cql.Lexer.Recovery
import Cql.Lexer.Session
import Cql.Lexer.Tokens
import Cql.Position
import Cql.Proofs.Ahead
import Cql.Proofs.Answers
import Cql.Proofs.Bounds
import Cql.Proofs.Configuration
import Cql.Proofs.Consumption
import Cql.Proofs.Failure
import Cql.Proofs.HiddenRuns
import Cql.Proofs.Indexed
import Cql.Proofs.Interfaces
import Cql.Proofs.Iteration
import Cql.Proofs.JsonText
import Cql.Proofs.Keywords
import Cql.Proofs.LetterCase
import Cql.Proofs.Located
import Cql.Proofs.Log
import Cql.Proofs.LongestMatch
import Cql.Proofs.Lookahead
import Cql.Proofs.Passes
import Cql.Proofs.Path
import Cql.Proofs.Pattern
import Cql.Proofs.Positions
import Cql.Proofs.Quoting
import Cql.Proofs.Recovery
import Cql.Proofs.Reprint
import Cql.Proofs.Resumption
import Cql.Proofs.Rule
import Cql.Proofs.Rule.Best
import Cql.Proofs.Rule.BestNumber
import Cql.Proofs.Rule.Comment
import Cql.Proofs.Rule.Hexadecimal
import Cql.Proofs.Rule.Lead
import Cql.Proofs.Rule.Number
import Cql.Proofs.Rule.Quoted
import Cql.Proofs.Rule.Uuid
import Cql.Proofs.Rule.Word
import Cql.Proofs.Separation
import Cql.Proofs.StreamCursor
import Cql.Proofs.Stuck
import Cql.Proofs.Tiling
import Cql.Proofs.Translation
import Cql.Proofs.Truncation
import Cql.Proofs.Turns
import Cql.Proofs.View
import Cql.Scan
import Cql.Scan.Comment
import Cql.Scan.Lexeme
import Cql.Scan.Number
import Cql.Scan.Quoted
import Cql.Scan.Word
import Cql.Symbol
import Cql.Token
import Cql.TokenKind
import Cql.TokenStream
import Cql.TokenStream.Session
import Cql.Unicode.Classes
import Cql.Unicode.Escape
import Cql.Utf8
