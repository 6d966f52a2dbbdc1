import Cql.Error
import Cql.Unicode.Classes

/-!
The settings of a lexer, and where they come from: variables of the environment, or a text in some
format and a file that holds it.
-/
namespace Cql

def version : String := "0.1.0"

/-- With `emitHidden` blanks and comments stay among the tokens of a text, with `traceTokens` every
token is logged. -/
structure Config where
  emitHidden : Bool := false
  traceTokens : Bool := false
deriving DecidableEq

/-- A format of settings, which reads and writes their texts and gives a reason where it cannot. A
setting that a text leaves out is off. -/
structure Format where
  read : String → Except String Config
  write : Config → Except String String

/-- What is written is read as it was. -/
def Format.Lawful (f : Format) : Prop := ∀ c, ∃ text, f.write c = .ok text ∧ f.read text = .ok c

namespace Config

def merge (a b : Config) : Config where
  emitHidden := a.emitHidden || b.emitHidden
  traceTokens := a.traceTokens || b.traceTokens

def flag? (value : String) : Option Bool :=
  if ["1", "true", "yes", "on"].contains value then some true
  else if ["0", "false", "no", "off", ""].contains value then some false
  else none

/-- A variable's flag in any case and with blanks around it. A variable that is not set, or whose
value is not UTF-8, is off. -/
def readFlag (name : String) (value : Option ByteArray) : Except Error Bool :=
  match value.bind String.fromUTF8? with
  | none => .ok false
  | some text =>
    let word := String.ofList ((Unicode.trim text.toList).map Char.toLower)
    match flag? word with
    | some b => .ok b
    | none => .error (.configuration (name ++ " must be a boolean, got '" ++ word ++ "'"))

/-- The first variable that cannot be read decides the error. -/
def ofEnvironment (value : String → Option ByteArray) : Except Error Config :=
  match readFlag "CQLLEX_EMIT_HIDDEN" (value "CQLLEX_EMIT_HIDDEN") with
  | .error e => .error e
  | .ok emitHidden =>
    match readFlag "CQLLEX_TRACE_TOKENS" (value "CQLLEX_TRACE_TOKENS") with
    | .error e => .error e
    | .ok traceTokens => .ok ⟨emitHidden, traceTokens⟩

def ofText (f : Format) (text : String) : Except Error Config :=
  (f.read text).mapError .configuration

/-- The settings in a file, whose content is its bytes or the system's reason for not reading it. -/
def ofFile (f : Format) (content : Except String ByteArray) : Except Error Config :=
  match content with
  | .error reason => .error (.io reason)
  | .ok bytes =>
    match String.fromUTF8? bytes with
    | some text => ofText f text
    | none => .error (.io "stream did not contain valid UTF-8")

def toFile {α : Type} (f : Format) (save : ByteArray → Except String α) (c : Config) :
    Except Error α :=
  match f.write c with
  | .error reason => .error (.configuration reason)
  | .ok text => (save text.toUTF8).mapError .io

theorem fromUTF8?_toUTF8 (text : String) : String.fromUTF8? text.toUTF8 = some text := by
  rw [String.fromUTF8?, String.toUTF8_eq_toByteArray, dif_pos text.isValidUTF8]
  rfl

/-- A file that keeps what is saved in it gives the settings back. -/
theorem ofFile_toFile {f : Format} (h : f.Lawful) (c : Config) :
    (c.toFile f .ok).bind (fun bytes => ofFile f (.ok bytes)) = .ok c := by
  obtain ⟨text, hwrite, hread⟩ := h c
  have hsaved : c.toFile f .ok = .ok text.toUTF8 := by
    rw [toFile, hwrite]
    rfl
  have hloaded : ofFile f (.ok text.toUTF8) = .ok c := by
    simp only [ofFile, fromUTF8?_toUTF8, ofText, hread]
    rfl
  rw [hsaved]
  exact hloaded

end Config
end Cql
