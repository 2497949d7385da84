import Telemetry.Json.Number
import Telemetry.Text.Quoted

/-!
# Faults of documents

Why a document does not have the wanted form, and how each cause is worded.
-/

namespace Telemetry.Json

open Telemetry.Number

/-- A value found in a document where another one was expected. -/
inductive Found where
  | null
  | boolean (b : Bool)
  | integer (n : Int)
  | float (x : Binary64)
  | text (s : String)
  | sequence
  | map
deriving DecidableEq, Repr

def Found.describe : Found → String
  | .null => "null"
  | .boolean true => "boolean `true`"
  | .boolean false => "boolean `false`"
  | .integer n => "integer `" ++ toString n ++ "`"
  | .float x => "floating point `" ++ String.ofList (floatText x) ++ "`"
  | .text s => "string " ++ Text.quoted s
  | .sequence => "sequence"
  | .map => "map"

inductive Error where
  | endsInList
  | endsInObject
  | endsInString
  | endsInValue
  | expectedColon
  | expectedListCommaOrEnd
  | expectedObjectCommaOrEnd
  | expectedWord
  | expectedValue
  | keyNotString
  | trailingComma
  | trailingCharacters
  | invalidEscape
  | invalidNumber
  | numberOutOfRange
  | invalidCodePoint
  | controlCharacter
  | loneSurrogate
  | unfinishedSurrogate
  | duplicateField (name : String)
  | missingField (name : String)
  | unknownVariant (name : String)
  | wrongType (found : Found) (expected : String)
  | wrongValue (found : Found) (expected : String)
  | wrongLength (length : Nat) (expected : String)
deriving DecidableEq, Repr

def Error.message : Error → String
  | .endsInList => "EOF while parsing a list"
  | .endsInObject => "EOF while parsing an object"
  | .endsInString => "EOF while parsing a string"
  | .endsInValue => "EOF while parsing a value"
  | .expectedColon => "expected `:`"
  | .expectedListCommaOrEnd => "expected `,` or `]`"
  | .expectedObjectCommaOrEnd => "expected `,` or `\x7d`"
  | .expectedWord => "expected ident"
  | .expectedValue => "expected value"
  | .keyNotString => "key must be a string"
  | .trailingComma => "trailing comma"
  | .trailingCharacters => "trailing characters"
  | .invalidEscape => "invalid escape"
  | .invalidNumber => "invalid number"
  | .numberOutOfRange => "number out of range"
  | .invalidCodePoint => "invalid unicode code point"
  | .controlCharacter => "control character (\\u0000-\\u001F) found while parsing a string"
  | .loneSurrogate => "lone leading surrogate in hex escape"
  | .unfinishedSurrogate => "unexpected end of hex escape"
  | .duplicateField name => "duplicate field `" ++ name ++ "`"
  | .missingField name => "missing field `" ++ name ++ "`"
  | .unknownVariant name => "unknown variant `" ++ name ++ "`, expected `gauge` or `counter`"
  | .wrongType found expected => "invalid type: " ++ found.describe ++ ", expected " ++ expected
  | .wrongValue found expected => "invalid value: " ++ found.describe ++ ", expected " ++ expected
  | .wrongLength length expected =>
    "invalid length " ++ toString length ++ ", expected " ++ expected

def NumeralError.toError : NumeralError → Error
  | .ends => .endsInValue
  | .malformed => .invalidNumber
  | .outOfRange => .numberOutOfRange

/-- The outcome of reading a part of a document: the value and the bytes after it. -/
abbrev Result (α : Type) := Except Error (α × Bytes)

end Telemetry.Json
