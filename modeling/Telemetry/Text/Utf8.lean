import Telemetry.Bytes

/-!
# Bytes that may not be text

Where bytes stop being UTF-8, and the text that is shown for bytes that are not. A fault covers the
longest run of bytes that could begin a character and does not go on as one.
-/

namespace Telemetry.Text

inductive Utf8Step where
  | char (length : Nat)
  | invalid (length : Nat)
  | incomplete
deriving DecidableEq, Repr

def isContinuation (b : UInt8) : Bool := 0x80 ≤ b && b ≤ 0xbf

/-- The bytes that may follow the first byte of a character of three or four bytes. -/
def secondRange (b : UInt8) : UInt8 × UInt8 :=
  if b = 0xe0 then (0xa0, 0xbf)
  else if b = 0xed then (0x80, 0x9f)
  else if b = 0xf0 then (0x90, 0xbf)
  else if b = 0xf4 then (0x80, 0x8f)
  else (0x80, 0xbf)

/-- The rest of a character of which `seen` bytes were seen and `missing` are to follow. -/
def continueStep (seen : Nat) : Nat → Bytes → Utf8Step
  | 0, _ => .char seen
  | _ + 1, [] => .incomplete
  | missing + 1, b :: rest =>
    if isContinuation b then continueStep (seen + 1) missing rest else .invalid seen

/-- The first item in the bytes after a first one. -/
def utf8Step (first : UInt8) (rest : Bytes) : Utf8Step :=
  if first < 0x80 then .char 1
  else if 0xc2 ≤ first && first ≤ 0xdf then continueStep 1 1 rest
  else if 0xe0 ≤ first && first ≤ 0xf4 then
    match rest with
    | [] => .incomplete
    | second :: more =>
      let (least, most) := secondRange first
      if least ≤ second && second ≤ most then
        continueStep 2 (if first ≤ 0xef then 1 else 2) more
      else .invalid 1
  else .invalid 1

/-- Where bytes stop being UTF-8, said as part of a message; `index` is the place of the first. -/
def utf8Fault? (index : Nat) : Nat → Bytes → Option String
  | 0, _ => none
  | _, [] => none
  | fuel + 1, b :: rest => match utf8Step b rest with
    | .char length => utf8Fault? (index + length) fuel (rest.drop (length - 1))
    | .invalid length => some <|
      "invalid utf-8 sequence of " ++ toString length ++ " bytes from index " ++ toString index
    | .incomplete => some ("incomplete utf-8 byte sequence from index " ++ toString index)

/-- The bytes with every fault replaced by the encoding of the replacement character. -/
def repaired : Nat → Bytes → Bytes
  | 0, _ => []
  | _, [] => []
  | fuel + 1, b :: rest => match utf8Step b rest with
    | .char length => (b :: rest.take (length - 1)) ++ repaired fuel (rest.drop (length - 1))
    | .invalid length => 0xef :: 0xbf :: 0xbd :: repaired fuel (rest.drop (length - 1))
    | .incomplete => [0xef, 0xbf, 0xbd]

/-- The text of bytes, or what is wrong with them. -/
def ofUtf8 (bytes : Bytes) : Except String String :=
  match Bytes.toString? bytes with
  | some s => .ok s
  | none => .error ((utf8Fault? 0 (bytes.length + 1) bytes).getD "invalid utf-8")

def shown (bytes : Bytes) : String :=
  (Bytes.toString? (repaired (bytes.length + 1) bytes)).getD ""

end Telemetry.Text
