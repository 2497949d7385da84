/-!
# Writing documents

Documents are written without blanks. A string escapes the quote, the backslash and the control
characters below the blank, and leaves every other character as it is.
-/

namespace Telemetry.Json

/-- The escape of a control character that has no short form. -/
def controlEscape (c : Char) : List Char :=
  ['\\', 'u', '0', '0', if c.toNat < 16 then '0' else '1', Nat.digitChar (c.toNat % 16)]

def writeChar (c : Char) : List Char :=
  if c = '"' then ['\\', '"']
  else if c = '\\' then ['\\', '\\']
  else if c = '\x08' then ['\\', 'b']
  else if c = '\x0c' then ['\\', 'f']
  else if c = '\n' then ['\\', 'n']
  else if c = '\r' then ['\\', 'r']
  else if c = '\t' then ['\\', 't']
  else if c.toNat < 32 then controlEscape c
  else [c]

def writeString (s : String) : List Char := '"' :: (s.toList.flatMap writeChar ++ ['"'])

/-- The word for an absent value, or the text of a present one. -/
def writeOption {α : Type} (write : α → List Char) : Option α → List Char
  | none => ['n', 'u', 'l', 'l']
  | some a => write a

def writeBool (b : Bool) : List Char := (if b then "true" else "false").toList

def writeMember (name : String) (value : List Char) : List Char := writeString name ++ ':' :: value

def withCommas : List (List Char) → List Char
  | [] => []
  | [part] => part
  | part :: parts => part ++ ',' :: withCommas parts

/-- An object of members that are written already. -/
def writeObject (members : List (List Char)) : List Char := '\x7b' :: (withCommas members ++ ['\x7d'])

/-- A list of values that are written already. -/
def writeList (values : List (List Char)) : List Char := '[' :: (withCommas values ++ [']'])

end Telemetry.Json
