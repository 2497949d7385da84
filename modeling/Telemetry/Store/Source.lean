import Telemetry.Text.Percent
import Telemetry.Text.Quoted
import Telemetry.Failure

/-!
# Names of databases

Where a database is kept is named by a text: a path, possibly after the scheme, and parameters. The
name `:memory:` and the memory mode stand for a database that lives as long as the store.
-/

namespace Telemetry

/-- Where a database is kept and how it is opened. -/
structure Source where
  /-- The path of the file; without one the database is kept in memory. -/
  path : Option String
  /-- Whether the file must be there already and is only read. -/
  readOnly : Bool
  /-- Whether the file is taken to be on a medium that cannot be written. -/
  immutable : Bool
  /-- The name of a storage layer that was asked for. -/
  storage : Option String
deriving DecidableEq, Repr

namespace Source

/-- A text without all repetitions of another one in front. The first argument bounds them. -/
def stripRepeated (front : List Char) : Nat → List Char → List Char
  | 0, cs => cs
  | fuel + 1, cs =>
    if front.isPrefixOf cs then stripRepeated front fuel (cs.drop front.length) else cs

/-- The part after the scheme. -/
def withoutScheme (cs : List Char) : List Char :=
  let cs := stripRepeated "sqlite://".toList cs.length cs
  stripRepeated "sqlite:".toList cs.length cs

def refused (reason : String) : Failure :=
  .configuration ("Invalid DSN: error with configuration: " ++ reason)

def unknownValue (name value : String) : Failure :=
  refused ("unknown value " ++ Text.quoted value ++ " for " ++ "`" ++ name ++ "`")

def applyParameter (source : Source) (name value : String) : Except Failure Source :=
  if name = "mode" then
    if value = "ro" then .ok { source with readOnly := true }
    else if value = "rw" || value = "rwc" then .ok source
    else if value = "memory" then .ok { source with path := none }
    else .error (unknownValue name value)
  else if name = "cache" then
    if value = "private" || value = "shared" then .ok source
    else .error (unknownValue name value)
  else if name = "immutable" then
    if value = "true" || value = "1" then .ok { source with immutable := true }
    else if value = "false" || value = "0" then .ok { source with immutable := false }
    else .error (unknownValue name value)
  else if name = "vfs" then .ok { source with storage := some value }
  else .error (refused
    ("unknown query parameter " ++ "`" ++ name ++ "`" ++ " while parsing connection URL"))

/-- A source after parameters in order. -/
def applyParameters (source : Source) : List (String × String) → Except Failure Source
  | [] => .ok source
  | (name, value) :: more => match source.applyParameter name value with
    | .error failure => .error failure
    | .ok source => source.applyParameters more

/-- The path that the part before the parameters names, if it names a file. -/
def path? (name : String) : Except Failure (Option String) :=
  if name = ":memory:" then .ok none
  else match Text.ofUtf8 (Text.percentDecode (Bytes.ofString name)) with
    | .error reason => .error (refused reason)
    | .ok path => .ok (if path = "" then none else some path)

def parse (text : String) : Except Failure Source :=
  let cs := withoutScheme text.toList
  let name := String.ofList (cs.takeWhile (· ≠ '?'))
  let parameters := Bytes.ofString (String.ofList ((cs.dropWhile (· ≠ '?')).drop 1))
  match path? name with
  | .error failure => .error failure
  | .ok path => applyParameters ⟨path, false, false, none⟩ (Text.parameters parameters)

end Source

end Telemetry
