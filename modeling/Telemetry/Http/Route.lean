import Telemetry.Http.Message
import Telemetry.Text.Percent

/-!
# Routes

The paths that the server knows, and the methods that it answers there. A parameter is one segment
of the path, percent-encoded. The last parameter of a path is never empty, the others may be.
-/

namespace Telemetry.Http

/-- A path that the server knows; parameters stand as they are written. -/
inductive Route where
  | index
  | ping
  | update
  | updateText (kind name raw : String)
  | updates
  | value
  | valueText (kind name : String)
deriving DecidableEq, Repr

namespace Route

/-- The route of the segments that slashes separate. -/
def ofSegments? : List String → Option Route
  | ["", ""] => some .index
  | ["", "ping"] => some .ping
  | ["", "update", ""] => some .update
  | ["", "update", kind, name, raw] =>
    if raw = "" then none else some (.updateText kind name raw)
  | ["", "updates", ""] => some .updates
  | ["", "value", ""] => some .value
  | ["", "value", kind, name] => if name = "" then none else some (.valueText kind name)
  | _ => none

def ofPath? (path : List Char) : Option Route :=
  ofSegments? ((path.splitOn '/').map String.ofList)

def isReading : Route → Bool
  | .index => true
  | .ping => true
  | .valueText _ _ => true
  | _ => false

def accepts (route : Route) (method : String) : Bool :=
  if route.isReading then method == "GET" || method == "HEAD" else method == "POST"

/-- The methods of a route, as its refusals name them. -/
def allowed (route : Route) : String := if route.isReading then "GET,HEAD" else "POST"

end Route

/-- The text that a parameter of a path stands for, or the answer to one that stands for none. -/
def parameter (name segment : String) : Except Response String :=
  match Bytes.toString? (Text.percentDecode (Bytes.ofString segment)) with
  | some text => .ok text
  | none => .error (.plain 400 ("Invalid URL: Invalid UTF-8 in `" ++ name ++ "`"))

end Telemetry.Http
