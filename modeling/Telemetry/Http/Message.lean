import Telemetry.Failure
import Telemetry.Bytes

/-!
# Requests and responses

A request is taken after the transport has read it whole. A header is found by its name in small or
capital letters; of several the first counts, and a value that holds anything but visible ASCII,
blanks and tabs is no value. A response carries the few headers that the service sets.
-/

namespace Telemetry.Http

structure Request where
  method : String
  target : String
  headers : List (String × String)
  body : Bytes
deriving DecidableEq

def isReadable (c : Char) : Bool := c = '\t' || (' ' ≤ c && c ≤ '~')

/-- A text in small letters. -/
def lowered (text : String) : List Char := text.toList.map Char.toLower

/-- What follows the scheme and the slashes after it, if a target names one. -/
def afterScheme? : List Char → Option (List Char)
  | [] => none
  | ':' :: '/' :: '/' :: rest => some rest
  | c :: rest => if c = '/' then none else afterScheme? rest

def endsPath (c : Char) : Bool := c = '?' || c = '#'

/-- The path of a target without its query. A target that begins with a scheme and a host has the
root as its path when it names none. -/
def pathOf (target : List Char) : List Char :=
  match afterScheme? target with
  | none => target.takeWhile fun c => !endsPath c
  | some rest =>
    let path := (rest.dropWhile fun c => c ≠ '/' && !endsPath c).takeWhile fun c => !endsPath c
    if path.isEmpty then ['/'] else path

namespace Request

/-- The value of a header whose name is given in small letters. -/
def header? (request : Request) (name : String) : Option String :=
  match request.headers.find? fun p => lowered p.1 == name.toList with
  | some (_, value) => if value.toList.all isReadable then some value else none
  | none => none

def path (request : Request) : List Char := pathOf request.target.toList

/-- Whether the body is said to be JSON. -/
def isJson (request : Request) : Bool :=
  match request.header? "content-type" with
  | some value => "application/json".toList.isPrefixOf value.toList
  | none => false

def bodyLimit : Nat := 2 * 1024 * 1024

def isTooLarge (request : Request) : Bool := decide (bodyLimit < request.body.length)

end Request

/-- A response. The length is that of the body before it is dropped from the answer to a request for
the headers alone. -/
structure Response where
  status : Nat
  contentType : Option String
  allow : Option String
  signature : Option String
  length : Nat
  body : Bytes
deriving DecidableEq

namespace Response

def withBody (status : Nat) (contentType : String) (body : Bytes) : Response :=
  ⟨status, some contentType, none, none, body.length, body⟩

/-- A response that consists of its status. -/
def bare (status : Nat) : Response := ⟨status, none, none, none, 0, []⟩

def plainType : String := "text/plain; charset=utf-8"

def pageType : String := "text/html; charset=utf-8"

def jsonType : String := "application/json"

def plain (status : Nat) (text : String) : Response :=
  withBody status plainType (Bytes.ofString text)

def reason (status : Nat) : String :=
  match status with
  | 400 => "Bad Request"
  | 403 => "Forbidden"
  | 404 => "Not Found"
  | 415 => "Unsupported Media Type"
  | 500 => "Internal Server Error"
  | _ => ""

def refusal (status : Nat) : Response := plain status (reason status)

/-- The headers in the order of their names. -/
def headers (response : Response) : List (String × String) :=
  let optional (name : String) (value : Option String) : List (String × String) :=
    value.toList.map fun value => (name, value)
  optional "allow" response.allow ++ [("content-length", toString response.length)]
    ++ optional "content-type" response.contentType ++ optional "hashsha256" response.signature

end Response

/-- The status of the answer to a request that failed. A breach of the contract of a metric and a
body that cannot be read are the fault of the client, all else is that of the server. -/
def statusOf : Failure → Nat
  | .metricNotFound _ => 404
  | .invalidMetric _ => 400
  | .kindMismatch _ _ _ => 400
  | .counterOverflow _ => 400
  | .serialization _ => 400
  | .compression _ => 400
  | .signature _ => 400
  | .encryption _ => 400
  | _ => 500

/-- The answer to a request that failed. -/
def Response.ofFailure (failure : Failure) : Response := refusal (statusOf failure)

end Telemetry.Http
