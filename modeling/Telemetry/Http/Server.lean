import Telemetry.Http.Route
import Telemetry.Net.Subnet
import Telemetry.Service.Body
import Telemetry.Service.Metrics
import Telemetry.Service.Page

/-!
# The server

How a request is answered. A client outside the trusted subnet is refused before anything else is
looked at. A body is refused for its size before its type, and only then decompressed, checked,
decrypted and read. Answers in JSON are signed when there is a secret.
-/

namespace Telemetry.Http

variable {σ : Type} [Repository σ]

/-- The settings of a server that its answers depend on. -/
structure Server where
  secret : Option String
  key : Option Rsa.PrivateKey
  subnet : Option Net.Subnet

/-- How the body of a route is protected. -/
structure Protection where
  signed : Bool
  encrypted : Bool
deriving DecidableEq

abbrev Handler (σ : Type) := World σ → Response × World σ

/-- The answer that nothing is done for. -/
def answered (response : Response) : Handler σ := fun world => (response, world)

/-- The answer of an action, or that to its failure. -/
def answer (action : Action σ Response) : Handler σ := fun world =>
  match action world with
  | (.ok response, after) => (response, after)
  | (.error failure, after) => (.ofFailure failure, after)

/-- The answer to a path one of whose parameters is refused. -/
def withParameters {α : Type} (parameters : Except Response α) (handler : α → Handler σ) :
    Handler σ :=
  match parameters with
  | .error response => answered response
  | .ok a => handler a

namespace Server

def content (server : Server) (protection : Protection) (request : Request) :
    Except Failure Bytes :=
  Service.decodeBody ⟨request.header? "content-encoding", request.header? "hashsha256"⟩ request.body
    (if protection.signed then server.secret else none)
    (if protection.encrypted then server.key else none)

/-- The text in the body of a request that has to be in JSON. -/
def decode (server : Server) (protection : Protection) (request : Request) :
    Except Response Bytes :=
  if !request.isJson then .error (.refusal 415)
  else (server.content protection request).mapError Response.ofFailure

def json (server : Server) (body : Bytes) : Response :=
  { Response.withBody 200 Response.jsonType body with
    signature := server.secret.map (Signature.sign body) }

/-- Answers a request by what its body holds. -/
def answerBody (server : Server) (protection : Protection) (request : Request)
    (act : Bytes → Action σ Bytes) : Handler σ :=
  if request.isTooLarge then
    answered (.plain 413 "Failed to buffer the request body: length limit exceeded")
  else match server.decode protection request with
    | .error response => answered response
    | .ok content => answer do
      let body ← act content
      pure (server.json body)

def updateBody (content : Bytes) : Action σ Bytes := do
  let sample ← Action.ofResult (Sample.ofBytes content)
  let stored ← Service.applySample sample
  pure stored.toBytes

def updatesBody (content : Bytes) : Action σ Bytes := do
  let samples ← Action.ofResult (Sample.listOfBytes content)
  Service.applyBatch samples
  pure []

def valueBody (content : Bytes) : Action σ Bytes := do
  let query ← Action.ofResult (Sample.ofBytes content)
  let found ← Service.lookup query
  pure found.toBytes

/-- Answers a request on a route, whatever its method. -/
def onRoute (server : Server) (request : Request) : Route → Handler σ
  | .index => answer do
    let page ← Service.indexPage
    pure (.withBody 200 Response.pageType (Bytes.ofString page))
  | .ping => answer do
    Repository.ping
    pure (.bare 200)
  | .update => server.answerBody ⟨true, true⟩ request updateBody
  | .updates => server.answerBody ⟨true, false⟩ request updatesBody
  | .value => server.answerBody ⟨false, false⟩ request valueBody
  | .updateText kind name raw =>
    withParameters (do
      let kind ← parameter "type" kind
      let name ← parameter "name" name
      let raw ← parameter "value" raw
      pure (kind, name, raw)) fun (kind, name, raw) => answer do
        Service.applyText kind name raw
        pure (.bare 200)
  | .valueText kind name =>
    withParameters (do
      let kind ← parameter "type" kind
      let name ← parameter "name" name
      pure (kind, name)) fun (kind, name) => answer do
        let text ← Service.lookupText kind name
        pure (.plain 200 text)

/-- Whether the client of a request may talk to the server. -/
def admits (server : Server) (request : Request) : Bool :=
  match server.subnet with
  | some subnet => subnet.allows (request.header? "x-real-ip")
  | none => true

/-- What the route and the method of a request add to its answer: the methods that are allowed where
the method is not, and a request for the headers alone gets no body. -/
def finish (route : Option Route) (method : String) (response : Response) : Response :=
  match route with
  | none => response
  | some route =>
    if route.accepts method then
      if method = "HEAD" then { response with body := [] } else response
    else { response with allow := some route.allowed }

/-- Answers a request that is admitted. -/
def dispatch (server : Server) (route : Option Route) (request : Request) : Handler σ :=
  match route with
  | none => answered (.bare 404)
  | some route =>
    if route.accepts request.method then server.onRoute request route else answered (.bare 405)

def handle (server : Server) (request : Request) : Handler σ := fun world =>
  let route := Route.ofPath? request.path
  let (response, after) :=
    if server.admits request then server.dispatch route request world
    else (.refusal 403, world)
  (finish route request.method response, after)

end Server

end Telemetry.Http
