import Telemetry.Agent.Sender
import Telemetry.Crypto.Rsa
import Telemetry.Crypto.Signature
import Telemetry.Codec.Gzip
import Telemetry.Http.Message
import Telemetry.Net.Location
import Telemetry.Settings.Agent

/-!
# The client

How the agent puts its metrics into requests. A body is encrypted if there is a key, signed if there
is a secret, and compressed last. Batches are too long for the encryption and go without it. Only a
status of 200 is success.
-/

namespace Telemetry.Http

structure Client where
  baseUrl : String
  secret : Option String
  key : Option Rsa.PublicKey
  localAddress : Option Net.IpAddress

/-- The way of a request to the server: the status of the answer, or why there is none. -/
def Network (σ : Type) : Type := Request → σ → Except String Nat × σ

namespace Client

/-- The client that the settings of an agent ask for. The routes of the host give the address that
it names as its own. -/
def ofSettings (disk : Disk) (route : Net.SocketAddress → Option Net.IpAddress)
    (settings : AgentSettings) : Except Rsa.KeyFault Client :=
  let baseUrl := settings.serverUrl
  let client (key : Option Rsa.PublicKey) : Client :=
    ⟨baseUrl, settings.secret, key, Net.outboundAddress Net.localLookup route baseUrl⟩
  match settings.cryptoKey with
  | none => .ok (client none)
  | some path => (Rsa.loadKey Rsa.PublicKey.ofText? disk path).map fun key => client (some key)

def request (client : Client) (path : String) (body : Bytes) : Request where
  method := "POST"
  target := client.baseUrl ++ path
  headers := [("content-type", "application/json"), ("content-encoding", "gzip")]
    ++ client.localAddress.toList.map (fun address => ("X-Real-IP", String.ofList address.text))
    ++ client.secret.toList.map fun secret => ("HashSHA256", Signature.sign body secret)
  body := Gzip.compress body

/-- The body that is sent for the text of one metric; `random` gives padding of a length. -/
def cover (client : Client) (random : Nat → Bytes) (text : Bytes) : Except Failure Bytes :=
  match client.key with
  | some key => Rsa.encrypt key random text
  | none => .ok text

def sampleRequest (client : Client) (random : Nat → Bytes) (sample : Sample) :
    Except Failure Request :=
  (client.cover random sample.toBytes).map (client.request "/update/")

def batchRequest (client : Client) (samples : List Sample) : Request :=
  client.request "/updates/" (Sample.listToBytes samples)

def verdict : Except String Nat → Except Failure Unit
  | .error reason => .error (.transport reason)
  | .ok status => if status = 200 then .ok () else .error (.rejected status)

variable {σ : Type}

def post (network : Network σ) (request : Request) : Action σ Unit := fun world =>
  let (answer, store) := network request world.store
  (verdict answer, { world with store })

/-- A client as the way of an agent to its server. -/
def transport (client : Client) (random : Nat → Bytes) (network : Network σ) :
    Agent.Transport σ where
  sendOne sample := do
    let request ← Action.ofResult (client.sampleRequest random sample)
    post network request
  sendAll samples := post network (client.batchRequest samples)

end Client

end Telemetry.Http
