import Telemetry.Metric.Kind
import Telemetry.Json.Error

/-!
# Failures

Every operation of the service that can go wrong gives a failure. A failure is either a breach of
the contract of a metric, which no repetition can mend, or an accident of the environment. Only
accidents of the network, of the server and of files are worth another attempt.
-/

namespace Telemetry

/-- Why an operation was refused or could not be done. -/
inductive Failure where
  | metricNotFound (name : String)
  | kindMismatch (name : String) (stored incoming : Kind)
  | invalidMetric (reason : String)
  | counterOverflow (name : String)
  | file (path reason : String)
  | database (reason : String)
  | migration (reason : String)
  | serialization (error : Json.Error)
  | transport (reason : String)
  | rejected (status : Nat)
  | compression (reason : String)
  | signature (reason : String)
  | encryption (reason : String)
  | configuration (reason : String)
  | cancelled
  | other (reason : String)
deriving DecidableEq, Repr

namespace Failure

def message : Failure → String
  | .metricNotFound name => "Metric not found: " ++ name
  | .kindMismatch name stored incoming =>
    "Metric " ++ name ++ " is a " ++ stored.name ++ ", cannot apply a " ++ incoming.name ++ " value"
  | .invalidMetric reason => "Invalid metric: " ++ reason
  | .counterOverflow name => "Counter " ++ name ++ " would overflow"
  | .file path reason => "I/O error at " ++ Text.quoted path ++ ": " ++ reason
  | .database reason => "Database error: " ++ reason
  | .migration reason => "Database migration failed: " ++ reason
  | .serialization error => "Serialization error: " ++ error.message
  | .transport reason => "Transport error: " ++ reason
  | .rejected status => "Request rejected with status " ++ toString status
  | .compression reason => "Compression failed: " ++ reason
  | .signature reason => "Signature check failed: " ++ reason
  | .encryption reason => "Encryption failed: " ++ reason
  | .configuration reason => "Invalid configuration: " ++ reason
  | .cancelled => "Operation cancelled"
  | .other reason => reason

/-- Whether another attempt may succeed where this one failed. -/
def isTransient : Failure → Bool
  | .transport _ => true
  | .file _ _ => true
  | .rejected status => 500 ≤ status
  | _ => false

end Failure

end Telemetry
