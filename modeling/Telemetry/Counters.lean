import Telemetry.Metric.Kind

/-!
# Operational counters

The service counts what it does. The counters are shown as text lines, one for each counter that was
used, each family of counters after a line that gives its type, and after its description once the
descriptions are registered.
-/

namespace Telemetry

inductive Delivery where
  | batch
  | pool
deriving DecidableEq, Repr

def Delivery.name : Delivery → String
  | .batch => "batch"
  | .pool => "pool"

inductive DatabaseOperation where
  | get
  | getKind
  | insert
  | update
  | getAll
  | begin
  | commit
  | acquire
  | ping
deriving DecidableEq, Repr

def DatabaseOperation.name : DatabaseOperation → String
  | .get => "get"
  | .getKind => "get_kind"
  | .insert => "insert"
  | .update => "update"
  | .getAll => "get_all"
  | .begin => "begin"
  | .commit => "commit"
  | .acquire => "acquire"
  | .ping => "ping"

inductive Event where
  | sent (mode : Delivery)
  | sendFailed (mode : Delivery)
  | backup
  | databaseError (operation : DatabaseOperation)
  | updated (kind : Kind)
deriving DecidableEq, Repr

namespace Event

def family : Event → String
  | .sent _ => "pulse_agent_sent_total"
  | .sendFailed _ => "pulse_agent_send_failures_total"
  | .backup => "pulse_storage_backups_total"
  | .databaseError _ => "pulse_db_errors_total"
  | .updated _ => "pulse_server_updates_total"

def description : Event → String
  | .sent _ => "Metrics delivered to the server (by mode)"
  | .sendFailed _ => "Deliveries that failed after exhausting retries (by mode)"
  | .backup => "Snapshot files written"
  | .databaseError _ => "Failed database operations (by operation)"
  | .updated _ => "Metric updates applied (by type)"

/-- The label that tells the counters of a family apart. -/
def label? : Event → Option (String × String)
  | .sent mode => some ("mode", mode.name)
  | .sendFailed mode => some ("mode", mode.name)
  | .backup => none
  | .databaseError operation => some ("operation", operation.name)
  | .updated kind => some ("type", kind.name)

end Event

/-- The counters, those used first in front. -/
structure Counters where
  described : Bool
  counts : List (Event × UInt64)
deriving DecidableEq

namespace Counters

def empty : Counters := ⟨false, []⟩

def describe (counters : Counters) : Counters := { counters with described := true }

def count (counters : Counters) (event : Event) : UInt64 :=
  ((counters.counts.find? fun p => p.1 = event).map Prod.snd).getD 0

/-- Counts an event a number of times, modulo the range of a counter. -/
def add (counters : Counters) (event : Event) (n : UInt64) : Counters :=
  if counters.counts.any fun p => p.1 = event then
    { counters with counts := counters.counts.map fun p =>
        if p.1 = event then (p.1, p.2 + n) else p }
  else { counters with counts := counters.counts ++ [(event, n)] }

/-- The line that shows one counter. -/
def sampleLine (p : Event × UInt64) : String :=
  let label := match p.1.label? with
    | none => ""
    | some (name, value) => "\x7b" ++ name ++ "=\"" ++ value ++ "\"\x7d"
  p.1.family ++ label ++ " " ++ toString p.2.toNat

def samples (counters : Counters) : List String := (counters.counts.map sampleLine).mergeSort

def lines (counters : Counters) : List String :=
  let types := counters.counts.map fun p => "# TYPE " ++ p.1.family ++ " counter"
  let helps := if counters.described then
      counters.counts.map fun p => "# HELP " ++ p.1.family ++ " " ++ p.1.description
    else []
  ((helps ++ types).eraseDups ++ counters.counts.map sampleLine).mergeSort

end Counters

end Telemetry
