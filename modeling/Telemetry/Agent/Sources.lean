import Telemetry.Agent.Collector

/-!
# The sources of a host

An agent reads its own process, the memory of the host and its processors. The process also marks the
cycle. Each of the three may be out of reach at any tick.
-/

namespace Telemetry.Agent

open Telemetry.Number

inductive Missing where
  | identity
  | statistics
  | entry
deriving DecidableEq

def Missing.name : Missing → String
  | .identity => "own pid"
  | .statistics => "process statistics"
  | .entry => "process entry"

def processSource (readings : Nat → Except Missing ProcessReading) (random : Nat → Binary64) :
    Source where
  read tick := match readings tick with
    | .ok reading => .ok reading.samples
    | .error missing => .error (unavailable missing.name)
  cycle := some random

/-- The source of the memory of the host, given as all of it and what is free. -/
def memorySource (sizes : Nat → UInt64 × UInt64) : Source where
  read tick := memorySamples (sizes tick).1 (sizes tick).2
  cycle := none

/-- The source of the processors. A host that does not show any gives no share. -/
def processorSource (shares : Nat → Option Binary64) : Source where
  read tick := match shares tick with
    | some share => .ok (processorSamples share)
    | none => .error (unavailable "cpu statistics")
  cycle := none

end Telemetry.Agent
