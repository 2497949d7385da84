import Telemetry.Metric.Sample

/-!
# Statistics of the process and of its host

The gauges that the agent reports. A share of processor time is a percentage only when it was
measured between two readings; whatever else a reading gives counts as idle.
-/

namespace Telemetry.Agent

open Telemetry.Number

def hundred : Binary64 := .ofNat 100

/-- A share of processor time, brought into the range from zero to one hundred. -/
def percent : Binary64 → Binary64
  | .finite true m => if m.units = 0 then .finite true m else .zero
  | .finite false m =>
    if 100 * Magnitude64.unitsPerOne < m.units then hundred else .finite false m
  | _ => .zero

def amount (id : String) (n : UInt64) : Sample := .gauge id (.ofNat n.toNat)

/-- A reading of the process: sizes in bytes, the time in seconds. -/
structure ProcessReading where
  residentMemory : UInt64
  virtualMemory : UInt64
  processorShare : Binary64
  bytesRead : UInt64
  bytesWritten : UInt64
  runTime : UInt64
deriving DecidableEq

def ProcessReading.samples (reading : ProcessReading) : List Sample :=
  [amount "ResidentMemory" reading.residentMemory,
    amount "VirtualMemory" reading.virtualMemory,
    .gauge "ProcessCPUUsage" (percent reading.processorShare),
    amount "DiskReadBytes" reading.bytesRead,
    amount "DiskWrittenBytes" reading.bytesWritten,
    amount "RunTimeSeconds" reading.runTime]

def unavailable (what : String) : Failure := .invalidMetric (what ++ " unavailable on this host")

/-- The gauges of the memory of a host. A host without memory did not report any. -/
def memorySamples (total free : UInt64) : Except Failure (List Sample) :=
  if total = 0 then .error (unavailable "memory statistics")
  else .ok [amount "TotalMemory" total, amount "FreeMemory" free]

def processorSamples (share : Binary64) : List Sample :=
  [.gauge "CPUutilization1" (percent share)]

end Telemetry.Agent
