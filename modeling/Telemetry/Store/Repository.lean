import Telemetry.World
import Telemetry.Metric.Sample

/-!
# Repositories

A repository keeps one record per name. Every kind of store offers the same operations, and the rest
of the service uses stores through them alone. Whether a sample creates a metric or changes one is
decided by looking its name up first.
-/

namespace Telemetry

class Repository (σ : Type) where
  /-- The record of a name, if there is one. -/
  get : String → Action σ (Option Record)
  /-- Creates a metric. -/
  insert : Record → Action σ Unit
  /-- Applies a value to a metric that was fetched before. -/
  update : Record → Value → Action σ Unit
  /-- All records, in no particular order. -/
  getAll : Action σ (List Record)
  /-- Applies samples in order. -/
  batch : List Sample → Action σ Unit
  /-- Checks that the store can be reached. -/
  ping : Action σ Unit
  /-- Releases the store; a durable one is written first. -/
  close : Action σ Unit

namespace Repository

variable {σ : Type} [Repository σ]

/-- Updates the metric that was fetched under a name, or inserts a new one. -/
def write (name : String) (value : Value) : Option Record → Action σ Unit
  | some existing => update existing value
  | none => insert ⟨name, value⟩

/-- Applies one sample: looks its name up, and updates or inserts. -/
def upsert (sample : Sample) : Action σ Unit := do
  let record ← Action.ofResult sample.toRecord
  let existing ← get record.name
  write record.name record.value existing

end Repository

end Telemetry
