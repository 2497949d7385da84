import Telemetry.Metric.Value

/-!
# Stored metrics

A record is a metric as a store keeps it: its name and its present value. Applying an observation
replaces a gauge and adds to a counter, and never changes the kind.
-/

namespace Telemetry

structure Record where
  name : String
  value : Value
deriving DecidableEq

namespace Record

def kind (record : Record) : Kind := record.value.kind

/-- The record after an observation. A sum outside the signed 64-bit integers and a value of the
other kind are refused. -/
def apply (record : Record) (incoming : Value) : Except Failure Record :=
  match record.value, incoming with
  | .counter stored, .counter delta => match addExact? stored delta with
    | some sum => .ok { record with value := .counter sum }
    | none => .error (.counterOverflow record.name)
  | .gauge _, .gauge x => .ok { record with value := .gauge x }
  | stored, incoming => .error (.kindMismatch record.name stored.kind incoming.kind)

theorem apply_name {record after : Record} {incoming : Value}
    (h : record.apply incoming = .ok after) : after.name = record.name := by
  unfold apply at h
  split at h
  · split at h
    · cases h; rfl
    · simp at h
  · cases h; rfl
  · simp at h

theorem apply_kind {record after : Record} {incoming : Value}
    (h : record.apply incoming = .ok after) : after.kind = record.kind := by
  unfold apply at h
  split at h
  · rename_i hs
    split at h
    · cases h; simp [kind, hs, Value.kind]
    · simp at h
  · rename_i hs
    cases h; simp [kind, hs, Value.kind]
  · simp at h

end Record

end Telemetry
