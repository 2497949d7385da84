import Telemetry.Store.Repository

/-!
# Requests for metrics

What requests do to a repository: apply a sample, a batch or a value given as text, and look metrics
up. A metric without a name is reported as unknown, not as malformed, and so is an update without a
value. A batch is checked as a whole before any of it is applied.
-/

namespace Telemetry.Service

variable {σ : Type} [Repository σ]

def requireName (name : String) : Except Failure Unit :=
  if name = "" then .error (.metricNotFound "") else .ok ()

def countUpdate (kind : Kind) : Action σ Unit := Action.count (.updated kind) 1

/-- Applies a sample and gives the metric as it is stored then. -/
def applySample (sample : Sample) : Action σ Sample := do
  Action.ofResult (requireName sample.id)
  Repository.upsert sample
  countUpdate sample.kind
  match ← Repository.get sample.id with
  | some stored => pure (Sample.ofRecord stored)
  | none => Action.fail (.metricNotFound sample.id)

/-- Checks every sample of a batch; the first fault counts. -/
def checkBatch : List Sample → Except Failure Unit
  | [] => .ok ()
  | sample :: samples => match requireName sample.id with
    | .error failure => .error failure
    | .ok () => match sample.validate with
      | .error failure => .error failure
      | .ok () => checkBatch samples

def countUpdates : List Sample → Action σ Unit
  | [] => pure ()
  | sample :: samples => do
    countUpdate sample.kind
    countUpdates samples

/-- Checks all samples and then applies them. -/
def applyBatch (samples : List Sample) : Action σ Unit := do
  Action.ofResult (checkBatch samples)
  Repository.batch samples
  countUpdates samples

/-- The record of a name if it has a given kind. -/
def find (kind : Kind) (name : String) : Action σ Record := do
  Action.ofResult (requireName name)
  match ← Repository.get name with
  | some record => if record.kind = kind then pure record else Action.fail (.metricNotFound name)
  | none => Action.fail (.metricNotFound name)

def lookup (query : Sample) : Action σ Sample := do
  let record ← find query.kind query.id
  pure (Sample.ofRecord record)

/-- The text of the value stored under a name, where the kind is given by its name. -/
def lookupText (kind name : String) : Action σ String := do
  let kind ← Action.ofResult (Kind.ofName kind)
  let record ← find kind name
  pure record.value.text

def applyText (kind name raw : String) : Action σ Unit := do
  let kind ← Action.ofResult (Kind.ofName kind)
  Action.ofResult (requireName name)
  Action.ofResult (requireName raw)
  let value ← Action.ofResult (Value.read kind raw)
  let existing ← Repository.get name
  Repository.write name value existing
  countUpdate kind

end Telemetry.Service
