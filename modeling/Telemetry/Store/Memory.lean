import Telemetry.Store.Repository

/-!
# The store in memory

A list of records with at most one of each name. A batch is applied entry by entry; an entry that is
refused ends it, and the entries before stay applied.
-/

namespace Telemetry

structure MemoryStore where
  records : List Record
deriving DecidableEq

namespace MemoryStore

def empty : MemoryStore := ⟨[]⟩

def get? (store : MemoryStore) (name : String) : Option Record :=
  store.records.find? fun record => record.name == name

/-- The store with a record put in the place of the one of its name. -/
def put (store : MemoryStore) (record : Record) : MemoryStore :=
  if store.records.any fun other => other.name == record.name then
    ⟨store.records.map fun other => if other.name == record.name then record else other⟩
  else ⟨store.records ++ [record]⟩

def apply (store : MemoryStore) (name : String) (value : Value) : Except Failure MemoryStore :=
  match store.get? name with
  | none => .error (.metricNotFound name)
  | some stored => (stored.apply value).map store.put

/-- The store after one sample was applied to it, looked up and written at once. -/
def applySample (store : MemoryStore) (sample : Sample) : Except Failure MemoryStore :=
  match sample.toRecord with
  | .error failure => .error failure
  | .ok incoming => match store.get? incoming.name with
    | some stored => (stored.apply incoming.value).map store.put
    | none => .ok (store.put incoming)

/-- Applies samples until one is refused. -/
def applySamples (store : MemoryStore) : List Sample → Except Failure Unit × MemoryStore
  | [] => (.ok (), store)
  | sample :: samples => match store.applySample sample with
    | .error failure => (.error failure, store)
    | .ok after => after.applySamples samples

/-- A change of the store as an action that keeps the store when the change is refused. -/
def change (f : MemoryStore → Except Failure MemoryStore) : Action MemoryStore Unit := fun world =>
  match f world.store with
  | .ok after => (.ok (), { world with store := after })
  | .error failure => (.error failure, world)

instance : Repository MemoryStore where
  get name := fun world => (.ok (world.store.get? name), world)
  insert record := change fun store => .ok (store.put record)
  update existing value := change fun store => store.apply existing.name value
  getAll := fun world => (.ok world.store.records, world)
  batch samples := fun world =>
    match world.store.applySamples samples with
    | (result, after) => (result, { world with store := after })
  ping := pure ()
  close := pure ()

end MemoryStore

end Telemetry
