import Telemetry.Store.Snapshot
import Telemetry.Store.Sql
import Telemetry.Settings.Server

/-!
# The store of a server

A server uses one kind of store, chosen by its settings when it starts.
-/

namespace Telemetry

inductive Store where
  | memory (store : MemoryStore)
  | snapshot (store : SnapshotStore)
  | sql (store : SqlStore)
deriving DecidableEq

namespace Store

/-- An operation of repositories on a store of any kind. -/
def dispatch {α : Type} (onMemory : Action MemoryStore α) (onSnapshot : Action SnapshotStore α)
    (onSql : Action SqlStore α) : Action Store α := fun world =>
  match world.store with
  | .memory store => onMemory.onPart .memory store world
  | .snapshot store => onSnapshot.onPart .snapshot store world
  | .sql store => onSql.onPart .sql store world

instance : Repository Store where
  get name := dispatch (Repository.get name) (Repository.get name) (Repository.get name)
  insert record :=
    dispatch (Repository.insert record) (Repository.insert record) (Repository.insert record)
  update existing value :=
    dispatch (Repository.update existing value) (Repository.update existing value)
      (Repository.update existing value)
  getAll := dispatch Repository.getAll Repository.getAll Repository.getAll
  batch samples :=
    dispatch (Repository.batch samples) (Repository.batch samples) (Repository.batch samples)
  ping := dispatch Repository.ping Repository.ping Repository.ping
  close := dispatch Repository.close Repository.close Repository.close

/-- Opens the store that settings ask for. -/
def openFor {σ : Type} (settings : ServerSettings) : Action σ Store :=
  match settings.store with
  | .sql source => .sql <$> SqlStore.openAt source
  | .snapshot path =>
    .snapshot <$>
      SnapshotStore.openAt (some path) (1000 * settings.storeInterval.toNat) settings.restore
  | .memory => pure (.memory MemoryStore.empty)

end Store

end Telemetry
