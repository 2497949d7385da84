import Telemetry.Store.Memory
import Telemetry.Retry

/-!
# The store with a snapshot file

A store in memory that is written to a file as a whole: one sample per line, in the place of what the
file held before. A change is followed by a backup when the interval since the last one has passed,
and by none when the change was refused. Closing writes the file once more and lets go of it.
-/

namespace Telemetry

structure Backup where
  path : String
  place : Place
  /-- The least time between backups, in milliseconds. -/
  interval : Nat
  isOpen : Bool
  /-- The time of the last backup. -/
  stored : Option Nat
deriving DecidableEq

def Backup.isDue (backup : Backup) (now : Nat) : Bool :=
  backup.interval = 0 || match backup.stored with
    | none => true
    | some stored => backup.interval < now - stored

/-- A store in memory and its file, if it has one. -/
structure SnapshotStore where
  memory : MemoryStore
  backup : Option Backup
deriving DecidableEq

namespace Snapshot

/-- The bytes of a snapshot: one sample per line. -/
def encode (records : List Record) : Bytes :=
  records.flatMap fun record => (Sample.ofRecord record).toBytes ++ [10]

/-- The records of samples, up to the first one that describes none. -/
def toRecords : List Sample → List Record × Option Failure
  | [] => ([], none)
  | sample :: samples => match sample.toRecord with
    | .error failure => ([], some failure)
    | .ok record =>
      let (records, failure) := toRecords samples
      (record :: records, failure)

/-- The records in the bytes of a snapshot. The first fault, of a document or of a sample, refuses
the whole. -/
def decode (bytes : Bytes) : Except Failure (List Record) :=
  let (samples, fault) := Sample.reader.stream bytes
  match toRecords samples, fault with
  | (_, some failure), _ => .error failure
  | (_, none), some fault => .error (.serialization fault)
  | (records, none), none => .ok records

/-- The store that a snapshot is restored to; of records of one name the last one stays. -/
def restore (bytes : Bytes) : Except Failure MemoryStore :=
  (decode bytes).map fun records => records.foldl MemoryStore.put MemoryStore.empty

end Snapshot

namespace SnapshotStore

def writeBackup (backup : Backup) : Action SnapshotStore Unit := fun world =>
  if backup.isOpen then
    let content := Snapshot.encode world.store.memory.records
    let host := world.host
    (.ok (), {
      store := { world.store with backup := some { backup with stored := some host.now } }
      host := { host with
        disk := host.disk.put backup.place (.file content)
        counters := host.counters.add .backup 1 } })
  else (.error (.file backup.path FileFault.closed.message), world)

/-- Writes the file now, if there is one. -/
def backupNow : Action SnapshotStore Unit := fun world =>
  match world.store.backup with
  | none => (.ok (), world)
  | some backup => writeBackup backup world

def backupIfDue : Action SnapshotStore Unit := fun world =>
  match world.store.backup with
  | none => (.ok (), world)
  | some backup =>
    if backup.isDue world.host.now then writeBackup backup world else (.ok (), world)

/-- Writes the file once more and lets go of it. -/
def closeBackup : Action SnapshotStore Unit := fun world =>
  match world.store.backup with
  | none => (.ok (), world)
  | some backup =>
    if backup.isOpen then
      match writeBackup backup world with
      | (.error failure, after) => (.error failure, after)
      | (.ok (), after) => (.ok (), { after with store := { after.store with
          backup := after.store.backup.map fun backup => { backup with isOpen := false } } })
    else (.ok (), world)

def inMemory {α : Type} (action : Action MemoryStore α) : Action SnapshotStore α := fun world =>
  action.onPart (fun memory => { world.store with memory }) world.store.memory world

instance : Repository SnapshotStore where
  get name := inMemory (Repository.get name)
  insert record := do
    inMemory (Repository.insert record)
    backupIfDue
  update existing value := do
    inMemory (Repository.update existing value)
    backupIfDue
  getAll := inMemory Repository.getAll
  batch samples := do
    inMemory (Repository.batch samples)
    backupIfDue
  ping := pure ()
  close := closeBackup

def isDurable (store : SnapshotStore) : Bool := store.backup.isSome

/-- Opens the file of a path, which is made if it is not there. -/
def openFile {σ : Type} (path : String) : Action σ Place := fun world =>
  match world.host.disk.create path with
  | .ok (place, disk) => (.ok place, { world with host := { world.host with disk } })
  | .error fault => (.error (.file path fault.message), world)

/-- Opens a store with the file of a path, or without a file. The file is opened under the standard
schedule, and its records are restored if that is wanted. -/
def openAt {σ : Type} (path : Option String) (interval : Nat) (restore : Bool) :
    Action σ SnapshotStore :=
  match path with
  | none => pure ⟨MemoryStore.empty, none⟩
  | some path => do
    let place ← Schedule.standard.run none (openFile path)
    let memory ← fun world =>
      (if restore then Snapshot.restore (world.host.disk.bytesAt place) else .ok MemoryStore.empty,
        world)
    pure ⟨memory, some ⟨path, place, interval, true, none⟩⟩

end SnapshotStore

end Telemetry
