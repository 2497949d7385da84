import Telemetry.Proofs.Concurrency.Interleaving
import Telemetry.Proofs.Service.Update
import Telemetry.Proofs.Store.Memory

/-!
# The steps of an update of the store in memory

The store in memory is locked for one operation at a time. A single update looks its name up under one
lock and writes under another; a batch takes the lock for each of its entries, which are looked up and
written at once. Between two steps of an update other calls may take theirs; an update that nothing
comes between does what the request does.
-/

namespace Telemetry

open Service

namespace MemoryStore

inductive Stage where
  | waiting (update : Update)
  /-- The name was looked up and not found. -/
  | creating (record : Record) (shows : Bool)
  /-- The name was looked up and found. -/
  | changing (existing : Record) (value : Value) (shows : Bool)
  /-- The batch is in order, and some of its samples are left. -/
  | applying (left all : List Sample)
  | showing (name : String)
  | finished (result : Except Failure Answer)

namespace Stage

def lookUp (shows : Bool) : Except Failure Record → World MemoryStore → Stage × World MemoryStore
  | .error failure, world => (.finished (.error failure), world)
  | .ok record, world => match Repository.get record.name world with
    | (.error failure, after) => (.finished (.error failure), after)
    | (.ok none, after) => (.creating record shows, after)
    | (.ok (some existing), after) => (.changing existing record.value shows, after)

def wrote (name : String) (kind : Kind) (shows : Bool) :
    Except Failure Unit × World MemoryStore → Stage × World MemoryStore
  | (.error failure, after) => (.finished (.error failure), after)
  | (.ok (), after) =>
    (if shows then .showing name else .finished (.ok .done), after.count (.updated kind) 1)

def step : Stage → World MemoryStore → Stage × World MemoryStore
  | .waiting (.one sample), world => lookUp true (Update.recordOfSample sample) world
  | .waiting (.text kind name raw), world => lookUp false (Update.recordOfText kind name raw) world
  | .waiting (.batch samples), world => match checkBatch samples with
    | .error failure => (.finished (.error failure), world)
    | .ok () => (.applying samples samples, world)
  | .creating record shows, world =>
    wrote record.name record.kind shows (Repository.insert record world)
  | .changing existing value shows, world =>
    wrote existing.name value.kind shows (Repository.update existing value world)
  | .applying [] all, world => (.finished (.ok .done), (countUpdates all world).2)
  | .applying (sample :: left) all, world => match Repository.batch [sample] world with
    | (.error failure, after) => (.finished (.error failure), after)
    | (.ok (), after) => (.applying left all, after)
  | .showing name, world => match Update.showStored name world with
    | (result, after) => (.finished result, after)
  | .finished result, world => (.finished result, world)

/-! ### The steps are those of the update -/

/-- What is left to do, done at once. -/
def perform : Stage → Action MemoryStore Answer
  | .waiting update => update.perform
  | .creating record shows => do
    Repository.insert record
    Update.conclude record.name record.kind shows
  | .changing existing value shows => do
    Repository.update existing value
    Update.conclude existing.name value.kind shows
  | .applying left all => do
    Repository.batch left
    countUpdates all
    pure .done
  | .showing name => Update.showStored name
  | .finished result => Action.ofResult result

theorem get_apply (name : String) (world : World MemoryStore) :
    Repository.get name world = (.ok (world.store.get? name), world) := rfl

theorem perform_lookUp (shows : Bool) (record : Except Failure Record) (world : World MemoryStore) :
    (lookUp shows record world).1.perform (lookUp shows record world).2
      = Update.performRecord record shows world := by
  cases record with
  | error failure => rfl
  | ok record =>
    rw [Update.performRecord, Action.ofResult_ok_bind, Action.bind_apply, lookUp, get_apply]
    cases hfind : world.store.get? record.name with
    | none => rfl
    | some existing =>
      have hname : existing.name = record.name := (Contents.find?_name hfind).2
      simp only [perform, hname]
      rfl

theorem perform_wrote (name : String) (kind : Kind) (shows : Bool) (write : Action MemoryStore Unit)
    (world : World MemoryStore) :
    (wrote name kind shows (write world)).1.perform (wrote name kind shows (write world)).2
      = (do write; Update.conclude name kind shows : Action MemoryStore Answer) world := by
  rw [Action.bind_apply]
  rcases write world with ⟨failure | ⟨⟨⟩⟩, world⟩
  · rfl
  · cases shows <;> rfl

/-- A step takes nothing away from what is left to do and adds nothing. -/
theorem perform_step (stage : Stage) (world : World MemoryStore) :
    (stage.step world).1.perform (stage.step world).2 = stage.perform world := by
  cases stage with
  | waiting update =>
    cases update with
    | one sample =>
      rw [perform, Update.perform_one]
      exact perform_lookUp _ _ _
    | text kind name raw =>
      rw [perform, Update.perform_text]
      exact perform_lookUp _ _ _
    | batch samples =>
      simp only [step, perform, Update.perform, applyBatch, Action.bind_assoc]
      cases checkBatch samples <;> rfl
  | creating record shows => exact perform_wrote _ _ _ _ _
  | changing existing value shows => exact perform_wrote _ _ _ _ _
  | applying left all =>
    cases left with
    | nil =>
      obtain ⟨hcount, _⟩ := Update.countUpdates_apply all world
      have hbatch : (Repository.batch [] : Action MemoryStore Unit) world = (.ok (), world) := rfl
      simp only [step, perform, Action.bind_apply, hbatch]
      generalize countUpdates all world = counted at hcount ⊢
      obtain ⟨result, after⟩ := counted
      cases hcount
      rfl
    | cons sample left =>
      rw [perform, batch_cons, Action.bind_assoc, Action.bind_apply]
      simp only [step]
      rcases Repository.batch [sample] world with ⟨failure | ⟨⟨⟩⟩, after⟩ <;> rfl
  | showing name => rfl
  | finished result => rfl

/-- An update that nothing comes between does what the request does. -/
theorem perform_of_run_alone {update : Update} {result : Except Failure Answer}
    {world after : World MemoryStore} {schedule : List Nat}
    (hrun : (⟨[waiting update], world⟩ : Scene Stage (World MemoryStore)).run step schedule
      = ⟨[finished result], after⟩) : update.perform world = (result, after) :=
  (Scene.run_alone (f := perform) perform_step hrun).symm

end Stage

end MemoryStore

end Telemetry
