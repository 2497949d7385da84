import Telemetry.Proofs.Concurrency.MemoryCalls
import Telemetry.Proofs.Store.Mutation

/-!
# The steps of a change of the store with a snapshot file

The records are locked for one operation at a time, and the file by a lock of its own, which a change
takes after it was made in memory and keeps until the file is written. So other calls may change the
records between a change and its look at the records, and between that look and the writing of what
was seen. A change that nothing comes between does what the request does.
-/

namespace Telemetry

open Repository

namespace SnapshotStore

/-- What calls in progress share: the store with its surroundings, and the lock of the file. -/
structure Shared where
  world : World SnapshotStore
  isLocked : Bool

inductive Stage where
  | waiting (mutation : Mutation)
  /-- The change was refused in memory and has changed nothing. -/
  | refused (failure : Failure)
  /-- Some samples of the batch are left. -/
  | applying (left : List Sample)
  /-- The change was made in memory. -/
  | changed
  /-- The file is locked. -/
  | entered
  /-- The file is locked, and these records were read for it. -/
  | read (records : List Record)
  /-- The file is locked, and nothing is left to be done to it. -/
  | leaving (result : Except Failure Unit)
  | finished (result : Except Failure Unit)
  /-- A sample of the batch was refused, and those before it stay in memory. -/
  | stopped (failure : Failure)

/-- Writes the file with records that were read before, whatever the records are by now. -/
def rewrite (records : List Record) : Action SnapshotStore Unit := fun world =>
  match backupNow (withMemory world ⟨records⟩) with
  | (result, after) => (result, withMemory after world.store.memory)

namespace Stage

/-- The step that changes the records, with what follows when it is done and when it is refused. -/
def make (change : Action MemoryStore Unit) (done : Stage) (refused : Failure → Stage)
    (shared : Shared) : Stage × Shared :=
  match inMemory change shared.world with
  | (.error failure, world) => (refused failure, { shared with world })
  | (.ok (), world) => (done, { shared with world })

/-- The step that looks a name up, and leaves the record to be inserted or applied. -/
def lookUp : Except Failure Record → Shared → Stage × Shared
  | .error failure, shared => (.refused failure, shared)
  | .ok record, shared => match Repository.get record.name shared.world with
    | (.error failure, world) => (.refused failure, { shared with world })
    | (.ok none, world) => (.waiting (.insert record), { shared with world })
    | (.ok (some existing), world) => (.waiting (.update existing record.value), { shared with world })

def step : Stage → Shared → Stage × Shared
  | .waiting (.insert record), shared => make (Repository.insert record) .changed .refused shared
  | .waiting (.update existing value), shared =>
    make (Repository.update existing value) .changed .refused shared
  | .waiting (.upsert sample), shared => lookUp sample.toRecord shared
  | .waiting (.batch samples), shared => (.applying samples, shared)
  | .refused failure, shared => (.refused failure, shared)
  | .applying [], shared => (.changed, shared)
  | .applying (sample :: left), shared =>
    make (Repository.batch [sample]) (.applying left) .stopped shared
  | .changed, shared => match shared.world.store.backup with
    | none => (.finished (.ok ()), shared)
    | some _ =>
      if shared.isLocked then (.changed, shared) else (.entered, { shared with isLocked := true })
  | .entered, shared =>
    if shared.world.store.backup.any (·.isDue shared.world.host.now) then
      (.read shared.world.store.memory.records, shared)
    else (.leaving (.ok ()), shared)
  | .read records, shared => match rewrite records shared.world with
    | (result, world) => (.leaving result, { shared with world })
  | .leaving result, shared => (.finished result, { shared with isLocked := false })
  | .finished result, shared => (.finished result, shared)
  | .stopped failure, shared => (.stopped failure, shared)

/-! ### The steps are those of the change -/

/-- What is left to do, done at once. -/
def perform : Stage → Action SnapshotStore Unit
  | .waiting mutation => mutation.perform
  | .refused failure => Action.fail failure
  | .applying left => Repository.batch left
  | .changed => backupIfDue
  | .entered => backupIfDue
  | .read records => rewrite records
  | .leaving result => Action.ofResult result
  | .finished result => Action.ofResult result
  | .stopped failure => Action.fail failure

theorem rewrite_read (world : World SnapshotStore) :
    rewrite world.store.memory.records world = backupNow world := by
  change (match backupNow world with
    | (result, after) => (result, withMemory after world.store.memory)) = backupNow world
  cases hbackup : world.store.backup with
  | none =>
    rw [backupNow, hbackup]
    rfl
  | some backup =>
    rw [backupNow_eq hbackup]
    cases backup.isOpen <;> rfl

theorem perform_make {change : Action MemoryStore Unit} (refused : Failure → Stage)
    (hrefused : ∀ failure, (refused failure).perform = Action.fail failure) (done : Stage)
    (shared : Shared) :
    (make change done refused shared).1.perform (make change done refused shared).2.world
      = (do inMemory change; done.perform : Action SnapshotStore Unit) shared.world := by
  rw [make, Action.bind_apply]
  rcases inMemory change shared.world with ⟨failure | ⟨⟨⟩⟩, world⟩
  · dsimp only
    rw [hrefused]
    rfl
  · rfl

theorem perform_lookUp (record : Except Failure Record) (shared : Shared) :
    (lookUp record shared).1.perform (lookUp record shared).2.world = (do
      let record ← Action.ofResult record
      let existing ← Repository.get record.name
      Repository.write record.name record.value existing : Action SnapshotStore Unit)
        shared.world := by
  cases record with
  | error failure => rfl
  | ok record =>
    rw [Action.ofResult_ok_bind, Action.bind_apply, lookUp]
    rcases Repository.get record.name shared.world with ⟨failure | _ | existing, world⟩ <;> rfl

theorem inMemory_bind {α β : Type} (action : Action MemoryStore α) (next : α → Action MemoryStore β) :
    inMemory (action >>= next) = inMemory action >>= fun a => inMemory (next a) := by
  funext world
  rw [Action.bind_apply, inMemory, inMemory, Action.onPart, Action.onPart, Action.bind_apply]
  rcases action ⟨world.store.memory, world.host⟩ with ⟨failure | a, after⟩ <;> rfl

theorem batch_cons (sample : Sample) (left : List Sample) :
    (Repository.batch (sample :: left) : Action SnapshotStore Unit)
      = (do inMemory (Repository.batch [sample]); Repository.batch left) := by
  change (inMemory (Repository.batch (sample :: left)) >>= fun _ => backupIfDue) = _
  rw [MemoryStore.batch_cons sample left, inMemory_bind, Action.bind_assoc]
  rfl

theorem perform_step (stage : Stage) (shared : Shared) :
    (stage.step shared).1.perform (stage.step shared).2.world = stage.perform shared.world := by
  cases stage with
  | waiting mutation =>
    cases mutation with
    | insert record => exact perform_make refused (fun _ => rfl) .changed shared
    | update existing value => exact perform_make refused (fun _ => rfl) .changed shared
    | upsert sample => exact perform_lookUp sample.toRecord shared
    | batch samples => rfl
  | refused failure => rfl
  | applying left =>
    cases left with
    | nil => rfl
    | cons sample left =>
      rw [perform, batch_cons]
      exact perform_make stopped (fun _ => rfl) (.applying left) shared
  | changed =>
    cases hbackup : shared.world.store.backup with
    | none =>
      simp only [step, perform, backupIfDue, hbackup]
      rfl
    | some backup =>
      simp only [step, hbackup]
      cases shared.isLocked <;> rfl
  | entered =>
    cases hbackup : shared.world.store.backup with
    | none =>
      simp only [step, perform, backupIfDue, hbackup]
      rfl
    | some backup =>
      simp only [step, hbackup, Option.any_some]
      rw [perform, backupIfDue_eq hbackup]
      cases backup.isDue shared.world.host.now with
      | false => rfl
      | true => exact (rewrite_read shared.world).trans (backupNow_eq hbackup)
  | read records => rfl
  | leaving result => rfl
  | finished result => rfl
  | stopped failure => rfl

def result? : Stage → Option (Except Failure Unit)
  | .refused failure => some (.error failure)
  | .finished result => some result
  | .stopped failure => some (.error failure)
  | _ => none

theorem perform_of_result? {stage : Stage} {result : Except Failure Unit}
    (h : stage.result? = some result) : stage.perform = Action.ofResult result := by
  cases stage <;> cases h <;> rfl

theorem perform_of_run_alone {mutation : Mutation} {shared after : Shared} {last : Stage}
    {schedule : List Nat} {result : Except Failure Unit}
    (hrun : (⟨[waiting mutation], shared⟩ : Scene Stage Shared).run step schedule
      = ⟨[last], after⟩) (hresult : last.result? = some result) :
    mutation.perform shared.world = (result, after.world) := by
  have hsame := Scene.run_alone (f := fun stage shared => stage.perform shared.world) perform_step
    hrun
  rw [perform_of_result? hresult] at hsame
  exact hsame.symm

end Stage

end SnapshotStore

end Telemetry
