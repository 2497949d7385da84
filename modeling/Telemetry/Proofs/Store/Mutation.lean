import Telemetry.Proofs.Store.Backup

/-!
# Changes and the backups that follow them

A change of the records is made in memory first. One that is refused there has changed nothing, unless
it is a batch, whose entries before the refused one stay; it is not followed by a backup. One that is
made is followed by a backup if one is due, and is reported as failed when the file was let go of.
-/

namespace Telemetry

namespace Repository

/-- A call that changes records. -/
inductive Mutation where
  | insert (record : Record)
  | update (existing : Record) (value : Value)
  | upsert (sample : Sample)
  | batch (samples : List Sample)

def Mutation.perform {σ : Type} [Repository σ] : Mutation → Action σ Unit
  | .insert record => Repository.insert record
  | .update existing value => Repository.update existing value
  | .upsert sample => Repository.upsert sample
  | .batch samples => Repository.batch samples

end Repository

open Repository

namespace MemoryStore

theorem keepsHost_write (name : String) (value : Value) (existing : Option Record) :
    (Repository.write name value existing : Action MemoryStore Unit).KeepsHost := by
  cases existing with
  | none => exact keepsHost_insert ⟨name, value⟩
  | some record => exact keepsHost_update record value

theorem upsert_apply {sample : Sample} {record : Record} (h : sample.toRecord = .ok record)
    (world : World MemoryStore) : Repository.upsert sample world
      = Repository.write record.name record.value (world.store.get? record.name) world := by
  rw [Repository.upsert, h]
  rfl

theorem keepsHost_perform (mutation : Mutation) :
    (mutation.perform : Action MemoryStore Unit).KeepsHost := by
  cases mutation with
  | insert record => exact keepsHost_insert record
  | update existing value => exact keepsHost_update existing value
  | upsert sample =>
    intro world
    rw [Mutation.perform]
    cases hrecord : sample.toRecord with
    | error failure =>
      rw [Repository.upsert, hrecord]
      rfl
    | ok record =>
      rw [upsert_apply hrecord]
      exact keepsHost_write _ _ _ world
  | batch samples => exact keepsHost_batch samples

theorem applySamples_error {store last : MemoryStore} {samples : List Sample} {failure : Failure}
    (h : store.applySamples samples = (.error failure, last)) :
    ∃ first entry rest, samples = first ++ entry :: rest ∧
      store.applySamples first = (.ok (), last) ∧ last.applySample entry = .error failure := by
  induction samples generalizing store with
  | nil => cases h
  | cons sample samples ih =>
    rw [MemoryStore.applySamples] at h
    cases hsample : store.applySample sample with
    | error refusal =>
      rw [hsample] at h
      cases h
      exact ⟨[], sample, samples, rfl, rfl, hsample⟩
    | ok next =>
      rw [hsample] at h
      obtain ⟨first, entry, rest, rfl, hfirst, hentry⟩ := ih h
      refine ⟨sample :: first, entry, rest, rfl, ?_, hentry⟩
      rw [MemoryStore.applySamples, hsample]
      exact hfirst

theorem change_error (f : MemoryStore → Except Failure MemoryStore) {memory last : World MemoryStore}
    {failure : Failure} (h : change f memory = (.error failure, last)) : last = memory := by
  unfold change at h
  split at h
  · cases h
  · cases h
    rfl

theorem write_error {name : String} {value : Value} {existing : Option Record}
    {memory last : World MemoryStore} {failure : Failure}
    (h : Repository.write name value existing memory = (.error failure, last)) : last = memory := by
  cases existing with
  | none => exact change_error (fun store => .ok (store.put ⟨name, value⟩)) h
  | some record => exact change_error (fun store => store.apply record.name value) h

theorem batch_error {samples : List Sample} {memory last : World MemoryStore} {failure : Failure}
    (h : Repository.batch samples memory = (.error failure, last)) :
    ∃ first entry rest, samples = first ++ entry :: rest ∧
      memory.store.applySamples first = (.ok (), last.store) ∧
      last.store.applySample entry = .error failure := by
  have hresult : (memory.store.applySamples samples).1 = .error failure := congrArg Prod.fst h
  have hlast : (memory.store.applySamples samples).2 = last.store :=
    congrArg (fun outcome => outcome.2.store) h
  exact applySamples_error (Prod.ext hresult hlast)

/-- In memory only a batch leaves something behind when it is refused. -/
theorem perform_error {mutation : Mutation} {memory last : World MemoryStore} {failure : Failure}
    (h : mutation.perform memory = (.error failure, last)) :
    last.store = memory.store ∨ ∃ first entry rest, mutation = .batch (first ++ entry :: rest) ∧
      memory.store.applySamples first = (.ok (), last.store) ∧
      last.store.applySample entry = .error failure := by
  cases mutation with
  | insert record =>
    exact .inl (congrArg World.store (change_error (fun store => .ok (store.put record)) h))
  | update existing value =>
    exact .inl (congrArg World.store (change_error (fun store => store.apply existing.name value) h))
  | upsert sample =>
    left
    rw [Mutation.perform] at h
    cases hrecord : sample.toRecord with
    | error refusal =>
      rw [Repository.upsert, hrecord] at h
      cases h
      rfl
    | ok record =>
      rw [upsert_apply hrecord] at h
      exact congrArg World.store (write_error h)
  | batch samples =>
    obtain ⟨first, entry, rest, rfl, hfirst, hentry⟩ := batch_error h
    exact .inr ⟨first, entry, rest, rfl, hfirst, hentry⟩

end MemoryStore

namespace SnapshotStore

theorem write_eq (name : String) (value : Value) (existing : Option Record) :
    (Repository.write name value existing : Action SnapshotStore Unit)
      = inMemory (Repository.write name value existing) >>= fun _ => backupIfDue := by
  cases existing <;> rfl

/-- A change is made in memory and followed by a backup if one is due. -/
theorem perform_eq (mutation : Mutation) : (mutation.perform : Action SnapshotStore Unit)
    = inMemory mutation.perform >>= fun _ => backupIfDue := by
  cases mutation with
  | insert record => rfl
  | update existing value => rfl
  | batch samples => rfl
  | upsert sample =>
    funext world
    have hhost : (Repository.upsert sample : Action MemoryStore Unit).KeepsHost :=
      MemoryStore.keepsHost_perform (.upsert sample)
    change Repository.upsert sample world
      = (inMemory (Repository.upsert sample) >>= fun _ => backupIfDue) world
    rw [Action.bind_apply, inMemory_apply hhost]
    cases hrecord : sample.toRecord with
    | error failure =>
      rw [Repository.upsert, Repository.upsert, hrecord]
      rfl
    | ok record =>
      have hupsert : (Repository.upsert sample : Action SnapshotStore Unit) world
          = Repository.write record.name record.value (world.store.memory.get? record.name) world := by
        rw [Repository.upsert, hrecord]
        rfl
      rw [MemoryStore.upsert_apply hrecord, hupsert, write_eq, Action.bind_apply,
        inMemory_apply (MemoryStore.keepsHost_write _ _ _)]

/-- What becomes of a change: it is refused in memory, or made there, and then no backup is due, or
one is taken, or one is due that cannot be taken. -/
inductive Changed (mutation : Mutation) (backup : Backup) (world : World SnapshotStore) :
    Except Failure Unit × World SnapshotStore → Prop where
  | refused {failure : Failure} {memory : World MemoryStore}
      (h : mutation.perform ⟨world.store.memory, world.host⟩ = (.error failure, memory)) :
      Changed mutation backup world (.error failure, withMemory world memory.store)
  | early {memory : World MemoryStore}
      (h : mutation.perform ⟨world.store.memory, world.host⟩ = (.ok (), memory))
      (hdue : backup.isDue world.host.now = false) :
      Changed mutation backup world (.ok (), withMemory world memory.store)
  | saved {memory : World MemoryStore}
      (h : mutation.perform ⟨world.store.memory, world.host⟩ = (.ok (), memory))
      (hdue : backup.isDue world.host.now = true) (hopen : backup.isOpen = true) :
      Changed mutation backup world (.ok (), saved backup (withMemory world memory.store))
  | late {memory : World MemoryStore}
      (h : mutation.perform ⟨world.store.memory, world.host⟩ = (.ok (), memory))
      (hdue : backup.isDue world.host.now = true) (hopen : backup.isOpen = false) :
      Changed mutation backup world (.error (released backup), withMemory world memory.store)

theorem changed {world : World SnapshotStore} {backup : Backup}
    (hbackup : world.store.backup = some backup) (mutation : Mutation) :
    Changed mutation backup world (mutation.perform world) := by
  rw [perform_eq, Action.bind_apply, inMemory_apply (MemoryStore.keepsHost_perform mutation)]
  rcases hmemory : (mutation.perform : Action MemoryStore Unit) ⟨world.store.memory, world.host⟩
    with ⟨failure | ⟨⟨⟩⟩, memory⟩
  · exact .refused hmemory
  · have hafter : (withMemory world memory.store).store.backup = some backup := hbackup
    have hnow : (withMemory world memory.store).host.now = world.host.now := rfl
    change Changed mutation backup world (backupIfDue (withMemory world memory.store))
    rw [backupIfDue_eq hafter, hnow]
    cases hdue : backup.isDue world.host.now with
    | false => exact .early hmemory hdue
    | true =>
      cases hopen : backup.isOpen with
      | false => exact .late hmemory hdue hopen
      | true => exact .saved hmemory hdue hopen

end SnapshotStore

end Telemetry
