import Telemetry.Proofs.Service.Accounting
import Telemetry.Proofs.Store.Mutation

/-!
# What is left behind by a refusal

A write that is refused leaves the records as they were, in every kind of store. A batch that is
refused leaves a database as it was and a map with the entries before the refused one. In a database
the statement of a write touches a row or none, and the diagnosis of one that touched none only
reads; a transaction that fails is taken back as a whole.
-/

namespace Telemetry

open Repository

namespace MemoryStore

/-- A batch stops at an entry that is refused, after the entries before it. -/
def StopsIn (samples : List Sample) (before after : MemoryStore) : Prop :=
  ∃ done entry rest failure, samples = done ++ entry :: rest ∧
    before.applySamples done = (.ok (), after) ∧ after.applySample entry = .error failure

theorem batch_refused {samples : List Sample} {world after : World MemoryStore} {failure : Failure}
    (h : Repository.batch samples world = (.error failure, after)) :
    StopsIn samples world.store after.store := by
  obtain ⟨done, entry, rest, hsamples, hdone, hentry⟩ := batch_error h
  exact ⟨done, entry, rest, failure, hsamples, hdone, hentry⟩

end MemoryStore

namespace SnapshotStore

/-- A change of an open store is refused in memory or not at all. -/
theorem change_refused {w after : World SnapshotStore} {c : Contents} {failure : Failure}
    (h : w.store.Shows c) {action : Action MemoryStore Unit}
    {expected : Except Failure Unit × Contents}
    (haction : Settles MemoryStore.Shows (action ⟨w.store.memory, w.host⟩) expected)
    (hrefused : (inMemory action >>= fun _ => backupIfDue) w = (.error failure, after)) :
    ∃ memory, action ⟨w.store.memory, w.host⟩ = (.error failure, memory) ∧
      after.store.memory = memory.store := by
  rw [Action.bind_apply] at hrefused
  unfold inMemory Action.onPart at hrefused
  rcases haction.cases with ⟨memory, c', hdone, _, hshows⟩ | ⟨refusal, memory, c', hdone, _, _⟩ <;>
    rw [hdone] at hrefused
  · have hafter : (⟨{ w.store with memory := memory.store }, memory.host⟩
        : World SnapshotStore).store.Shows c' := ⟨hshows, h.2⟩
    have hbackup := (backupIfDue_settles hafter).1
    simp only at hrefused
    rw [hrefused] at hbackup
    cases hbackup
  · cases hrefused
    exact ⟨memory, hdone, rfl⟩

end SnapshotStore

namespace SqlStore

variable {w after : World SqlStore} {c : Contents} {failure : Failure}

theorem diagnosed_refused (h : w.store.Shows c) {record : Record}
    (hfinite : record.value.isFinite = true) {operation : DatabaseOperation}
    {statement : Database → Except DatabaseFault (Bool × Database)}
    (hsame : statement w.store.database = Database.upsert record w.store.database)
    (hrefused : (do
      if ← execute operation statement then pure () else refuse record.name record.kind
        : Action SqlStore Unit) w = (.error failure, after)) : after.store = w.store := by
  obtain ⟨hresult, hstore⟩ := h.diagnosed_apply hfinite operation hsame
  rw [hrefused] at hresult hstore
  exact hstore.trans (h.upserted_of_error hfinite hresult.symm)

theorem write_refused (h : w.store.Shows c) {record : Record}
    (hfinite : record.value.isFinite = true)
    (hrefused : Repository.write record.name record.value (c.record? record.name) w
      = (.error failure, after)) : after.store = w.store := by
  cases hstored : c record.name with
  | none =>
    rw [Contents.record?, hstored] at hrefused
    change (do
      requireOpen .acquire
      upsertRecord record : Action SqlStore Unit) w = _ at hrefused
    rw [Action.bind_apply, requireOpen_apply h.isOpen] at hrefused
    exact diagnosed_refused h hfinite rfl hrefused
  | some stored =>
    rw [Contents.record?, hstored] at hrefused
    change (if stored.kind ≠ record.kind then
        Action.fail (.kindMismatch record.name stored.kind record.kind)
      else do
        requireOpen .acquire
        updateRow record.name record.value : Action SqlStore Unit) w = _ at hrefused
    split at hrefused
    · cases hrefused
      rfl
    · rw [Action.bind_apply, requireOpen_apply h.isOpen] at hrefused
      exact diagnosed_refused h hfinite (h.table.upsert_eq_update hstored).symm hrefused

theorem batch_refused (h : w.store.Shows c) {samples : List Sample}
    (hrefused : Repository.batch samples w = (.error failure, after)) :
    after.store = w.store := by
  change (do
    requireOpen .begin
    atomically (applyEntries samples) : Action SqlStore Unit) w = _ at hrefused
  rw [Action.bind_apply, requireOpen_apply h.isOpen] at hrefused
  unfold SqlStore.atomically at hrefused
  rcases hentries : applyEntries samples w with ⟨refusal | done, middle⟩ <;>
    simp only [hentries] at hrefused <;> cases hrefused
  rfl

end SqlStore

namespace Store

/-- The records of a store are left as they were. -/
def Keeps : Store → Store → Prop
  | .memory before, .memory after => after = before
  | .snapshot before, .snapshot after => after.memory = before.memory
  | .sql before, .sql after => after = before
  | _, _ => False

/-- What is left of a batch that is refused. -/
def StopsIn (samples : List Sample) : Store → Store → Prop
  | .memory before, .memory after => before.StopsIn samples after
  | .snapshot before, .snapshot after => before.memory.StopsIn samples after.memory
  | .sql before, .sql after => after = before
  | _, _ => False

theorem Keeps.refl (store : Store) : store.Keeps store := by
  cases store <;> exact rfl

/-- A kind of store of a server, of which it is known what it leaves behind when it refuses. -/
structure Refusing (m : Medium) extends Backend m where
  write_refused {world after : World Store} {c : Contents} (h : Shows world.store c)
    {record : Record} (hfinite : record.value.isFinite = true) {failure : Failure}
    (hrefused : Repository.write record.name record.value (c.record? record.name) world
      = (.error failure, after)) : world.store.Keeps after.store
  batch_refused {world after : World Store} {c : Contents} (h : Shows world.store c)
    {samples : List Sample} {failure : Failure}
    (hrefused : Repository.batch samples world = (.error failure, after)) :
    world.store.StopsIn samples after.store
  ping {world : World Store} {c : Contents} (h : Shows world.store c) :
    Repository.ping world = (.ok (), world)
  inadmissible {store : Store} {c : Contents} (h : Shows store c)
    (hsql : store.isTransactional = true) {name : String} (hname : Database.admits name = false) :
    m.refusal name = some DatabaseFault.nameLength.failure

/-- An outcome on the store of a server is one on the kind of store that it has. -/
theorem embed_eq_error {σ : Type} {kind : σ → Store} {outcome : Except Failure Unit × World σ}
    {failure : Failure} {after : World Store} (h : embed kind outcome = (.error failure, after)) :
    ∃ last, outcome = (.error failure, last) ∧ after = ⟨kind last.store, last.host⟩ := by
  obtain ⟨result, last⟩ := outcome
  cases h
  exact ⟨last, rfl, rfl⟩

namespace Refusing

def memory : Refusing .memory where
  toBackend := .memory
  write_refused := by
    rintro ⟨_, host⟩ after c ⟨part, rfl, hpart⟩ record _ failure hrefused
    rw [memory_passesOn.write] at hrefused
    obtain ⟨last, hlast, rfl⟩ := embed_eq_error hrefused
    exact congrArg World.store (MemoryStore.write_error hlast)
  batch_refused := by
    rintro ⟨_, host⟩ after c ⟨part, rfl, hpart⟩ samples failure hrefused
    rw [memory_passesOn.batch] at hrefused
    obtain ⟨last, hlast, rfl⟩ := embed_eq_error hrefused
    exact MemoryStore.batch_refused hlast
  ping := by
    rintro ⟨_, host⟩ c ⟨part, rfl, hpart⟩
    rfl
  inadmissible := by
    rintro _ c ⟨part, rfl, hpart⟩ hsql
    cases hsql

def snapshot : Refusing .memory where
  toBackend := .snapshot
  write_refused := by
    rintro ⟨_, host⟩ after c ⟨part, rfl, hpart⟩ record hfinite failure hrefused
    rw [snapshot_passesOn.write] at hrefused
    obtain ⟨last, hlast, rfl⟩ := embed_eq_error hrefused
    rw [SnapshotStore.write_eq] at hlast
    have hwrite := MemoryStore.faithful.write (w := ⟨part.memory, host⟩) hpart.1 record hfinite
    obtain ⟨memory, hmemory, hafter⟩ :=
      SnapshotStore.change_refused (w := ⟨part, host⟩) hpart hwrite hlast
    exact hafter.trans (congrArg World.store (MemoryStore.write_error hmemory))
  batch_refused := by
    rintro ⟨_, host⟩ after c ⟨part, rfl, hpart⟩ samples failure hrefused
    rw [snapshot_passesOn.batch] at hrefused
    obtain ⟨last, hlast, rfl⟩ := embed_eq_error hrefused
    have hbatch := MemoryStore.faithful.batch (w := ⟨part.memory, host⟩) hpart.1 samples
    obtain ⟨memory, hmemory, hafter⟩ :=
      SnapshotStore.change_refused (w := ⟨part, host⟩) hpart hbatch hlast
    have hstops := MemoryStore.batch_refused hmemory
    rw [← hafter] at hstops
    exact hstops
  ping := by
    rintro ⟨_, host⟩ c ⟨part, rfl, hpart⟩
    rfl
  inadmissible := by
    rintro _ c ⟨part, rfl, hpart⟩ hsql
    cases hsql

def sql : Refusing .table where
  toBackend := .sql
  write_refused := by
    rintro ⟨_, host⟩ after c ⟨part, rfl, hpart⟩ record hfinite failure hrefused
    rw [sql_passesOn.write] at hrefused
    obtain ⟨last, hlast, rfl⟩ := embed_eq_error hrefused
    exact SqlStore.write_refused (w := ⟨part, host⟩) hpart hfinite hlast
  batch_refused := by
    rintro ⟨_, host⟩ after c ⟨part, rfl, hpart⟩ samples failure hrefused
    rw [sql_passesOn.batch] at hrefused
    obtain ⟨last, hlast, rfl⟩ := embed_eq_error hrefused
    exact SqlStore.batch_refused (w := ⟨part, host⟩) hpart hlast
  ping := by
    rintro ⟨_, host⟩ c ⟨part, rfl, hpart⟩
    change Store.embed Store.sql (SqlStore.requireOpen .ping ⟨part, host⟩) = _
    rw [SqlStore.requireOpen_apply hpart.isOpen]
    rfl
  inadmissible := by
    intro store c _ _ name hname
    simp [Medium.table, hname]

end Refusing

theorem Fresh.refusing {store : Store} (h : store.Fresh) :
    ∃ (m : Medium) (kind : Refusing m), kind.Shows store Contents.empty := by
  have hempty : MemoryStore.empty.Shows Contents.empty := ⟨List.nodup_nil, rfl⟩
  cases store with
  | memory store =>
    cases h
    exact ⟨_, .memory, _, rfl, hempty⟩
  | snapshot store =>
    obtain ⟨memory, backup⟩ := store
    obtain ⟨rfl, hopen⟩ := h
    exact ⟨_, .snapshot, _, rfl, hempty, hopen⟩
  | sql store =>
    obtain ⟨hopen, hwritable, hmetrics⟩ := h
    exact ⟨_, .sql, _, rfl, hopen, hwritable, MemoryStore.empty, hmetrics, hempty, nofun⟩

end Store

end Telemetry
