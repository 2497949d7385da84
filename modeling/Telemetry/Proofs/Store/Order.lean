import Telemetry.Proofs.Store.ReadOnly

/-!
# Stores in order, and stores that are alike

A store is in order when it is open and its records have different names that it admits; one that was
closed refuses even a batch of nothing. Two stores of one kind are alike when they hold the same
records, in whatever order; when the last backup was taken is not looked at. What is known through its
contents of a store in order that can be written decides it up to this, and a store that cannot be
written stays as it is.
-/

namespace Telemetry.Store

/-- The store is open, and its records have different names, each of which it admits. -/
def InOrder : Store → Prop
  | .memory store => (store.records.map Record.name).Nodup
  | .snapshot store => (store.memory.records.map Record.name).Nodup ∧
    ∀ backup ∈ store.backup, backup.isOpen = true
  | .sql store => store.isOpen = true ∧ ∃ records : List Record,
    store.database.metrics = some (records.map Row.ofRecord) ∧ (records.map Record.name).Nodup ∧
      ∀ record ∈ records, Database.admits record.name = true

def isReadOnly : Store → Bool
  | .sql store => store.readOnly
  | _ => false

/-- The stores are of one kind and hold the same records. -/
def Alike : Store → Store → Prop
  | .memory left, .memory right => left.records.Perm right.records
  | .snapshot left, .snapshot right => left.memory.records.Perm right.memory.records
  | .sql left, .sql right => left.isOpen = right.isOpen ∧ left.readOnly = right.readOnly ∧
    ∃ rows rows', left.database.metrics = some rows ∧ right.database.metrics = some rows' ∧
      rows.Perm rows'
  | _, _ => False

variable {c : Contents}

theorem alike_memory {left right : Store}
    (hleft : (memory_passesOn.faithful MemoryStore.faithful).Shows left c)
    (hright : (memory_passesOn.faithful MemoryStore.faithful).Shows right c) : left.Alike right := by
  obtain ⟨first, rfl, hfirst⟩ := hleft
  obtain ⟨second, rfl, hsecond⟩ := hright
  exact hfirst.lists.perm hsecond.lists

theorem alike_snapshot {left right : Store}
    (hleft : (snapshot_passesOn.faithful SnapshotStore.faithful).Shows left c)
    (hright : (snapshot_passesOn.faithful SnapshotStore.faithful).Shows right c) :
    left.Alike right := by
  obtain ⟨first, rfl, hfirst, -⟩ := hleft
  obtain ⟨second, rfl, hsecond, -⟩ := hright
  exact hfirst.lists.perm hsecond.lists

theorem alike_sql {left right : Store}
    (hleft : (sql_passesOn.faithful SqlStore.faithful).Shows left c)
    (hright : (sql_passesOn.faithful SqlStore.faithful).Shows right c) : left.Alike right := by
  obtain ⟨first, rfl, hfirst⟩ := hleft
  obtain ⟨second, rfl, hsecond⟩ := hright
  obtain ⟨firstRows, hfirstTable, hfirstShows, -⟩ := hfirst.table
  obtain ⟨secondRows, hsecondTable, hsecondShows, -⟩ := hsecond.table
  refine ⟨hfirst.isOpen.trans hsecond.isOpen.symm, hfirst.writable.trans hsecond.writable.symm,
    _, _, hfirstTable, hsecondTable, ?_⟩
  exact (hfirstShows.lists.perm hsecondShows.lists).map Row.ofRecord

/-- A store in order that can be written is known by its contents. -/
theorem InOrder.shows {store : Store} (h : store.InOrder) (hwritable : store.isReadOnly = false) :
    ∃ (m : Medium) (faithful : Repository.Faithful Store m) (c : Contents),
      faithful.Shows store c ∧ ∀ left right c, faithful.Shows left c → faithful.Shows right c →
        left.Alike right := by
  cases store with
  | memory store =>
    exact ⟨_, memory_passesOn.faithful MemoryStore.faithful, _, ⟨store, rfl, h, rfl⟩,
      fun _ _ _ => alike_memory⟩
  | snapshot store =>
    exact ⟨_, snapshot_passesOn.faithful SnapshotStore.faithful, _, ⟨store, rfl, ⟨h.1, rfl⟩, h.2⟩,
      fun _ _ _ => alike_snapshot⟩
  | sql store =>
    obtain ⟨hopen, records, htable, hdistinct, hadmits⟩ := h
    have hshows : store.Shows (Contents.ofRecords records) :=
      ⟨hopen, hwritable, ⟨records⟩, htable, ⟨hdistinct, rfl⟩, hadmits⟩
    exact ⟨_, sql_passesOn.faithful SqlStore.faithful, _, ⟨store, rfl, hshows⟩,
      fun _ _ _ => alike_sql⟩

theorem InOrder.onlyReads {store : Store} (h : store.InOrder) (hreadOnly : store.isReadOnly = true) :
    Repository.OnlyReads store ∧ store.Alike store := by
  cases store with
  | memory store => cases hreadOnly
  | snapshot store => cases hreadOnly
  | sql store =>
    obtain ⟨hopen, records, htable, -⟩ := h
    exact ⟨sql_passesOn.onlyReads (SqlStore.onlyReads hopen hreadOnly), rfl, rfl, _, _, htable, htable,
      .refl _⟩

end Telemetry.Store
