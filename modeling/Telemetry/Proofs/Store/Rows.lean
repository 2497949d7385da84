import Telemetry.Proofs.Store.Insertion
import Telemetry.Proofs.Store.Mutation

/-!
# The rows of a table that was migrated

A table that was made by a migration is in good order, and every call that writes to it leaves it so,
whether the call is done or refused: an insertion may meet a row of its name, an update may bring a
record that was never stored or is long out of date, and a batch may be taken back. The table is
therefore the image of a list of records, and what is read of it never meets a row without exactly one
value.
-/

namespace Telemetry

open Repository Number

namespace Repository

/-- The values that are inserted, or given to an update, are finite. Samples are checked anyway. -/
def Mutation.IsFinite : Mutation → Prop
  | .insert record => record.value.isFinite = true
  | .update _ value => value.isFinite = true
  | .upsert _ | .batch _ => True

def performAll {σ : Type} [Repository σ] : List Mutation → World σ → World σ
  | [], world => world
  | mutation :: mutations, world => performAll mutations (mutation.perform world).2

end Repository

/-- The row has the value of its kind, which is an integer if it is a counter, and no other value. -/
def Row.HasOneValue (row : Row) : Prop :=
  match row.kind with
  | .gauge => (∃ x, row.gauge = some x) ∧ row.counter = .null
  | .counter => row.gauge = none ∧ ∃ n, row.counter = .integer n

theorem Row.hasOneValue_ofRecord (record : Record) : (Row.ofRecord record).HasOneValue := by
  obtain ⟨name, value⟩ := record
  cases value with
  | gauge x => exact ⟨⟨x, rfl⟩, rfl⟩
  | counter n => exact ⟨rfl, n, rfl⟩

theorem Database.Shows.update_absent {db : Database} {c : Contents} (h : db.Shows c) {name : String}
    (habsent : c name = none) (value : Value) : Database.update name value db = .ok (false, db) := by
  obtain ⟨store, hmetrics, hstore, -⟩ := h
  have hnot : ∀ row ∈ store.records.map Row.ofRecord, row.name ≠ name := by
    rintro row hmem rfl
    obtain ⟨record, hrecord, rfl⟩ := List.mem_map.1 hmem
    rw [Row.name_ofRecord, (hstore.lists.2 record).1 hrecord] at habsent
    cases habsent
  obtain ⟨metrics, versions⟩ := db
  cases hmetrics
  simp only [Database.update, Database.rows, Database.changeRow_absent hnot]

namespace SqlStore

variable {world : World SqlStore} {c : Contents}

/-- An update of a name that is not stored touches no row, and is refused for that. -/
theorem Shows.updateRow_absent (h : world.store.Shows c) {name : String} (habsent : c name = none)
    (value : Value) : (SqlStore.updateRow name value world).1 = .error (.metricNotFound name) ∧
      (SqlStore.updateRow name value world).2.store = world.store := by
  have hkept : (keep world.store.database world).2.store = world.store := rfl
  have hkind : storedKind name (keep world.store.database world).2
      = (.ok none, (keep world.store.database world).2) :=
    query_apply (by rw [hkept, h.table.selectKind, habsent]; rfl)
  have hrefused : SqlStore.updateRow name value world
      = (.error (.metricNotFound name), (keep world.store.database world).2) := by
    rw [SqlStore.updateRow, Action.bind_apply,
      execute_apply h.writable (h.table.update_absent habsent value)]
    simp only [Bool.false_eq_true, if_false, refuse, Action.bind_apply, hkind]
    rfl
  rw [hrefused]
  exact ⟨rfl, hkept⟩

/-- An update leaves the table in order whatever record it is said to be an update of. -/
theorem Shows.update (h : world.store.Shows c) (existing : Record) {value : Value}
    (hfinite : value.isFinite = true) :
    ∃ after, (Repository.update existing value world).2.store.Shows after := by
  have hupdate : (Repository.update existing value : Action SqlStore Unit) =
      if existing.kind ≠ value.kind then
        Action.fail (.kindMismatch existing.name existing.kind value.kind)
      else requireOpen .acquire >>= fun _ => SqlStore.updateRow existing.name value := rfl
  rw [hupdate]
  split
  · exact ⟨c, h⟩
  · rw [Action.bind_apply, requireOpen_apply h.isOpen]
    cases hstored : c existing.name with
    | none => exact ⟨c, by rw [(h.updateRow_absent hstored value).2]; exact h⟩
    | some stored =>
      have hnamed : c (Record.mk existing.name value).name = some stored := hstored
      exact ⟨_, (h.updateRow hnamed hfinite).2⟩

theorem Shows.perform (h : world.store.Shows c) {mutation : Mutation} (hfinite : mutation.IsFinite) :
    ∃ after, (mutation.perform world).2.store.Shows after := by
  cases mutation with
  | insert record =>
    rw [Mutation.perform, insert_apply h.isOpen]
    exact ⟨_, (h.upsertRecord hfinite).2⟩
  | update existing value => exact h.update existing hfinite
  | upsert sample => exact ⟨_, (faithful.upsert h sample).2⟩
  | batch samples => exact ⟨_, (faithful.batch h samples).2⟩

theorem Shows.performAll (h : world.store.Shows c) {mutations : List Mutation}
    (hfinite : ∀ mutation ∈ mutations, mutation.IsFinite) :
    ∃ after, (Repository.performAll mutations world).store.Shows after := by
  induction mutations generalizing world c with
  | nil => exact ⟨c, h⟩
  | cons mutation mutations ih =>
    obtain ⟨middle, hmiddle⟩ := h.perform (hfinite mutation List.mem_cons_self)
    exact ih hmiddle fun other hmem => hfinite other (List.mem_cons_of_mem _ hmem)

theorem migrate_empty :
    Schema.migrate Database.empty = (.ok (), ⟨some [], some ⟨true, [1]⟩⟩) := rfl

/-- A migration of a database without tables that is done leaves an empty table that can be written. -/
theorem shows_of_migrate {start fresh : World SqlStore}
    (hempty : start.store.database = Database.empty) (hmigrate : migrate start = (.ok (), fresh)) :
    fresh.store.Shows Contents.empty := by
  rw [migrate, changeSchema] at hmigrate
  dsimp only at hmigrate
  rw [hempty, migrate_empty] at hmigrate
  cases hopen : start.store.isOpen with
  | false =>
    rw [hopen] at hmigrate
    cases hmigrate
  | true =>
    cases hreadOnly : start.store.readOnly with
    | true =>
      rw [hopen, hreadOnly] at hmigrate
      cases hmigrate
    | false =>
      rw [hopen, hreadOnly] at hmigrate
      cases hmigrate
      exact ⟨hopen, hreadOnly, MemoryStore.empty, rfl, ⟨List.nodup_nil, rfl⟩, nofun⟩

/-- The rows have different names and one value each, and what is read of the table is what they hold:
all records are listed, and a look-up finds the one that is listed under the name. -/
structure RowsInOrder (world : World SqlStore) : Prop where
  rows : ∃ rows, world.store.database.metrics = some rows ∧ (rows.map Row.name).Nodup ∧
    ∀ row ∈ rows, row.HasOneValue
  read : ∃ records, Repository.getAll world = (.ok records, world) ∧
    (records.map Record.name).Nodup ∧ ∀ name, Repository.get name world
      = (.ok (records.find? fun record => record.name == name), world)

theorem Shows.rowsInOrder (h : world.store.Shows c) : RowsInOrder world := by
  constructor
  · obtain ⟨memory, hmetrics, hmemory, -⟩ := h.table
    refine ⟨_, hmetrics, ?_, fun row hmem => ?_⟩
    · simpa only [List.map_map, Function.comp_def, Row.name_ofRecord] using hmemory.1
    · obtain ⟨record, -, rfl⟩ := List.mem_map.1 hmem
      exact Row.hasOneValue_ofRecord record
  · obtain ⟨records, hgetAll, hlists⟩ := faithful.getAll h
    refine ⟨records, hgetAll, hlists.1, fun name => ?_⟩
    rw [faithful.get h, hlists.record?]

/-- Whatever is done to a table after its migration, and whether it is done or refused, the rows stay
in order. -/
theorem rows_stay_in_order {start fresh : World SqlStore}
    (hempty : start.store.database = Database.empty) (hmigrate : migrate start = (.ok (), fresh))
    {mutations : List Mutation} (hfinite : ∀ mutation ∈ mutations, mutation.IsFinite) :
    RowsInOrder (Repository.performAll mutations fresh) := by
  obtain ⟨c, hshows⟩ := (shows_of_migrate hempty hmigrate).performAll hfinite
  exact hshows.rowsInOrder

/-- Among the calls are a sum that overflows, an update of a name that is not stored, one that is out of
date in its kind, and a batch whose last entry is refused. -/
theorem rows_stay_in_order_refused :
    let start : World SqlStore :=
      ⟨⟨Database.empty, none, false, true⟩, ⟨[], Counters.empty, 0⟩⟩
    let mutations : List Mutation := [.insert ⟨"a", .counter Int64.maxValue⟩,
      .update ⟨"a", .counter 0⟩ (.counter 1), .update ⟨"b", .counter 0⟩ (.counter 1),
      .update ⟨"a", .gauge Binary64.negativeZero⟩ (.gauge Binary64.negativeZero),
      .batch [Sample.counter "b" 1, Sample.counter "a" 1]]
    start.store.database = Database.empty ∧ migrate start = (.ok (), (migrate start).2) ∧
      (∀ mutation ∈ mutations, mutation.IsFinite) ∧
      RowsInOrder (Repository.performAll mutations (migrate start).2) := by
  intro start mutations
  have hmigrate : migrate start = (.ok (), (migrate start).2) := rfl
  have hfinite : ∀ mutation ∈ mutations, mutation.IsFinite := by
    simp [mutations, Mutation.IsFinite, Value.isFinite, Binary64.negativeZero, Binary64.isFinite]
  exact ⟨rfl, hmigrate, hfinite, rows_stay_in_order rfl hmigrate hfinite⟩

end SqlStore

end Telemetry
