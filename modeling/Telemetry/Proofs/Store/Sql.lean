import Telemetry.Proofs.Store.Table
import Telemetry.Store.Sql

/-!
# The contents of the store in a database

An open store whose database can be written and whose table is in good order does to its records what
a medium does that refuses some names, drops the sign of a zero and takes refused batches back. The
statement comes first and its diagnosis afterwards: a statement that touches no row leaves the
database as it was, and the kind that is stored then tells why.
-/

namespace Telemetry

namespace SqlStore

/-- The store is open and can be written, and its table has these contents. -/
structure Shows (store : SqlStore) (c : Contents) : Prop where
  isOpen : store.isOpen = true
  writable : store.readOnly = false
  table : store.database.Shows c

variable {world : World SqlStore} {c : Contents} {record : Record}

/-! ### Single statements -/

theorem requireOpen_apply (hopen : world.store.isOpen = true) (operation : DatabaseOperation) :
    requireOpen operation world = (.ok (), world) := if_pos hopen

theorem query_apply {α : Type} {operation : DatabaseOperation}
    {select : Database → Except DatabaseFault α} {a : α} (h : select world.store.database = .ok a) :
    query operation select world = (.ok a, world) := by
  rw [query, h]

theorem execute_apply {operation : DatabaseOperation}
    {statement : Database → Except DatabaseFault (Bool × Database)} {touched : Bool} {db : Database}
    (hwritable : world.store.readOnly = false)
    (h : statement world.store.database = .ok (touched, db)) :
    execute operation statement world = (.ok touched, (keep db world).2) := by
  rw [execute, h]
  simp only [hwritable, Bool.false_eq_true, if_false]
  rfl

theorem execute_nameLength {operation : DatabaseOperation}
    {statement : Database → Except DatabaseFault (Bool × Database)}
    (hwritable : world.store.readOnly = false)
    (h : statement world.store.database = .error .nameLength) :
    execute operation statement world
      = (.error DatabaseFault.nameLength.failure, world.count (.databaseError operation) 1) := by
  rw [execute, h]
  simp only [hwritable, Bool.false_eq_true, if_false]
  rfl

/-- What is said of a write that touched no row. -/
def diagnosis (name : String) (stored incoming : Kind) : Failure :=
  if stored ≠ incoming then .kindMismatch name stored incoming else .counterOverflow name

theorem refuse_apply (h : world.store.database.Shows c) {name : String} {stored : Value}
    (hstored : c name = some stored) (incoming : Kind) :
    refuse name incoming world = (.error (diagnosis name stored.kind incoming), world) := by
  unfold refuse storedKind
  rw [Action.bind_apply, query_apply (h.selectKind name), hstored]
  rw [diagnosis]
  simp only [Option.map_some]
  split <;> rfl

theorem diagnosis_eq {m : Medium} {stored : Value} {failure : Failure}
    (h : m.next record (some stored) = .error failure) :
    diagnosis record.name stored.kind record.kind = failure := by
  rcases Medium.next_error h with ⟨hkind, rfl⟩ | ⟨n, delta, rfl, hvalue, _, rfl⟩
  · exact if_pos hkind
  · have hkind : record.kind = .counter := by rw [Record.kind, hvalue]; rfl
    rw [hkind]
    rfl

/-! ### Writing a record -/

def upserted (record : Record) (store : SqlStore) : SqlStore :=
  match Database.upsert record store.database with
  | .ok (_, db) => { store with database := db }
  | .error _ => store

/-- The statement has done what writing the record does to the contents, or has touched no row. -/
inductive Wrote (c : Contents) (record : Record) : Except Failure Bool → Prop where
  | done (hwrite : (c.write .table record).1 = .ok ()) : Wrote c record (.ok true)
  | refused (failure : Failure) (hwrite : (c.write .table record).1 = .error failure) :
    Wrote c record (.error failure)
  | untouched (stored : Value) (hstored : (c.write .table record).2 record.name = some stored)
    (hwrite : (c.write .table record).1
      = .error (diagnosis record.name stored.kind record.kind)) : Wrote c record (.ok false)

/-- A statement that does to the table what an insertion of the record does writes the record to the
contents, whether the name is stored or not. -/
theorem Shows.statement_apply (h : world.store.Shows c) (hfinite : record.value.isFinite = true)
    (operation : DatabaseOperation) {statement : Database → Except DatabaseFault (Bool × Database)}
    (hsame : statement world.store.database = Database.upsert record world.store.database) :
    Wrote c record (execute operation statement world).1 ∧
      (execute operation statement world).2.store = upserted record world.store ∧
      (upserted record world.store).Shows (c.write .table record).2 ∧
      ∀ failure, (c.write .table record).1 = .error failure →
        upserted record world.store = world.store := by
  rw [upserted]
  cases hstored : c record.name with
  | none =>
    have hnew := h.table.upsert_new hstored hfinite
    split at hnew
    · rename_i after hwrite
      obtain ⟨changed, hchanged, hafter⟩ := hnew
      rw [execute_apply h.writable (hsame.trans hchanged), hchanged, hwrite]
      exact ⟨.done (by rw [hwrite]), rfl, ⟨h.isOpen, h.writable, hafter⟩, nofun⟩
    · rename_i failure after hwrite
      obtain ⟨hfault, rfl⟩ := hnew
      rw [execute_nameLength h.writable (hsame.trans hfault), hfault, hwrite,
        (Contents.write_error_iff.1 hwrite).2]
      exact ⟨.refused _ (by rw [hwrite]), rfl, h, fun _ _ => rfl⟩
  | some stored =>
    have hupdate := h.table.update hstored hfinite
    rw [← h.table.upsert_eq_update hstored] at hupdate
    split at hupdate
    · rename_i after hwrite
      obtain ⟨changed, hchanged, hafter⟩ := hupdate
      rw [execute_apply h.writable (hsame.trans hchanged), hchanged, hwrite]
      exact ⟨.done (by rw [hwrite]), rfl, ⟨h.isOpen, h.writable, hafter⟩, nofun⟩
    · rename_i failure after hwrite
      obtain ⟨hnext, rfl⟩ := Contents.write_error_iff.1 hwrite
      rw [hstored] at hnext
      rw [execute_apply h.writable (hsame.trans hupdate), hupdate, hwrite]
      refine ⟨.untouched stored ?_ ?_, rfl, h, fun _ _ => rfl⟩
      · rw [hwrite]
        exact hstored
      · rw [hwrite, diagnosis_eq hnext]

theorem Shows.upserted_of_error (h : world.store.Shows c) (hfinite : record.value.isFinite = true)
    {failure : Failure} (hrefused : (c.write .table record).1 = .error failure) :
    upserted record world.store = world.store :=
  (h.statement_apply hfinite .insert rfl).2.2.2 failure hrefused

/-- The statement and its diagnosis give the result of writing the record to the contents. -/
theorem Shows.diagnosed_apply (h : world.store.Shows c) (hfinite : record.value.isFinite = true)
    (operation : DatabaseOperation) {statement : Database → Except DatabaseFault (Bool × Database)}
    (hsame : statement world.store.database = Database.upsert record world.store.database) :
    let outcome := (do
      if ← execute operation statement then pure () else refuse record.name record.kind
        : Action SqlStore Unit) world
    outcome.1 = (c.write .table record).1 ∧ outcome.2.store = upserted record world.store := by
  obtain ⟨hwrote, hstore, hshows, _⟩ := h.statement_apply hfinite operation hsame
  rw [Action.bind_apply]
  generalize execute operation statement world = outcome at hwrote hstore
  obtain ⟨result, after⟩ := outcome
  change after.store = _ at hstore
  rw [← hstore] at hshows ⊢
  cases hwrote with
  | done hwrite => exact ⟨hwrite.symm, rfl⟩
  | refused failure hwrite => exact ⟨hwrite.symm, rfl⟩
  | untouched stored hstored hwrite =>
    -- The diagnosis reads the table after the statement, which has not touched the row.
    simp only [Bool.false_eq_true, if_false]
    rw [refuse_apply hshows.table hstored, hwrite]
    exact ⟨rfl, rfl⟩

theorem Shows.statement_settles (h : world.store.Shows c) (hfinite : record.value.isFinite = true)
    (operation : DatabaseOperation) {statement : Database → Except DatabaseFault (Bool × Database)}
    (hsame : statement world.store.database = Database.upsert record world.store.database) :
    Settles Shows ((do
      if ← execute operation statement then pure () else refuse record.name record.kind
        : Action SqlStore Unit) world) (c.write .table record) := by
  obtain ⟨hresult, hstore⟩ := h.diagnosed_apply hfinite operation hsame
  refine ⟨hresult, ?_⟩
  rw [hstore]
  exact (h.statement_apply hfinite operation hsame).2.2.1

theorem Shows.updateRow (h : world.store.Shows c) {stored : Value}
    (hstored : c record.name = some stored) (hfinite : record.value.isFinite = true) :
    Settles Shows (updateRow record.name record.value world) (c.write .table record) :=
  h.statement_settles hfinite .update (h.table.upsert_eq_update hstored).symm

theorem Shows.upsertRecord (h : world.store.Shows c) (hfinite : record.value.isFinite = true) :
    Settles Shows (upsertRecord record world) (c.write .table record) :=
  h.statement_settles hfinite .insert rfl

/-! ### Batches -/

theorem Shows.applyEntry (h : world.store.Shows c) (sample : Sample) :
    Settles Shows (applyEntry sample world) (c.enter .table sample.toRecord) := by
  rw [SqlStore.applyEntry, Action.bind_apply, Action.ofResult_apply]
  cases hrecord : sample.toRecord with
  | error failure => exact ⟨rfl, h⟩
  | ok record =>
    have hfinite := (Sample.toRecord_ok hrecord).2.2.2
    have hkind : storedKind record.name world = (.ok ((c record.name).map Value.kind), world) :=
      query_apply (h.table.selectKind record.name)
    simp only [Action.bind_apply, hkind, Contents.enter]
    cases hstored : c record.name with
    | none => exact h.upsertRecord hfinite
    | some stored =>
      simp only [Option.map_some]
      by_cases hsame : stored.kind = record.kind
      · rw [if_neg (not_not_intro hsame)]
        exact h.updateRow hstored hfinite
      · rw [if_pos hsame, Contents.write_mismatch .table hstored hsame]
        exact ⟨rfl, h⟩

theorem Shows.applyEntries (h : world.store.Shows c) (samples : List Sample) :
    Settles Shows (applyEntries samples world)
      (c.enterAll .table (samples.map Sample.toRecord)) := by
  induction samples generalizing world c with
  | nil => exact ⟨rfl, h⟩
  | cons sample samples ih =>
    rw [SqlStore.applyEntries, Action.bind_apply, List.map_cons, Contents.enterAll]
    rcases (h.applyEntry sample).cases with ⟨after, c', hdone, henter, hshows⟩
      | ⟨failure, after, c', hdone, henter, hshows⟩
    · rw [hdone, henter]
      exact ih hshows
    · rw [hdone, henter]
      exact ⟨rfl, hshows⟩

/-- A transaction whose entries are written as expected keeps all of them or none. -/
theorem Shows.atomically (h : world.store.Shows c) {action : Action SqlStore Unit}
    {entries : List (Except Failure Record)}
    (haction : Settles Shows (action world) (c.enterAll .table entries)) :
    Settles Shows (atomically action world) (c.enterBatch .table entries) := by
  unfold SqlStore.atomically Contents.enterBatch
  rcases haction.cases with ⟨after, c', hdone, henter, hshows⟩
    | ⟨failure, after, c', hdone, henter, hshows⟩
  · rw [hdone, henter]
    exact ⟨rfl, hshows⟩
  · rw [hdone, henter]
    exact ⟨rfl, h⟩

/-- A look-up needs a table in good order, which may be one that can only be read. -/
theorem get_apply (hopen : world.store.isOpen = true) (h : world.store.database.Shows c)
    (name : String) : Repository.get name world = (.ok (c.record? name), world) := by
  have hselect : query .get (Database.selectOne name) world
      = (.ok ((c.record? name).map Row.ofRecord), world) := query_apply (h.selectOne name)
  simp only [Repository.get, Action.bind_apply, requireOpen_apply hopen, hselect]
  cases c.record? name with
  | none => rfl
  | some record =>
    simp only [Option.map_some, Row.toRecord_ofRecord]
    rfl

/-- A store in good order does to its records what its medium does. -/
def faithful : Repository.Faithful SqlStore .table where
  Shows := Shows
  get h name := get_apply h.isOpen h.table name
  getAll {w c} h := by
    obtain ⟨records, hrows, hlists⟩ := h.table.rows
    refine ⟨records, ?_, hlists⟩
    have hquery : query .getAll Database.rows w = (.ok (records.map Row.ofRecord), w) :=
      query_apply hrows
    change ((do
      requireOpen .getAll
      let rows ← query .getAll Database.rows
      Action.ofResult (rows.mapM Row.toRecord) : Action SqlStore (List Record)) w) = _
    rw [Action.bind_apply, requireOpen_apply h.isOpen]
    simp only [Action.bind_apply, hquery, Action.ofResult_apply, Row.mapM_toRecord]
  write {w c} h record hfinite := by
    cases hstored : c record.name with
    | none =>
      simp only [Contents.record?, hstored, Option.map_none]
      change Settles Shows ((do
        requireOpen .acquire
        upsertRecord record : Action SqlStore Unit) w) _
      rw [Action.bind_apply, requireOpen_apply h.isOpen]
      exact h.upsertRecord hfinite
    | some stored =>
      simp only [Contents.record?, hstored, Option.map_some]
      change Settles Shows ((if stored.kind ≠ record.kind then
          Action.fail (.kindMismatch record.name stored.kind record.kind)
        else do
          requireOpen .acquire
          updateRow record.name record.value : Action SqlStore Unit) w) _
      by_cases hsame : stored.kind = record.kind
      · rw [if_neg (not_not_intro hsame), Action.bind_apply, requireOpen_apply h.isOpen]
        exact h.updateRow hstored hfinite
      · rw [if_pos hsame, Contents.write_mismatch .table hstored hsame]
        exact ⟨rfl, h⟩
  batch {w c} h samples := by
    change Settles Shows ((do
      requireOpen .begin
      atomically (SqlStore.applyEntries samples) : Action SqlStore Unit) w) _
    rw [Action.bind_apply, requireOpen_apply h.isOpen]
    exact h.atomically (h.applyEntries samples)

end SqlStore

end Telemetry
