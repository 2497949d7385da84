import Telemetry.Proofs.Store.Holdings
import Telemetry.Proofs.Service.Forms

/-!
# What a store lists

All records of a store can be asked for at once, and the list agrees with the look-ups: under each name
the look-up finds the first record of the name in the list, or nothing if there is none. A store in
memory can always be listed; a database can be closed or damaged, and then the listing fails as a whole.
This holds in every state. That no name is listed twice is the one thing which depends on how the store
was used.
-/

namespace Telemetry

theorem map_eq_of_mapM {α β ε : Type} {f : α → Except ε β} {as : List α} {bs : List β}
    (h : as.mapM f = .ok bs) : as.map f = bs.map .ok := by
  induction as generalizing bs with
  | nil => cases h; rfl
  | cons a as ih =>
    rw [List.mapM_cons] at h
    cases hfirst : f a with
    | error e =>
      rw [hfirst] at h
      cases h
    | ok b =>
      rw [hfirst] at h
      cases hrest : as.mapM f with
      | error e =>
        rw [hrest] at h
        cases h
      | ok rest =>
        rw [hrest] at h
        cases h
        rw [List.map_cons, List.map_cons, hfirst, ih hrest]

/-- These records are listed, and look-ups find the same. -/
structure Repository.Listed {σ : Type} [Repository σ] (world : World σ) (records : List Record) :
    Prop where
  getAll : Repository.getAll world = (.ok records, world)
  get (name : String) : Repository.get name world
    = (.ok (records.find? fun record => record.name == name), world)

namespace SqlStore

/-- The first row of a name is described by the first record of the name. -/
theorem find?_toRecord {rows : List Row} {records : List Record}
    (h : rows.map Row.toRecord = records.map .ok) (name : String) :
    (rows.find? fun row => row.name == name).map Row.toRecord
      = (records.find? fun record => record.name == name).map .ok := by
  induction rows generalizing records with
  | nil =>
    rw [List.map_eq_nil_iff.1 h.symm]
    rfl
  | cons row rows ih =>
    obtain ⟨record, rest, rfl, hrecord, hrest⟩ := List.map_eq_cons_iff.1 h.symm
    have hname := Row.name_of_toRecord hrecord.symm
    rw [List.find?_cons, List.find?_cons, hname]
    split
    · rw [Option.map_some, Option.map_some, hrecord]
    · exact ih hrest.symm

theorem names_of_toRecord {rows : List Row} {records : List Record}
    (h : rows.map Row.toRecord = records.map .ok) : records.map Record.name = rows.map Row.name := by
  induction rows generalizing records with
  | nil =>
    rw [List.map_eq_nil_iff.1 h.symm]
    rfl
  | cons row rows ih =>
    obtain ⟨record, rest, rfl, hrecord, hrest⟩ := List.map_eq_cons_iff.1 h.symm
    rw [List.map_cons, List.map_cons, Row.name_of_toRecord hrecord.symm, ih hrest.symm]

/-- Records are listed only of an open database, each from a row. -/
theorem listed_of_getAll {world : World SqlStore} {records : List Record}
    (h : (Repository.getAll world).1 = .ok records) :
    Repository.Listed world records ∧ ∃ rows, world.store.database.metrics = some rows ∧
      rows.map Row.toRecord = records.map .ok := by
  have hall : (Repository.getAll : Action SqlStore (List Record)) = (do
      requireOpen .getAll
      let rows ← query .getAll Database.rows
      Action.ofResult (rows.mapM Row.toRecord)) := rfl
  rw [hall] at h
  obtain ⟨⟨⟩, after, hrequire, hrest⟩ := Action.bind_done h
  obtain ⟨hopen, hsame⟩ := requireOpen_done hrequire
  rw [hsame] at hrest
  rw [hrest] at h
  cases hmetrics : world.store.database.metrics with
  | none =>
    have hnone : world.store.database.rows = .error (.noTable "metrics") := by
      rw [Database.rows, hmetrics]
    rw [Action.bind_apply, query, hnone] at h
    cases h
  | some rows =>
    have hrows : world.store.database.rows = .ok rows := by rw [Database.rows, hmetrics]
    have hquery : query .getAll Database.rows world = (.ok rows, world) := query_apply hrows
    rw [Action.bind_apply, hquery] at h
    have hmapM : rows.mapM Row.toRecord = .ok records := h
    have hmap := map_eq_of_mapM hmapM
    refine ⟨⟨?_, fun name => ?_⟩, rows, rfl, hmap⟩
    · rw [hall, hrest, Action.bind_apply, hquery]
      exact congrArg (·, world) hmapM
    · have hfind := find?_toRecord hmap name
      have hselect : query .get (Database.selectOne name) world
          = (.ok (rows.find? fun row => row.name == name), world) :=
        query_apply (by rw [Database.selectOne, hrows]; rfl)
      simp only [Repository.get, Action.bind_apply, requireOpen_apply hopen, hselect]
      cases hrow : rows.find? fun row => row.name == name with
      | none =>
        rw [hrow, Option.map_none] at hfind
        rw [Option.map_eq_none_iff.1 hfind.symm]
        rfl
      | some row =>
        rw [hrow, Option.map_some] at hfind
        obtain ⟨record, hrecord, hdescribed⟩ := Option.map_eq_some_iff.1 hfind.symm
        rw [hrecord]
        simp only [← hdescribed]
        rfl

end SqlStore

namespace Store

/-- Of each name there is one record. -/
def HasDistinctNames : Store → Prop
  | .memory store => (store.records.map Record.name).Nodup
  | .snapshot store => (store.memory.records.map Record.name).Nodup
  | .sql store => ∀ rows ∈ store.database.metrics, (rows.map Row.name).Nodup

theorem InOrder.hasDistinctNames {store : Store} (h : store.InOrder) : store.HasDistinctNames := by
  cases store with
  | memory store => exact h
  | snapshot store => exact h.1
  | sql store =>
    obtain ⟨-, records, hmetrics, hdistinct, -⟩ := h
    intro rows hrows
    cases hmetrics.symm.trans hrows
    simpa only [List.map_map, Function.comp_def, Row.name_ofRecord] using hdistinct

/-- Updates never give a name a second record. -/
theorem Fresh.hasDistinctNames_run {world : World Store} (h : world.store.Fresh)
    (updates : List Service.Update) : (Service.Update.run updates world).store.HasDistinctNames :=
  (h.inOrder_run updates).hasDistinctNames

/-- A store of a server is listed, or it is a database that cannot be. -/
theorem getAll_cases (world : World Store) (h : world.store.HasDistinctNames) :
    (∃ records, Repository.Listed world records ∧ (records.map Record.name).Nodup) ∨
      ∃ part failure after, world.store = .sql part ∧
        Repository.getAll world = (.error failure, after) := by
  obtain ⟨store, host⟩ := world
  cases store with
  | memory part => exact .inl ⟨part.records, ⟨rfl, fun _ => rfl⟩, h⟩
  | snapshot part => exact .inl ⟨part.memory.records, ⟨rfl, fun _ => rfl⟩, h⟩
  | sql part =>
    rcases hall : Repository.getAll (⟨part, host⟩ : World SqlStore) with ⟨failure | records, after⟩
    · refine .inr ⟨part, failure, ⟨.sql after.store, after.host⟩, rfl, ?_⟩
      rw [sql_passesOn.getAll, hall]
      rfl
    · obtain ⟨hlisted, rows, hmetrics, hmap⟩ := SqlStore.listed_of_getAll (congrArg Prod.fst hall)
      refine .inl ⟨records, ⟨?_, fun name => ?_⟩, ?_⟩
      · rw [sql_passesOn.getAll, hlisted.getAll]
        rfl
      · rw [sql_passesOn.get, hlisted.get]
        rfl
      · rw [SqlStore.names_of_toRecord hmap]
        exact h rows hmetrics

end Store

end Telemetry
