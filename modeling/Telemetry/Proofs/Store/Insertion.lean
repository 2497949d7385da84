import Mathlib.Data.List.Nodup
import Telemetry.Proofs.Store.Sql

/-!
# Inserting a record into a table

The names of a table are unique, so an insertion meets one row at most. Where it meets none the record
becomes a row. Where it meets one, the statement writes to the row or touches nothing, and only then
is the reason looked up, from the kind of the row alone; what has to be shown is that this is the
reason for which nothing was touched. Nothing is assumed of the values of the rows: they may have been
damaged from outside. A row that holds a record takes a value exactly as the record does.
-/

namespace Telemetry

open Number

/-- The exact sum is no signed 64-bit integer. -/
def Overflows (n delta : Int64) : Prop :=
  ¬ (-0x8000000000000000 ≤ n.toInt + delta.toInt ∧ n.toInt + delta.toInt < 0x8000000000000000)

theorem addExact?_eq_none_iff {n delta : Int64} : addExact? n delta = none ↔ Overflows n delta := by
  rw [Overflows, ← fitsInt64_iff, addExact?]
  split <;> simp_all

namespace Record

variable {record : Record} {incoming : Value}

theorem apply_kindMismatch_iff :
    record.apply incoming = .error (.kindMismatch record.name record.kind incoming.kind) ↔
      record.kind ≠ incoming.kind := by
  obtain ⟨name, stored⟩ := record
  cases stored <;> cases incoming <;> try simp [apply, kind, Value.kind]
  split <;> simp

theorem apply_counterOverflow_iff :
    record.apply incoming = .error (.counterOverflow record.name) ↔
      ∃ n delta, record.value = .counter n ∧ incoming = .counter delta ∧ Overflows n delta := by
  obtain ⟨name, stored⟩ := record
  constructor
  · intro h
    cases stored with
    | gauge x => cases incoming <;> cases h
    | counter n =>
      cases incoming with
      | gauge y => cases h
      | counter delta =>
        cases hsum : addExact? n delta with
        | none => exact ⟨n, delta, rfl, rfl, addExact?_eq_none_iff.1 hsum⟩
        | some sum => simp [apply, hsum] at h
  · rintro ⟨n, delta, hstored, rfl, hsum⟩
    cases hstored
    simp only [apply, addExact?_eq_none_iff.2 hsum]

end Record

namespace Database

variable {db : Database} {rows : List Row} {row : Row} {record : Record}

theorem find?_of_mem (hunique : (rows.map Row.name).Nodup) (hmem : row ∈ rows) :
    (rows.find? fun other => other.name == row.name) = some row := by
  cases hfind : rows.find? fun other => other.name == row.name with
  | none => exact absurd (beq_self_eq_true row.name) (List.find?_eq_none.1 hfind row hmem)
  | some other =>
    have hname : other.name = row.name := by simpa using List.find?_some hfind
    exact congrArg some
      (List.inj_on_of_nodup_map hunique (List.mem_of_find?_eq_some hfind) hmem hname)

theorem selectKind_of_mem (hrows : db.metrics = some rows) (hunique : (rows.map Row.name).Nodup)
    (hmem : row ∈ rows) : db.selectKind row.name = .ok (some row.kind) := by
  rw [selectKind, selectOne, Database.rows, hrows]
  exact congrArg (fun found => Except.ok (found.map Row.kind)) (find?_of_mem hunique hmem)

theorem upsert_of_absent (hrows : db.metrics = some rows) (hadmits : admits record.name = true)
    (habsent : ∀ row ∈ rows, row.name ≠ record.name) :
    upsert record db = .ok (true, { db with metrics := some (rows ++ [newRow record]) }) := by
  have hany : (rows.any fun row => row.name == record.name) = false := by
    rw [List.any_eq_false]
    exact fun row hmem => by simpa using habsent row hmem
  simp only [upsert, Database.rows, hrows, hadmits, hany, Bool.not_true, Bool.false_eq_true, if_false]

/-- The statement changes the row of the name of the record if it takes the value. -/
theorem upsert_of_mem (hrows : db.metrics = some rows) (hadmits : admits record.name = true)
    (hunique : (rows.map Row.name).Nodup) (hmem : row ∈ rows) (hname : row.name = record.name) :
    upsert record db = match taken record.value row with
      | some changed => .ok (true, { db with
          metrics := some (rows.map fun other => if other.name = record.name then changed else other) })
      | none => .ok (false, db) := by
  have hany : (rows.any fun other => other.name == record.name) = true :=
    List.any_eq_true.2 ⟨row, hmem, by simpa using hname⟩
  have hchange := changeRow_of_mem hunique hmem record.value
  rw [hname] at hchange
  have hstatement : upsert record db
      = .ok ((changeRow record.name record.value.kind (write record.value) rows).1, { db with
          metrics := some (changeRow record.name record.value.kind (write record.value) rows).2 }) := by
    simp only [upsert, Database.rows, hrows, hadmits, hany, Bool.not_true, Bool.false_eq_true, if_false,
      if_true]
    rfl
  rw [hstatement, hchange]
  cases taken record.value row with
  | some changed => rfl
  | none =>
    obtain ⟨metrics, versions⟩ := db
    cases hrows
    rfl

/-- A value that a row does not take is of the other kind, or is to be added to an integer with which
it has no sum, or the counter of the row is no integer. -/
theorem taken_none {value : Value} (h : taken value row = none) :
    row.kind ≠ value.kind ∨ ∃ delta, value = .counter delta ∧ row.kind = .counter ∧
      ∀ n, row.counter = .integer n → Overflows n delta := by
  by_cases hkind : row.kind = value.kind
  · rw [taken, if_pos hkind] at h
    cases value with
    | gauge x => cases h
    | counter delta =>
      refine .inr ⟨delta, rfl, hkind, fun n hcounter => ?_⟩
      cases hsum : addExact? n delta with
      | none => exact addExact?_eq_none_iff.1 hsum
      | some sum => simp [write, hcounter, Tally.add, Tally.isInteger, hsum] at h
  · exact .inl hkind

end Database

namespace SqlStore

variable {world : World SqlStore} {rows : List Row} {record : Record}

def withRows (store : SqlStore) (rows : List Row) : SqlStore :=
  { store with database := { store.database with metrics := some rows } }

/-- The store is open and can be written, and its table has these rows, each with its own name. -/
structure Conforms (store : SqlStore) (rows : List Row) : Prop where
  isOpen : store.isOpen = true
  writable : store.readOnly = false
  table : store.database.metrics = some rows
  unique : (rows.map Row.name).Nodup

/-- What becomes of an insertion: a new row, a row that took the value, or a diagnosis of the row that
did not. -/
inductive Inserted (store : SqlStore) (rows : List Row) (record : Record) :
    Except Failure Unit → SqlStore → Prop where
  | created (habsent : ∀ row ∈ rows, row.name ≠ record.name) :
    Inserted store rows record (.ok ()) (store.withRows (rows ++ [Database.newRow record]))
  | written (row changed : Row) (hmem : row ∈ rows) (hname : row.name = record.name)
    (htaken : Database.taken record.value row = some changed) :
    Inserted store rows record (.ok ())
      (store.withRows (rows.map fun other => if other.name = record.name then changed else other))
  | refused (row : Row) (hmem : row ∈ rows) (hname : row.name = record.name)
    (htaken : Database.taken record.value row = none) :
    Inserted store rows record (.error (diagnosis record.name row.kind record.kind)) store

theorem insert_apply (hopen : world.store.isOpen = true) (record : Record) :
    Repository.insert record world = upsertRecord record world := by
  change (requireOpen .acquire >>= fun _ => upsertRecord record) world = _
  rw [Action.bind_apply, requireOpen_apply hopen]

theorem upsertRecord_touched (hwritable : world.store.readOnly = false) {db : Database}
    (h : Database.upsert record world.store.database = .ok (true, db)) :
    upsertRecord record world = (.ok (), (keep db world).2) := by
  rw [upsertRecord, Action.bind_apply, execute_apply hwritable h]
  rfl

theorem Conforms.insert (h : world.store.Conforms rows) (hadmits : Database.admits record.name = true) :
    Inserted world.store rows record (Repository.insert record world).1
      (Repository.insert record world).2.store := by
  rw [insert_apply h.isOpen]
  by_cases hstored : ∃ row ∈ rows, row.name = record.name
  · obtain ⟨row, hmem, hname⟩ := hstored
    have hstatement := Database.upsert_of_mem h.table hadmits h.unique hmem hname
    cases htaken : Database.taken record.value row with
    | some changed =>
      rw [htaken] at hstatement
      rw [upsertRecord_touched h.writable hstatement]
      exact .written row changed hmem hname htaken
    | none =>
      rw [htaken] at hstatement
      -- The database is kept as it was, and the diagnosis reads it then.
      have hkind : storedKind record.name (keep world.store.database world).2
          = (.ok (some row.kind), (keep world.store.database world).2) :=
        query_apply (hname ▸ Database.selectKind_of_mem h.table h.unique hmem)
      have hrefused : upsertRecord record world
          = (.error (diagnosis record.name row.kind record.kind),
            (keep world.store.database world).2) := by
        rw [upsertRecord, Action.bind_apply, execute_apply h.writable hstatement]
        simp only [Bool.false_eq_true, if_false, refuse, Action.bind_apply, hkind, diagnosis]
        split <;> rfl
      rw [hrefused]
      exact .refused row hmem hname htaken
  · have habsent : ∀ row ∈ rows, row.name ≠ record.name := fun row hmem hname =>
      hstored ⟨row, hmem, hname⟩
    rw [upsertRecord_touched h.writable (Database.upsert_of_absent h.table hadmits habsent)]
    exact .created habsent

/-- What an insertion comes to. It creates a row, or does to the stored record what an observation
does; and it is refused for the kind of the row or for the sum, which leaves the store as it was. Only
of a counter whose column holds no integer is an overflow reported where there is no sum. -/
structure Folds (world : World SqlStore) (rows : List Row) (record : Record) : Prop where
  created (habsent : ∀ row ∈ rows, row.name ≠ record.name) :
    (Repository.insert record world).1 = .ok () ∧ (Repository.insert record world).2.store
      = world.store.withRows (rows ++ [Row.ofRecord ⟨record.name, Medium.table.kept record.value⟩])
  result {stored : Record} (hname : stored.name = record.name) (hmem : Row.ofRecord stored ∈ rows) :
    (Repository.insert record world).1 = (stored.apply record.value).map fun _ => ()
  written {stored : Record} (hname : stored.name = record.name) (hmem : Row.ofRecord stored ∈ rows)
    {after : Record} (happly : stored.apply record.value = .ok after) :
    (Repository.insert record world).2.store = world.store.withRows (rows.map fun row =>
      if row.name = record.name then Row.ofRecord ⟨record.name, Medium.table.kept after.value⟩ else row)
  mismatched_iff {stored : Record} (hname : stored.name = record.name)
    (hmem : Row.ofRecord stored ∈ rows) :
    (Repository.insert record world).1 = .error (.kindMismatch record.name stored.kind record.kind) ↔
      stored.kind ≠ record.kind
  overflown_iff {stored : Record} (hname : stored.name = record.name)
    (hmem : Row.ofRecord stored ∈ rows) :
    (Repository.insert record world).1 = .error (.counterOverflow record.name) ↔
      ∃ n delta, stored.value = .counter n ∧ record.value = .counter delta ∧ Overflows n delta
  refused {failure : Failure} (hrefused : (Repository.insert record world).1 = .error failure) :
    (Repository.insert record world).2.store = world.store ∧ ∃ row ∈ rows, row.name = record.name ∧
      ((row.kind ≠ record.kind ∧ failure = .kindMismatch record.name row.kind record.kind) ∨
        ∃ delta, record.value = .counter delta ∧ row.kind = .counter ∧
          failure = .counterOverflow record.name ∧ ∀ n, row.counter = .integer n → Overflows n delta)

theorem Inserted.of_mem {store after : SqlStore} {result : Except Failure Unit} {row : Row}
    (h : Inserted store rows record result after) (hunique : (rows.map Row.name).Nodup)
    (hmem : row ∈ rows) (hname : row.name = record.name) :
    match Database.taken record.value row with
    | some changed => result = .ok () ∧ after = store.withRows
        (rows.map fun other => if other.name = record.name then changed else other)
    | none => result = .error (diagnosis record.name row.kind record.kind) ∧ after = store := by
  have same {other : Row} (hother : other ∈ rows) (hothers : other.name = record.name) : other = row :=
    List.inj_on_of_nodup_map hunique hother hmem (hothers.trans hname.symm)
  cases h with
  | created habsent => exact absurd hname (habsent row hmem)
  | written other changed hother hothers htaken =>
    obtain rfl := same hother hothers
    rw [htaken]
    exact ⟨rfl, rfl⟩
  | refused other hother hothers htaken =>
    obtain rfl := same hother hothers
    rw [htaken]
    exact ⟨rfl, rfl⟩

/-- The row of a record takes what the record takes, and the diagnosis of a row that took nothing is
the reason for which the record refuses. -/
theorem Inserted.of_record {store after : SqlStore} {result : Except Failure Unit} {stored : Record}
    (h : Inserted store rows record result after) (hunique : (rows.map Row.name).Nodup)
    (hfinite : record.value.isFinite = true) (hname : stored.name = record.name)
    (hmem : Row.ofRecord stored ∈ rows) :
    match stored.apply record.value with
    | .ok changed => result = .ok () ∧ after = store.withRows (rows.map fun row =>
        if row.name = record.name then Row.ofRecord ⟨record.name, Medium.table.kept changed.value⟩
        else row)
    | .error failure => result = .error failure ∧ after = store := by
  have hrow := h.of_mem hunique hmem ((Row.name_ofRecord stored).trans hname)
  rw [Database.taken_ofRecord stored hfinite, Row.kind_ofRecord, hname] at hrow
  cases happly : stored.apply record.value with
  | ok changed =>
    rw [happly] at hrow
    exact hrow
  | error failure =>
    rw [happly] at hrow
    have hnext : Medium.table.next record (some stored.value) = .error failure := by
      rw [Medium.next, ← hname, happly]
      rfl
    have hdiagnosis : diagnosis record.name stored.kind record.kind = failure := diagnosis_eq hnext
    rw [hdiagnosis] at hrow
    exact hrow

theorem Inserted.of_error {store after : SqlStore} {failure : Failure}
    (h : Inserted store rows record (.error failure) after) :
    after = store ∧ ∃ row ∈ rows, row.name = record.name ∧
      ((row.kind ≠ record.kind ∧ failure = .kindMismatch record.name row.kind record.kind) ∨
        ∃ delta, record.value = .counter delta ∧ row.kind = .counter ∧
          failure = .counterOverflow record.name ∧
            ∀ n, row.counter = .integer n → Overflows n delta) := by
  cases h with
  | refused row hmem hname htaken =>
    refine ⟨rfl, row, hmem, hname, ?_⟩
    rcases Database.taken_none htaken with hkind | ⟨delta, hvalue, hcounter, hsum⟩
    · exact .inl ⟨hkind, if_pos hkind⟩
    · have hkind : row.kind = record.kind := by rw [hcounter, Record.kind, hvalue]; rfl
      exact .inr ⟨delta, hvalue, hcounter, if_neg (not_not_intro hkind), hsum⟩

/-- On every table with unique names, the insertion of a record that the schema admits creates a row or
does to the stored record what an observation does; it is refused for no other reasons, each of which
is the one that is reported. -/
theorem insert_folds (h : world.store.Conforms rows) (hadmits : Database.admits record.name = true)
    (hfinite : record.value.isFinite = true) : Folds world rows record := by
  have hinserted := h.insert hadmits
  have hresult {stored : Record} (hname : stored.name = record.name)
      (hmem : Row.ofRecord stored ∈ rows) :
      (Repository.insert record world).1 = (stored.apply record.value).map fun _ => () := by
    have hrecord := hinserted.of_record h.unique hfinite hname hmem
    cases happly : stored.apply record.value <;> rw [happly] at hrecord <;> exact hrecord.1
  have herror {stored : Record} (hname : stored.name = record.name) (hmem : Row.ofRecord stored ∈ rows)
      (failure : Failure) : (Repository.insert record world).1 = .error failure ↔
        stored.apply record.value = .error failure := by
    rw [hresult hname hmem]
    cases stored.apply record.value <;> simp [Except.map]
  constructor
  · intro habsent
    generalize (Repository.insert record world).1 = result at hinserted
    generalize (Repository.insert record world).2.store = after at hinserted
    cases hinserted with
    | created _ => exact ⟨rfl, by rw [Database.newRow_eq hfinite]⟩
    | written row _ hmem hname _ => exact absurd hname (habsent row hmem)
    | refused row hmem hname _ => exact absurd hname (habsent row hmem)
  · exact hresult
  · intro stored hname hmem after happly
    have hrecord := hinserted.of_record h.unique hfinite hname hmem
    rw [happly] at hrecord
    exact hrecord.2
  · intro stored hname hmem
    rw [herror hname hmem, ← hname]
    exact Record.apply_kindMismatch_iff
  · intro stored hname hmem
    rw [herror hname hmem, ← hname]
    exact Record.apply_counterOverflow_iff
  · intro failure hrefused
    rw [hrefused] at hinserted
    exact hinserted.of_error

/-- A counter at its limit refuses to go on, beside a row that has lost its value. -/
theorem insert_folds_at_limit :
    let limit : Record := ⟨"a", .counter Int64.maxValue⟩
    let rows : List Row := [⟨"b", .gauge, none, .null⟩, Row.ofRecord limit]
    let world : World SqlStore := ⟨⟨⟨some rows, none⟩, none, false, true⟩, ⟨[], Counters.empty, 0⟩⟩
    let one : Record := ⟨"a", .counter 1⟩
    world.store.Conforms rows ∧ Database.admits one.name = true ∧ one.value.isFinite = true ∧
      (Repository.insert one world).1 = .error (.counterOverflow "a") ∧
      (Repository.insert one world).2.store = world.store := by
  intro limit rows world one
  have hconforms : world.store.Conforms rows := ⟨rfl, rfl, rfl, by decide⟩
  have hadmits : Database.admits one.name = true := by decide
  have hfolds : Folds world rows one := insert_folds hconforms hadmits rfl
  have hoverflows : Overflows Int64.maxValue 1 := by
    rw [Overflows]
    decide
  have hname : limit.name = one.name := rfl
  have hmem : Row.ofRecord limit ∈ rows := .tail _ (.head _)
  have hresult : (Repository.insert one world).1 = .error (.counterOverflow "a") :=
    (hfolds.overflown_iff hname hmem).2 ⟨Int64.maxValue, 1, rfl, rfl, hoverflows⟩
  exact ⟨hconforms, hadmits, rfl, hresult, (hfolds.refused hresult).1⟩

end SqlStore

end Telemetry
