import Telemetry.Proofs.Store.Memory
import Telemetry.Store.Database

/-!
# The contents of a table

The statements that write the table of metrics, seen through its contents. A table in good order has
one row for each of its names, every name is one that the schema admits, and a row has the one value
that its kind asks for, so the table is the image of a list of records. On such a table a statement
touches a row exactly when the record can be written, and a statement that touches none leaves the
database as it was.
-/

namespace Telemetry

open Number

def Row.ofRecord (record : Record) : Row :=
  match record.value with
  | .gauge x => ⟨record.name, .gauge, some x, .null⟩
  | .counter n => ⟨record.name, .counter, none, .integer n⟩

namespace Row

@[simp] theorem name_ofRecord (record : Record) : (ofRecord record).name = record.name := by
  rw [ofRecord]
  split <;> rfl

@[simp] theorem kind_ofRecord (record : Record) : (ofRecord record).kind = record.kind := by
  unfold ofRecord Record.kind
  split <;> rename_i hvalue <;> rw [hvalue] <;> rfl

@[simp] theorem toRecord_ofRecord (record : Record) : (ofRecord record).toRecord = .ok record := by
  obtain ⟨name, value⟩ := record
  cases value <;> rfl

theorem mapM_toRecord (records : List Record) :
    (records.map ofRecord).mapM toRecord = .ok records := by
  induction records with
  | nil => rfl
  | cons record records ih =>
    rw [List.map_cons, List.mapM_cons, toRecord_ofRecord, ih]
    rfl

end Row

/-- A new name must be one that the schema admits, the sign of a zero is dropped, and a batch that is
refused is taken back. -/
def Medium.table : Medium where
  refusal name :=
    if Database.admits name then none else some DatabaseFault.nameLength.failure
  keep := Binary64.plain
  transactional := true
  plain_keep := Binary64.plain_plain

namespace Database

theorem storedGauge_of_isFinite {x : Binary64} (hfinite : x.isFinite = true) :
    storedGauge x = some x.plain := by
  cases x with
  | finite negative m => rfl
  | nan => cases hfinite
  | infinite negative => cases hfinite

theorem newRow_eq {record : Record} (hfinite : record.value.isFinite = true) :
    newRow record = Row.ofRecord ⟨record.name, Medium.table.kept record.value⟩ := by
  obtain ⟨name, value⟩ := record
  cases value with
  | gauge x =>
    simp only [newRow, storedGauge_of_isFinite hfinite]
    rfl
  | counter n => rfl

/-- Writing a value of its kind to the row of a record is applying it to the record, and a row is
left alone exactly when the record refuses the value. -/
theorem write_ofRecord {stored : Record} {value : Value} (hkind : stored.kind = value.kind)
    (hfinite : value.isFinite = true) :
    write value (Row.ofRecord stored) = match stored.apply value with
      | .ok after => some (Row.ofRecord ⟨stored.name, Medium.table.kept after.value⟩)
      | .error _ => none := by
  obtain ⟨name, old⟩ := stored
  cases value with
  | gauge x =>
    cases old with
    | gauge y =>
      simp only [write, Record.apply, Row.ofRecord, storedGauge_of_isFinite hfinite]
      rfl
    | counter n => cases hkind
  | counter delta =>
    cases old with
    | gauge y => cases hkind
    | counter n =>
      cases hsum : addExact? n delta with
      | none => simp [write, Record.apply, Row.ofRecord, Tally.add, Tally.isInteger, hsum]
      | some sum => simp [write, Record.apply, Row.ofRecord, Tally.add, Tally.isInteger, Medium.kept, hsum]

theorem changeRow_absent {name : String} {kind : Kind} {change : Row → Option Row} {rows : List Row}
    (habsent : ∀ row ∈ rows, row.name ≠ name) :
    changeRow name kind change rows = (false, rows) := by
  induction rows with
  | nil => rfl
  | cons row rows ih =>
    have hrow : row.name ≠ name := habsent row List.mem_cons_self
    simp only [changeRow, hrow, decide_false, Bool.false_and, Bool.false_eq_true, if_false,
      ih fun other hmem => habsent other (List.mem_cons_of_mem _ hmem)]

/-- The row after it took a value, if the value is of its kind and a counter stays an integer. -/
def taken (value : Value) (row : Row) : Option Row :=
  if row.kind = value.kind then write value row else none

theorem taken_ofRecord (stored : Record) {value : Value} (hfinite : value.isFinite = true) :
    taken value (Row.ofRecord stored) = match stored.apply value with
      | .ok after => some (Row.ofRecord ⟨stored.name, Medium.table.kept after.value⟩)
      | .error _ => none := by
  rw [taken, Row.kind_ofRecord]
  by_cases hkind : stored.kind = value.kind
  · rw [if_pos hkind, write_ofRecord hkind hfinite]
  · have hrefused : stored.apply value
        = .error (.kindMismatch stored.name stored.kind value.kind) := by
      obtain ⟨name, old⟩ := stored
      cases old <;> cases value <;> first | rfl | exact absurd rfl hkind
    rw [if_neg hkind, hrefused]

/-- In a table with different names a value reaches the one row of its name, if that row takes it. -/
theorem changeRow_of_mem {rows : List Row} (hunique : (rows.map Row.name).Nodup) {row : Row}
    (hmem : row ∈ rows) (value : Value) :
    changeRow row.name value.kind (write value) rows = match taken value row with
      | some changed =>
        (true, rows.map fun other => if other.name = row.name then changed else other)
      | none => (false, rows) := by
  induction rows with
  | nil => cases hmem
  | cons first rest ih =>
    rw [List.map_cons, List.nodup_cons] at hunique
    by_cases hname : first.name = row.name
    · have hothers : ∀ other ∈ rest, other.name ≠ row.name := fun other hother heq =>
        hunique.1 (hname ▸ heq ▸ List.mem_map_of_mem hother)
      obtain rfl : row = first :=
        (List.mem_cons.1 hmem).resolve_right fun hrest => hothers row hrest rfl
      -- The statement stops at the first row of the name; there is no other that the map would reach.
      have hkept (changed : Row) :
          (rest.map fun other => if other.name = row.name then changed else other) = rest :=
        (List.map_congr_left fun other hother => if_neg (hothers other hother)).trans
          (List.map_id' rest)
      by_cases hkind : row.kind = value.kind
      · cases hwrite : write value row <;> simp [changeRow, taken, hkind, hwrite, hkept]
      · simp [changeRow, taken, hkind, changeRow_absent hothers]
    · have hrest : row ∈ rest :=
        (List.mem_cons.1 hmem).resolve_left fun heq => hname (congrArg Row.name heq).symm
      simp only [changeRow, hname, decide_false, Bool.false_and, Bool.false_eq_true, if_false,
        ih hunique.2 hrest, List.map_cons]
      cases taken value row <;> rfl

theorem changeRow_ofRecords {records : List Record} (hdistinct : (records.map Record.name).Nodup)
    (name : String) {value : Value} (hfinite : value.isFinite = true) :
    changeRow name value.kind (write value) (records.map Row.ofRecord)
      = match records.find? fun record => record.name == name with
        | none => (false, records.map Row.ofRecord)
        | some stored => match stored.apply value with
          | .ok after => (true, (records.map fun other => if other.name == name then
              ⟨name, Medium.table.kept after.value⟩ else other).map Row.ofRecord)
          | .error _ => (false, records.map Row.ofRecord) := by
  have hnames : ((records.map Row.ofRecord).map Row.name).Nodup := by
    simpa only [List.map_map, Function.comp_def, Row.name_ofRecord] using hdistinct
  cases hfind : records.find? fun record => record.name == name with
  | none =>
    refine changeRow_absent fun row hmem heq => ?_
    obtain ⟨record, hrecord, rfl⟩ := List.mem_map.1 hmem
    exact List.find?_eq_none.1 hfind record hrecord (by simpa using heq)
  | some stored =>
    obtain ⟨hstored, rfl⟩ := Contents.find?_name hfind
    have hchange := changeRow_of_mem hnames (List.mem_map_of_mem hstored) value
    rw [Row.name_ofRecord, taken_ofRecord stored hfinite] at hchange
    refine hchange.trans ?_
    dsimp only
    cases stored.apply value with
    | error failure => rfl
    | ok after =>
      refine congrArg (Prod.mk true) ?_
      rw [List.map_map, List.map_map]
      refine List.map_congr_left fun other _ => ?_
      by_cases hname : other.name = stored.name <;> simp [hname]

/-- The rows of the table of metrics are those of records with these contents. -/
def Shows (db : Database) (c : Contents) : Prop :=
  ∃ store : MemoryStore, db.metrics = some (store.records.map Row.ofRecord) ∧ store.Shows c ∧
    ∀ record ∈ store.records, admits record.name = true

variable {db : Database} {c : Contents}

theorem Shows.admits (h : db.Shows c) {name : String} {value : Value} (hstored : c name = some value) :
    Database.admits name = true := by
  obtain ⟨store, _, hstore, hadmits⟩ := h
  exact hadmits ⟨name, value⟩ ((hstore.lists.2 ⟨name, value⟩).2 hstored)

theorem Shows.rows (h : db.Shows c) :
    ∃ records, db.rows = .ok (records.map Row.ofRecord) ∧ c.Lists records := by
  obtain ⟨store, hmetrics, hstore, _⟩ := h
  exact ⟨store.records, by rw [Database.rows, hmetrics], hstore.lists⟩

theorem Shows.selectOne (h : db.Shows c) (name : String) :
    db.selectOne name = .ok ((c.record? name).map Row.ofRecord) := by
  obtain ⟨store, hmetrics, hstore, _⟩ := h
  have hfind : (store.records.map Row.ofRecord).find? (fun row => row.name == name)
      = (store.get? name).map Row.ofRecord := by
    rw [List.find?_map]
    congr 2
    funext record
    exact congrArg (· == name) (Row.name_ofRecord record)
  rw [Database.selectOne, Database.rows, hmetrics, ← hstore.get?, ← hfind]
  rfl

theorem Shows.selectKind (h : db.Shows c) (name : String) :
    db.selectKind name = .ok ((c name).map Value.kind) := by
  rw [Database.selectKind, h.selectOne]
  unfold Contents.record?
  cases c name with
  | none => rfl
  | some value => exact congrArg (fun kind => Except.ok (some kind)) (Row.kind_ofRecord ⟨name, value⟩)

theorem shows_put (db : Database) {store : MemoryStore} (hstore : store.Shows c)
    (hnames : ∀ record ∈ store.records, Database.admits record.name = true) (record : Record)
    (hadmits : Database.admits record.name = true) :
    ({ db with metrics := some ((store.put record).records.map Row.ofRecord) } : Database).Shows
      (c.set record.name record.value) := by
  refine ⟨store.put record, rfl, hstore.put record, fun other hmem => ?_⟩
  have hname : other.name ∈ (store.put record).records.map Record.name := List.mem_map_of_mem hmem
  have hold : other.name ∈ store.records.map Record.name → Database.admits other.name = true := by
    intro hmem
    obtain ⟨stored, hstored, heq⟩ := List.mem_map.1 hmem
    exact heq ▸ hnames stored hstored
  rw [MemoryStore.names_put] at hname
  split at hname
  · exact hold hname
  · rcases List.mem_append.1 hname with hname | hname
    · exact hold hname
    · rw [List.mem_singleton.1 hname]
      exact hadmits

/-- The statement that changes a row of a stored name touches it exactly when the record that is
stored takes the value. -/
theorem Shows.update (h : db.Shows c) {record : Record} {stored : Value}
    (hstored : c record.name = some stored) (hfinite : record.value.isFinite = true) :
    match c.write .table record with
    | (.ok (), after) => ∃ changed,
        Database.update record.name record.value db = .ok (true, changed) ∧ changed.Shows after
    | (.error _, _) => Database.update record.name record.value db = .ok (false, db) := by
  have hadmits := h.admits hstored
  obtain ⟨store, hmetrics, hstore, hnames⟩ := h
  have hfind : (store.records.find? fun other => other.name == record.name)
      = some ⟨record.name, stored⟩ := by
    change store.get? record.name = _
    rw [hstore.get?, Contents.record?, hstored]
    rfl
  have hchange := changeRow_ofRecords hstore.1 record.name hfinite
  rw [hfind] at hchange
  simp only [Database.update, Database.rows, hmetrics, hchange, Contents.write, hstored,
    Medium.next]
  cases happly : (⟨record.name, stored⟩ : Record).apply record.value with
  | error failure =>
    obtain ⟨metrics, versions⟩ := db
    cases hmetrics
    rfl
  | ok after =>
    refine ⟨_, rfl, ?_⟩
    have hany : (store.records.any fun other => other.name == record.name) = true :=
      List.any_eq_true.2 ⟨⟨record.name, stored⟩, (Contents.find?_name hfind).1, beq_self_eq_true _⟩
    have hput := shows_put db hstore hnames ⟨record.name, Medium.table.kept after.value⟩ hadmits
    unfold MemoryStore.put at hput
    rw [if_pos hany] at hput
    exact hput

/-- On a stored name the two statements do the same. -/
theorem Shows.upsert_eq_update (h : db.Shows c) {record : Record} {stored : Value}
    (hstored : c record.name = some stored) :
    Database.upsert record db = Database.update record.name record.value db := by
  have hadmits := h.admits hstored
  obtain ⟨store, hmetrics, hstore, _⟩ := h
  have hmem : (⟨record.name, stored⟩ : Record) ∈ store.records :=
    (hstore.lists.2 ⟨record.name, stored⟩).2 hstored
  have hany : ((store.records.map Row.ofRecord).any fun row => row.name == record.name) = true :=
    List.any_eq_true.2 ⟨_, List.mem_map_of_mem hmem, by simp⟩
  simp only [Database.upsert, Database.update, Database.rows, hmetrics, hadmits, hany, Bool.not_true,
    Bool.false_eq_true, if_false, if_true]
  rfl

/-- The statement that inserts a record of a new name is refused exactly when the schema refuses the
name. -/
theorem Shows.upsert_new (h : db.Shows c) {record : Record} (habsent : c record.name = none)
    (hfinite : record.value.isFinite = true) :
    match c.write .table record with
    | (.ok (), after) => ∃ changed, Database.upsert record db = .ok (true, changed) ∧
        changed.Shows after
    | (.error failure, _) => Database.upsert record db = .error .nameLength ∧
        failure = DatabaseFault.nameLength.failure := by
  obtain ⟨store, hmetrics, hstore, hnames⟩ := h
  have hnot : ∀ other ∈ store.records, other.name ≠ record.name := by
    intro other hmem heq
    have hsome := (hstore.lists.2 other).1 hmem
    rw [heq, habsent] at hsome
    cases hsome
  have hany : ((store.records.map Row.ofRecord).any fun row => row.name == record.name) = false := by
    rw [List.any_eq_false]
    intro row hmem
    obtain ⟨other, hother, rfl⟩ := List.mem_map.1 hmem
    simpa using hnot other hother
  have hnone : (store.records.any fun other => other.name == record.name) = false := by
    rw [List.any_eq_false]
    exact fun other hmem => by simpa using hnot other hmem
  simp only [Database.upsert, Database.rows, hmetrics, Contents.write, habsent, Medium.next]
  by_cases hadmits : Database.admits record.name = true
  · simp only [Medium.table, hadmits, if_true, Bool.not_true, Bool.false_eq_true, if_false, hany]
    refine ⟨_, rfl, ?_⟩
    have hput := shows_put db hstore hnames ⟨record.name, Medium.table.kept record.value⟩ hadmits
    unfold MemoryStore.put at hput
    rw [if_neg (by simp [hnone]), List.map_append, List.map_singleton, ← newRow_eq hfinite] at hput
    exact hput
  · simp [Medium.table, hadmits]

end Database

end Telemetry
