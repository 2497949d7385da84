import Telemetry.Proofs.Store.Choice
import Telemetry.Proofs.Store.Mutation

/-!
# What a store holds under a name

A look-up depends on the store alone, and one that succeeds changes nothing. What it finds bears the
name that was looked up, and a record that was written is found with its kind from then on. All of this
holds in every state of a store, also in those that no requests lead to: a database may have been
damaged from outside, so that a row has one kind and holds a value of the other, or two rows have one
name.
-/

namespace Telemetry

theorem Action.bind_done {σ α β : Type} {action : Action σ α} {next : α → Action σ β} {b : β}
    {world : World σ} (h : ((action >>= next) world).1 = .ok b) :
    ∃ a after, action world = (.ok a, after) ∧ (action >>= next) world = next a after := by
  rw [bind_apply] at h ⊢
  rcases haction : action world with ⟨failure | a, after⟩
  · rw [haction] at h
    cases h
  · exact ⟨a, after, rfl, rfl⟩

/-- What a repository holds under a name, in any state. -/
structure Repository.Holdings (σ : Type) [Repository σ] where
  held : σ → String → Except Failure (Option Record)
  get (name : String) (world : World σ) : (Repository.get name world).1 = held world.store name
  get_world {name : String} {world : World σ} {found : Option Record}
    (h : held world.store name = .ok found) : (Repository.get name world).2 = world
  name {store : σ} {name : String} {record : Record} (h : held store name = .ok (some record)) :
    record.name = name
  kind {name : String} {value : Value} {existing : Option Record} {stored : Record} {world : World σ}
    (hexisting : held world.store name = .ok existing)
    (hdone : (Repository.write name value existing world).1 = .ok ())
    (hstored : held (Repository.write name value existing world).2.store name = .ok (some stored)) :
    stored.kind = value.kind

namespace Repository.Holdings

variable {σ : Type} [Repository σ] (holdings : Repository.Holdings σ) {world : World σ}

theorem get_eq {name : String} {found : Option Record}
    (h : (Repository.get name world).1 = .ok found) :
    Repository.get name world = (.ok found, world) ∧ holdings.held world.store name = .ok found := by
  have hheld : holdings.held world.store name = .ok found := (holdings.get name world).symm.trans h
  exact ⟨Prod.ext h (holdings.get_world hheld), hheld⟩

theorem get_of_held {name : String} {found : Option Record}
    (h : holdings.held world.store name = .ok found) : Repository.get name world = (.ok found, world) :=
  Prod.ext ((holdings.get name world).trans h) (holdings.get_world h)

end Repository.Holdings

theorem Record.kind_of_apply {record after : Record} {incoming : Value}
    (h : record.apply incoming = .ok after) : after.kind = incoming.kind := by
  obtain ⟨name, stored⟩ := record
  have hnext : Medium.memory.next ⟨name, incoming⟩ (some stored) = .ok after.value := by
    rw [Medium.next, h]
    exact congrArg Except.ok (Medium.kept_memory after.value)
  obtain ⟨hkind, hafter⟩ := Medium.kind_next hnext
  exact hafter.trans hkind

/-! ### In memory -/

namespace MemoryStore

variable {name : String} {value : Value} {stored : Record}

theorem kind_of_write {existing : Option Record} {world : World MemoryStore}
    (hexisting : world.store.get? name = existing)
    (hdone : (Repository.write name value existing world).1 = .ok ())
    (hstored : (Repository.write name value existing world).2.store.get? name = some stored) :
    stored.kind = value.kind := by
  cases existing with
  | none =>
    have hput : (world.store.put ⟨name, value⟩).get? name = some stored := hstored
    rw [get?_put, if_pos rfl] at hput
    cases hput
    rfl
  | some record =>
    obtain ⟨-, rfl⟩ := Contents.find?_name hexisting
    have hwrite : Repository.write record.name value (some record) world
        = change (fun store => store.apply record.name value) world := rfl
    have happly : world.store.apply record.name value = (record.apply value).map world.store.put := by
      rw [apply, hexisting]
    rw [hwrite] at hdone hstored
    rw [change, happly] at hdone hstored
    cases hafter : record.apply value with
    | error failure =>
      rw [hafter] at hdone
      cases hdone
    | ok after =>
      rw [hafter] at hstored
      change (world.store.put after).get? record.name = some stored at hstored
      rw [get?_put, if_pos (Record.apply_name hafter).symm] at hstored
      cases hstored
      exact Record.kind_of_apply hafter

def holdings : Repository.Holdings MemoryStore where
  held store name := .ok (store.get? name)
  get _ _ := rfl
  get_world _ := rfl
  name h := (Contents.find?_name (Except.ok.inj h)).2
  kind hexisting hdone hstored :=
    kind_of_write (Except.ok.inj hexisting) hdone (Except.ok.inj hstored)

end MemoryStore

/-! ### With a snapshot file -/

namespace SnapshotStore

theorem memory_backupIfDue (world : World SnapshotStore) :
    (backupIfDue world).2.store.memory = world.store.memory := by
  cases hbackup : world.store.backup with
  | none => rw [backupIfDue, hbackup]
  | some backup =>
    rw [backupIfDue_eq hbackup]
    split
    · split <;> rfl
    · rfl

/-- What was written is in memory, whatever became of the backup. -/
theorem write_done {name : String} {value : Value} {existing : Option Record}
    {world : World SnapshotStore} (hdone : (Repository.write name value existing world).1 = .ok ()) :
    let memory : World MemoryStore := ⟨world.store.memory, world.host⟩
    (Repository.write name value existing memory).1 = .ok () ∧
      (Repository.write name value existing world).2.store.memory
        = (Repository.write name value existing memory).2.store := by
  intro memory
  rw [write_eq] at hdone ⊢
  obtain ⟨⟨⟩, after, hfirst, hwrite⟩ := Action.bind_done hdone
  rw [hwrite]
  rw [inMemory_apply (MemoryStore.keepsHost_write _ _ _)] at hfirst
  refine ⟨congrArg Prod.fst hfirst, (memory_backupIfDue after).trans ?_⟩
  exact congrArg (fun outcome => outcome.2.store.memory) hfirst.symm

def holdings : Repository.Holdings SnapshotStore where
  held store name := .ok (store.memory.get? name)
  get _ _ := rfl
  get_world _ := rfl
  name h := (Contents.find?_name (Except.ok.inj h)).2
  kind hexisting hdone hstored := by
    obtain ⟨hmemory, hafter⟩ := write_done hdone
    rw [hafter] at hstored
    exact MemoryStore.kind_of_write (Except.ok.inj hexisting) hmemory (Except.ok.inj hstored)

end SnapshotStore

/-! ### In a database -/

namespace Row

/-- A row that describes a record has a gauge and no counter, or the other way round. -/
theorem toRecord_cases {row : Row} {record : Record} (h : row.toRecord = .ok record) :
    (∃ x, row.gauge = some x ∧ row.counter = .null ∧ record = ⟨row.name, .gauge x⟩) ∨
      ∃ n, row.gauge = none ∧ row.counter = .integer n ∧ record = ⟨row.name, .counter n⟩ := by
  rw [toRecord] at h
  split at h
  · rename_i x hgauge hcounter
    exact .inl ⟨x, hgauge, hcounter, (Except.ok.inj h).symm⟩
  · rename_i n hgauge hcounter
    exact .inr ⟨n, hgauge, hcounter, (Except.ok.inj h).symm⟩
  · cases h

theorem name_of_toRecord {row : Row} {record : Record} (h : row.toRecord = .ok record) :
    record.name = row.name := by
  obtain ⟨x, -, -, rfl⟩ | ⟨n, -, -, rfl⟩ := toRecord_cases h <;> rfl

theorem kind_of_newRow {record stored : Record}
    (h : (Database.newRow record).toRecord = .ok stored) : stored.kind = record.kind := by
  obtain ⟨name, value⟩ := record
  obtain ⟨x, -, hcounter, rfl⟩ | ⟨n, -, hcounter, rfl⟩ := toRecord_cases h
  · cases value with
    | gauge y => rfl
    | counter n => cases hcounter
  · cases value with
    | gauge y => cases hcounter
    | counter n => rfl

theorem kind_of_write {row changed : Row} {value : Value} {record stored : Record}
    (hrecord : row.toRecord = .ok record) (hkind : record.kind = value.kind)
    (hwrite : Database.write value row = some changed) (hstored : changed.toRecord = .ok stored) :
    stored.kind = value.kind := by
  cases value with
  | gauge y =>
    obtain ⟨x, -, hcounter, rfl⟩ | ⟨n, -, -, rfl⟩ := toRecord_cases hrecord
    · cases hwrite
      obtain ⟨x', -, -, rfl⟩ | ⟨n, -, hinteger, -⟩ := toRecord_cases hstored
      · rfl
      · cases hcounter.symm.trans hinteger
    · cases hkind
  | counter delta =>
    obtain ⟨x, -, -, rfl⟩ | ⟨n, hgauge, -, rfl⟩ := toRecord_cases hrecord
    · cases hkind
    · have hkept : changed.gauge = none := by
        rw [Database.write] at hwrite
        split at hwrite
        · cases hwrite
          exact hgauge
        · cases hwrite
      obtain ⟨x, hsome, -, -⟩ | ⟨m, -, -, rfl⟩ := toRecord_cases hstored
      · cases hkept.symm.trans hsome
      · rfl

theorem name_write {value : Value} {row changed : Row}
    (h : Database.write value row = some changed) : changed.name = row.name := by
  cases value with
  | gauge x =>
    cases h
    rfl
  | counter delta =>
    rw [Database.write] at h
    split at h
    · cases h
      rfl
    · cases h

end Row

namespace Database

/-- After a change, the first row of a name is the one it was, or what the change makes of it. -/
theorem find?_changeRow {name : String} (kind : Kind) {change : Row → Option Row} {rows : List Row}
    {row : Row} (hname : ∀ row changed, change row = some changed → changed.name = row.name)
    (hrow : (rows.find? fun row => row.name == name) = some row) :
    ∃ after, ((changeRow name kind change rows).2.find? fun row => row.name == name) = some after ∧
      (after = row ∨ change row = some after) := by
  induction rows with
  | nil => cases hrow
  | cons first rest ih =>
    rw [changeRow]
    by_cases hfirst : first.name = name
    · rw [List.find?_cons_of_pos (by simpa using hfirst), Option.some.injEq] at hrow
      subst hrow
      have hfound (after : Row) (rows : List Row) (h : after.name = name) :
          ((after :: rows).find? fun row => row.name == name) = some after :=
        List.find?_cons_of_pos (by simpa using h)
      split
      · cases hchange : change first with
        | none => exact ⟨first, hfound first rest hfirst, .inl rfl⟩
        | some changed =>
          exact ⟨changed, hfound changed rest ((hname first changed hchange).trans hfirst), .inr rfl⟩
      · exact ⟨first, hfound first _ hfirst, .inl rfl⟩
    · rw [List.find?_cons_of_neg (by simpa using hfirst)] at hrow
      rw [if_neg (by simp [hfirst])]
      obtain ⟨after, hafter, hcases⟩ := ih hrow
      exact ⟨after, (List.find?_cons_of_neg (by simpa using hfirst)).trans hafter, hcases⟩

end Database

namespace SqlStore

variable {world : World SqlStore}

def held (store : SqlStore) (name : String) : Except Failure (Option Record) :=
  if store.isOpen then match store.database.selectOne name with
    | .error fault => .error fault.failure
    | .ok none => .ok none
    | .ok (some row) => row.toRecord.map some
  else .error DatabaseFault.closed.failure

theorem get_eq (name : String) : (Repository.get name : Action SqlStore (Option Record)) = (do
    requireOpen .get
    match ← query .get (Database.selectOne name) with
    | none => pure none
    | some row => some <$> Action.ofResult row.toRecord) := rfl

theorem describe_apply (row : Row) (world : World SqlStore) :
    (some <$> Action.ofResult row.toRecord : Action SqlStore (Option Record)) world
      = (row.toRecord.map some, world) := by
  cases hrecord : row.toRecord <;> rfl

theorem get_held (name : String) (world : World SqlStore) :
    (Repository.get name world).1 = held world.store name := by
  rw [get_eq, held, Action.bind_apply, requireOpen]
  cases world.store.isOpen with
  | false => rfl
  | true =>
    simp only [if_true, Action.bind_apply, query]
    cases world.store.database.selectOne name with
    | error fault => rfl
    | ok row =>
      cases row with
      | none => rfl
      | some row => exact congrArg Prod.fst (describe_apply row world)

theorem get_world {name : String} {found : Option Record} (h : held world.store name = .ok found) :
    (Repository.get name world).2 = world := by
  rw [held] at h
  rw [get_eq, Action.bind_apply, requireOpen]
  cases hopen : world.store.isOpen with
  | false =>
    rw [hopen] at h
    cases h
  | true =>
    simp only [hopen, if_true] at h
    simp only [if_true, Action.bind_apply, query]
    cases hrow : world.store.database.selectOne name with
    | error fault =>
      rw [hrow] at h
      cases h
    | ok row =>
      cases row with
      | none => rfl
      | some row => exact congrArg Prod.snd (describe_apply row world)

/-! ### Statements -/

theorem requireOpen_done {operation : DatabaseOperation} {after : World SqlStore}
    (h : requireOpen operation world = (.ok (), after)) :
    world.store.isOpen = true ∧ after = world := by
  rw [requireOpen] at h
  split at h
  · rename_i hopen
    exact ⟨hopen, (Prod.mk.inj h).2.symm⟩
  · cases h

theorem execute_done {operation : DatabaseOperation}
    {statement : Database → Except DatabaseFault (Bool × Database)} {touched : Bool}
    {after : World SqlStore} (h : execute operation statement world = (.ok touched, after)) :
    ∃ db, statement world.store.database = .ok (touched, db) ∧
      after.store = { world.store with database := db } := by
  rw [execute] at h
  split at h
  · cases h
  · split at h
    · cases h
    · split at h
      · cases h
      · rename_i found db hstatement
        cases h
        exact ⟨db, hstatement, rfl⟩

theorem refuse_ne_done (name : String) (incoming : Kind) (world : World SqlStore) :
    (refuse name incoming world).1 ≠ .ok () := by
  intro h
  rw [refuse] at h
  obtain ⟨stored, after, -, hrest⟩ := Action.bind_done h
  rw [hrest] at h
  cases stored with
  | none => cases h
  | some stored =>
    dsimp only at h
    split at h <;> cases h

theorem statement_done {operation : DatabaseOperation}
    {statement : Database → Except DatabaseFault (Bool × Database)} {name : String} {incoming : Kind}
    {action : Action SqlStore Unit}
    (haction : action = do
      if ← execute operation statement then pure () else refuse name incoming)
    (h : (action world).1 = .ok ()) :
    ∃ db, statement world.store.database = .ok (true, db) ∧
      (action world).2.store = { world.store with database := db } := by
  subst haction
  obtain ⟨touched, after, hexecute, hrest⟩ := Action.bind_done h
  rw [hrest] at h ⊢
  cases touched with
  | false => exact absurd h (refuse_ne_done name incoming after)
  | true => exact execute_done hexecute

/-! ### Writing -/

/-- What is held under a name is described by the first row of the name. -/
theorem held_cases {store : SqlStore} {name : String} {found : Option Record}
    (h : held store name = .ok found) :
    ∃ rows, store.database.metrics = some rows ∧
      match rows.find? fun row => row.name == name with
      | none => found = none
      | some row => ∃ record, row.toRecord = .ok record ∧ found = some record := by
  rw [held] at h
  split at h
  · rw [Database.selectOne, Database.rows] at h
    cases hmetrics : store.database.metrics with
    | none =>
      rw [hmetrics] at h
      cases h
    | some rows =>
      rw [hmetrics] at h
      refine ⟨rows, rfl, ?_⟩
      simp only [Except.map] at h
      cases hfind : rows.find? fun row => row.name == name with
      | none =>
        rw [hfind] at h
        exact (Except.ok.inj h).symm
      | some row =>
        rw [hfind] at h
        obtain ⟨record, hrecord, rfl⟩ := Json.Numeral.map_ok h
        exact ⟨record, hrecord, rfl⟩
  · cases h

theorem held_none {store : SqlStore} {name : String} (h : held store name = .ok none) :
    ∃ rows, store.database.metrics = some rows ∧
      (rows.find? fun row => row.name == name) = none := by
  obtain ⟨rows, hmetrics, hfound⟩ := held_cases h
  refine ⟨rows, hmetrics, ?_⟩
  cases hfind : rows.find? fun row => row.name == name with
  | none => rfl
  | some row =>
    rw [hfind] at hfound
    obtain ⟨record, -, hsame⟩ := hfound
    cases hsame

theorem held_some {store : SqlStore} {name : String} {record : Record}
    (h : held store name = .ok (some record)) :
    ∃ rows row, store.database.metrics = some rows ∧
      (rows.find? fun row => row.name == name) = some row ∧ row.toRecord = .ok record := by
  obtain ⟨rows, hmetrics, hfound⟩ := held_cases h
  cases hfind : rows.find? fun row => row.name == name with
  | none =>
    rw [hfind] at hfound
    cases hfound
  | some row =>
    rw [hfind] at hfound
    obtain ⟨described, hrecord, hsame⟩ := hfound
    cases hsame
    exact ⟨rows, row, hmetrics, hfind, hrecord⟩

theorem held_name {store : SqlStore} {name : String} {record : Record}
    (h : held store name = .ok (some record)) : record.name = name := by
  obtain ⟨rows, row, -, hfind, hrecord⟩ := held_some h
  rw [Row.name_of_toRecord hrecord]
  simpa using List.find?_some hfind

theorem insert_done {record : Record} (hdone : (Repository.insert record world).1 = .ok ()) :
    ∃ db, Database.upsert record world.store.database = .ok (true, db) ∧
      (Repository.insert record world).2.store = { world.store with database := db } := by
  have hinsert : (Repository.insert record : Action SqlStore Unit)
      = requireOpen .acquire >>= fun _ => upsertRecord record := rfl
  rw [hinsert] at hdone ⊢
  obtain ⟨⟨⟩, after, hopen, hrest⟩ := Action.bind_done hdone
  obtain ⟨-, rfl⟩ := requireOpen_done hopen
  rw [hrest] at hdone ⊢
  have hstatement : upsertRecord record = (do
      if ← execute .insert (Database.upsert record) then pure ()
      else refuse record.name record.kind) := rfl
  exact statement_done hstatement hdone

theorem update_done {existing : Record} {value : Value}
    (hdone : (Repository.update existing value world).1 = .ok ()) :
    existing.kind = value.kind ∧
      ∃ db, Database.update existing.name value world.store.database = .ok (true, db) ∧
        (Repository.update existing value world).2.store = { world.store with database := db } := by
  have hupdate : (Repository.update existing value : Action SqlStore Unit) =
      if existing.kind ≠ value.kind then
        Action.fail (.kindMismatch existing.name existing.kind value.kind)
      else requireOpen .acquire >>= fun _ => updateRow existing.name value := rfl
  rw [hupdate] at hdone ⊢
  by_cases hkind : existing.kind = value.kind
  · rw [if_neg (not_not_intro hkind)] at hdone ⊢
    obtain ⟨⟨⟩, after, hopen, hrest⟩ := Action.bind_done hdone
    obtain ⟨-, rfl⟩ := requireOpen_done hopen
    rw [hrest] at hdone ⊢
    have hstatement : updateRow existing.name value = (do
        if ← execute .update (Database.update existing.name value) then pure ()
        else refuse existing.name value.kind) := rfl
    exact ⟨hkind, statement_done hstatement hdone⟩
  · rw [if_pos hkind] at hdone
    cases hdone

theorem kind_of_insert {record stored : Record} (habsent : held world.store record.name = .ok none)
    (hdone : (Repository.insert record world).1 = .ok ())
    (hstored : held (Repository.insert record world).2.store record.name = .ok (some stored)) :
    stored.kind = record.kind := by
  obtain ⟨db, hupsert, hafter⟩ := insert_done hdone
  rw [hafter] at hstored
  obtain ⟨rows, hmetrics, hnone⟩ := held_none habsent
  obtain ⟨rows', row, hmetrics', hfind, hrow⟩ := held_some hstored
  have hany : (rows.any fun row => row.name == record.name) = false := by
    rw [List.any_eq_false]
    exact List.find?_eq_none.1 hnone
  rw [Database.upsert, Database.rows, hmetrics] at hupsert
  simp only [hany, Bool.false_eq_true, if_false] at hupsert
  split at hupsert
  · cases hupsert
  · cases hupsert
    cases hmetrics'
    rw [List.find?_append, hnone, Option.none_or, List.find?_singleton] at hfind
    split at hfind
    · cases hfind
      exact Row.kind_of_newRow hrow
    · cases hfind

theorem kind_of_update {existing stored : Record} {value : Value}
    (hexisting : held world.store existing.name = .ok (some existing))
    (hdone : (Repository.update existing value world).1 = .ok ())
    (hstored : held (Repository.update existing value world).2.store existing.name
      = .ok (some stored)) : stored.kind = value.kind := by
  obtain ⟨hkind, db, hupdate, hafter⟩ := update_done hdone
  rw [hafter] at hstored
  obtain ⟨rows, row, hmetrics, hfind, hrow⟩ := held_some hexisting
  obtain ⟨rows', row', hmetrics', hfind', hrow'⟩ := held_some hstored
  have hname (row changed : Row) : Database.write value row = some changed → changed.name = row.name :=
    Row.name_write
  have hchanged := Database.find?_changeRow value.kind hname hfind
  rw [Database.update, Database.rows, hmetrics, Except.ok.injEq, Prod.mk.injEq] at hupdate
  obtain ⟨-, rfl⟩ := hupdate
  cases hmetrics'
  obtain ⟨first, hfirst, hcases⟩ := hchanged
  cases hfirst.symm.trans hfind'
  obtain rfl | hwrite := hcases
  · rw [hrow] at hrow'
    cases hrow'
    exact hkind
  · exact Row.kind_of_write hrow hkind hwrite hrow'

def holdings : Repository.Holdings SqlStore where
  held := held
  get := get_held
  get_world := get_world
  name := held_name
  kind {name value existing stored world} hexisting hdone hstored := by
    cases existing with
    | none => exact @kind_of_insert world ⟨name, value⟩ stored hexisting hdone hstored
    | some record =>
      obtain rfl := held_name hexisting
      exact kind_of_update hexisting hdone hstored

end SqlStore

/-! ### Of any kind -/

namespace Store

/-- What the store of a server holds is what the store of its kind holds. -/
def held : Store → String → Except Failure (Option Record)
  | .memory store => MemoryStore.holdings.held store
  | .snapshot store => SnapshotStore.holdings.held store
  | .sql store => SqlStore.holdings.held store

variable {σ : Type} [Repository σ] {kind : σ → Store} {part : σ} {host : Host}

theorem PassesOn.get_held (h : PassesOn kind) (inner : Repository.Holdings σ) (name : String) :
    (Repository.get name ⟨kind part, host⟩).1 = inner.held part name := by
  rw [h.get]
  exact inner.get name ⟨part, host⟩

theorem PassesOn.get_world (h : PassesOn kind) (inner : Repository.Holdings σ) {name : String}
    {found : Option Record} (hfound : inner.held part name = .ok found) :
    (Repository.get name ⟨kind part, host⟩).2 = ⟨kind part, host⟩ := by
  have hworld : (Repository.get name (⟨part, host⟩ : World σ)).2 = ⟨part, host⟩ :=
    inner.get_world hfound
  rw [h.get, embed, hworld]

theorem PassesOn.kind_of_write (h : PassesOn kind) (inner : Repository.Holdings σ)
    (hheld : ∀ part, held (kind part) = inner.held part) {name : String} {value : Value}
    {existing : Option Record} {stored : Record} (hexisting : inner.held part name = .ok existing)
    (hdone : (Repository.write name value existing ⟨kind part, host⟩).1 = .ok ())
    (hstored : held (Repository.write name value existing ⟨kind part, host⟩).2.store name
      = .ok (some stored)) : stored.kind = value.kind := by
  rw [h.write] at hdone hstored
  rw [embed, hheld] at hstored
  exact @Repository.Holdings.kind σ _ inner _ _ _ _ ⟨part, host⟩ hexisting hdone hstored

def holdings : Repository.Holdings Store where
  held := held
  get name world := by
    obtain ⟨store, host⟩ := world
    cases store with
    | memory part => exact memory_passesOn.get_held MemoryStore.holdings name
    | snapshot part => exact snapshot_passesOn.get_held SnapshotStore.holdings name
    | sql part => exact sql_passesOn.get_held SqlStore.holdings name
  get_world {name world found} h := by
    obtain ⟨store, host⟩ := world
    cases store with
    | memory part => exact memory_passesOn.get_world MemoryStore.holdings h
    | snapshot part => exact snapshot_passesOn.get_world SnapshotStore.holdings h
    | sql part => exact sql_passesOn.get_world SqlStore.holdings h
  name {store name record} h := by
    cases store with
    | memory part => exact MemoryStore.holdings.name h
    | snapshot part => exact SnapshotStore.holdings.name h
    | sql part => exact SqlStore.holdings.name h
  kind {name value existing stored world} hexisting hdone hstored := by
    obtain ⟨store, host⟩ := world
    cases store with
    | memory part =>
      exact memory_passesOn.kind_of_write MemoryStore.holdings (fun _ => rfl) hexisting hdone hstored
    | snapshot part =>
      exact snapshot_passesOn.kind_of_write SnapshotStore.holdings (fun _ => rfl) hexisting hdone
        hstored
    | sql part =>
      exact sql_passesOn.kind_of_write SqlStore.holdings (fun _ => rfl) hexisting hdone hstored

end Store

end Telemetry
