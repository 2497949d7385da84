import Telemetry.Store.Repository
import Telemetry.Store.Source

/-!
# The store in a database

The records are the rows of one table. A record is written by one statement that inserts it or adds
to the row of its kind, so that no sum is lost between reading and writing; a statement that touches
no row is explained afterwards by the kind that is stored. A batch is one transaction: an entry that
is refused takes back the entries before it. The schema is brought up to date step by step when the
store is opened, and a step and its version are recorded together.
-/

namespace Telemetry

structure SqlStore where
  database : Database
  /-- The place of the file that keeps the database, if there is one. -/
  place : Option Place
  readOnly : Bool
  isOpen : Bool
deriving DecidableEq

abbrev SchemaStatement := Database → Except DatabaseFault Database

/-- A step of the schema: its statements in order. -/
abbrev SchemaStep := List SchemaStatement

namespace Schema

/-- Creates the table of metrics unless it is there. -/
def createTable : SchemaStatement := fun db => .ok db.createMetrics

/-- Makes the names of the rows unique from now on. -/
def createIndex : SchemaStatement := fun db =>
  match db.rows with
  | .error fault => .error fault
  | .ok rows => if (rows.map Row.name).Nodup then .ok db else .error .duplicateName

/-- The steps that bring the schema to the versions one, two, and so on. -/
def steps : List SchemaStep := [[createTable, createIndex]]

def latest : Int64 := Int64.ofNat steps.length

/-- The greatest recorded version, or zero, and the database with a table of versions. -/
def currentVersion (db : Database) : Except DatabaseFault Int64 × Database :=
  let db := db.createVersions
  (db.maxVersion.map fun version => version.getD 0, db)

/-- Executes statements in order. What was done before a statement fails stays done. -/
def execute : List SchemaStatement → Database → Except DatabaseFault Unit × Database
  | [], db => (.ok (), db)
  | statement :: more, db => match statement db with
    | .error fault => (.error fault, db)
    | .ok db => execute more db

/-- Executes statements in order, and takes all of them back when one fails. -/
def transaction (statements : List SchemaStatement) (db : Database) :
    Except DatabaseFault Unit × Database :=
  match execute statements db with
  | (.error fault, _) => (.error fault, db)
  | (.ok (), db) => (.ok (), db)

/-- Takes the steps above a version, each in one transaction with the record of its version. -/
def applySteps (current : Int64) : List SchemaStep → Int64 → Database →
    Except DatabaseFault Unit × Database
  | [], _, db => (.ok (), db)
  | step :: more, version, db =>
    if version ≤ current then applySteps current more (version + 1) db
    else match transaction (step ++ [Database.insertVersion version]) db with
      | (.error fault, db) => (.error fault, db)
      | (.ok (), db) => applySteps current more (version + 1) db

def migrateBy (steps : List SchemaStep) (db : Database) : Except DatabaseFault Unit × Database :=
  match currentVersion db with
  | (.error fault, db) => (.error fault, db)
  | (.ok current, db) => applySteps current steps 1 db

def migrate (db : Database) : Except DatabaseFault Unit × Database := migrateBy steps db

end Schema

namespace SqlStore

/-- Counts a failed operation and fails with its fault. -/
def failed {α : Type} (operation : DatabaseOperation) (fault : DatabaseFault) :
    Action SqlStore α := do
  Action.count (.databaseError operation) 1
  Action.fail fault.failure

def requireOpen (operation : DatabaseOperation) : Action SqlStore Unit := fun world =>
  if world.store.isOpen then (.ok (), world) else failed operation .closed world

/-- Keeps a database, also in its file if it has one. -/
def keep (db : Database) : Action SqlStore Unit := fun world =>
  (.ok (), {
    store := { world.store with database := db }
    host := match world.store.place with
      | none => world.host
      | some place => { world.host with disk := world.host.disk.put place (.database db) } })

def query {α : Type} (operation : DatabaseOperation) (select : Database → Except DatabaseFault α) :
    Action SqlStore α := fun world =>
  match select world.store.database with
  | .ok a => (.ok a, world)
  | .error fault => failed operation fault world

/-- Changes the database by a statement that tells whether it touched a row. -/
def execute (operation : DatabaseOperation)
    (statement : Database → Except DatabaseFault (Bool × Database)) : Action SqlStore Bool :=
  fun world => match statement world.store.database with
  | .error (.noTable table) => failed operation (.noTable table) world
  | outcome =>
    if world.store.readOnly then failed operation .readOnly world
    else match outcome with
      | .error fault => failed operation fault world
      | .ok (touched, db) => (do keep db; pure touched : Action SqlStore Bool) world

def storedKind (name : String) : Action SqlStore (Option Kind) :=
  query .getKind (Database.selectKind name)

/-- Fails with the reason why writing a value of a kind touched no row. -/
def refuse (name : String) (incoming : Kind) : Action SqlStore Unit := do
  match ← storedKind name with
  | none => Action.fail (.metricNotFound name)
  | some stored =>
    if stored ≠ incoming then Action.fail (.kindMismatch name stored incoming)
    else Action.fail (.counterOverflow name)

/-- Inserts a record, or adds it to the row of its kind. -/
def upsertRecord (record : Record) : Action SqlStore Unit := do
  if ← execute .insert (Database.upsert record) then pure ()
  else refuse record.name record.kind

/-- Writes a value to the row of its kind. -/
def updateRow (name : String) (value : Value) : Action SqlStore Unit := do
  if ← execute .update (Database.update name value) then pure ()
  else refuse name value.kind

def applyEntry (sample : Sample) : Action SqlStore Unit := do
  let record ← Action.ofResult sample.toRecord
  match ← storedKind record.name with
  | none => upsertRecord record
  | some stored =>
    if stored ≠ record.kind then
      Action.fail (.kindMismatch record.name stored record.kind)
    else updateRow record.name record.value

def applyEntries : List Sample → Action SqlStore Unit
  | [] => pure ()
  | sample :: samples => do
    applyEntry sample
    applyEntries samples

/-- An action whose changes to the database are taken back when it fails. -/
def atomically {α : Type} (action : Action SqlStore α) : Action SqlStore α := fun world =>
  match action world with
  | (.ok a, after) => (.ok a, after)
  | (.error failure, after) =>
    (.error failure,
      { store := world.store, host := { after.host with disk := world.host.disk } })

instance : Repository SqlStore where
  get name := do
    requireOpen .get
    match ← query .get (Database.selectOne name) with
    | none => pure none
    | some row => some <$> Action.ofResult row.toRecord
  insert record := do
    requireOpen .acquire
    upsertRecord record
  update existing value := do
    if existing.kind ≠ value.kind then
      Action.fail (.kindMismatch existing.name existing.kind value.kind)
    else
      requireOpen .acquire
      updateRow existing.name value
  getAll := do
    requireOpen .getAll
    let rows ← query .getAll Database.rows
    Action.ofResult (rows.mapM Row.toRecord)
  batch samples := do
    requireOpen .begin
    atomically (applyEntries samples)
  ping := requireOpen .ping
  close := fun world => (.ok (), { world with store := { world.store with isOpen := false } })

/-- Runs a change of the schema, keeps what it did, and words its fault as a failed migration. -/
def changeSchema {α : Type} (change : Database → Except DatabaseFault α × Database) :
    Action SqlStore α := fun world =>
  let migrationFailed (fault : DatabaseFault) : Failure := .migration fault.message
  if !world.store.isOpen then (.error (migrationFailed .closed), world)
  else match change world.store.database with
    | (result, db) =>
      if db = world.store.database then (result.mapError migrationFailed, world)
      else if world.store.readOnly then (.error (migrationFailed .readOnly), world)
      else (do keep db; Action.ofResult (result.mapError migrationFailed) : Action SqlStore α) world

def migrate : Action SqlStore Unit := changeSchema Schema.migrate

def schemaVersion : Action SqlStore Int64 := changeSchema Schema.currentVersion

def damage (kind : Damage) : Action SqlStore (Option DatabaseFault) := fun world =>
  if !world.store.isOpen then (.ok (some .closed), world)
  else match world.store.database.damage kind with
    | .error fault => (.ok (some fault), world)
    | .ok db => (do keep db; pure none : Action SqlStore (Option DatabaseFault)) world

/-- The storage layers that can be asked for by name. -/
def storageLayers : List String := ["unix", "unix-dotfile", "unix-excl", "unix-none"]

/-- Finds the file of a source, which is made if it is not there, and its database. The bytes of a
file are a database only if there are none. -/
def connect {σ : Type} (source : Source) : Action σ (SqlStore × Option DatabaseFault) := fun world =>
  let store (place : Option Place) (db : Database) : SqlStore :=
    ⟨db, place, source.readOnly || source.immutable, true⟩
  if (source.storage.map fun name => storageLayers.contains name) = some false then
    (.error (DatabaseFault.unknownStorage (source.storage.getD "")).failure, world)
  else match source.path with
  | none => (.ok (store none Database.empty, none), world)
  | some path =>
    if source.readOnly && (world.host.disk.read path) matches .error .notFound then
      (.error DatabaseFault.cannotOpen.failure, world)
    else match world.host.disk.create path with
    | .error _ => (.error DatabaseFault.cannotOpen.failure, world)
    | .ok (place, disk) =>
      let opened := { world with host := { world.host with disk } }
      match disk.entry? place with
      | some (.database db) => (.ok (store (some place) db, none), opened)
      | _ =>
        if (disk.bytesAt place).isEmpty then (.ok (store (some place) Database.empty, none), opened)
        else (.ok (store (some place) Database.empty, some .notDatabase), opened)

/-- Brings the schema of a store up to date that was just connected. -/
def migrated {σ : Type} (store : SqlStore) : Action σ SqlStore := fun world =>
  let (result, after) := migrate { store, host := world.host }
  (result.map fun _ => after.store, { world with host := after.host })

/-- Opens the database that a text names and brings its schema up to date. -/
def openAt {σ : Type} (text : String) : Action σ SqlStore := do
  let source ← Action.ofResult (Source.parse text)
  match ← connect source with
  | (_, some fault) => Action.fail (.migration fault.message)
  | (store, none) => migrated store

def inMemory : String := "sqlite::memory:"

end SqlStore

end Telemetry
