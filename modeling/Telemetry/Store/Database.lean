import Telemetry.Metric.Record

/-!
# Tables and statements

A database holds a table of metrics and a table of schema versions, either of which may be missing.
A statement is a function from the database to its answer and the database after it; a statement
that fails changes nothing. Only the statements that the service uses are here.

The table of metrics has one row per name. A name is counted in characters up to its first null
character. A number that is stored as a gauge loses the sign of zero, and what is not a number is
stored as null. The sum of two integers that leaves the signed 64-bit integers is a real number.
-/

namespace Telemetry

open Number

inductive DatabaseFault where
  | noTable (table : String)
  | noColumn (column : String)
  | noColumnNamed (table column : String)
  | nameLength
  | duplicateVersion
  | duplicateName
  | readOnly
  | cannotOpen
  | notDatabase
  | unknownStorage (name : String)
  | noRows
  | timedOut
  | closed
deriving DecidableEq, Repr

namespace DatabaseFault

/-- The wording of a fault that the database itself reports. -/
def reported (code : Nat) (text : String) : String :=
  "error returned from database: (code: " ++ toString code ++ ") " ++ text

def message : DatabaseFault → String
  | .noTable table => reported 1 ("no such table: " ++ table)
  | .noColumn column => reported 1 ("no such column: " ++ column)
  | .noColumnNamed table column =>
    reported 1 ("table " ++ table ++ " has no column named " ++ column)
  | .nameLength =>
    reported 275 "CHECK constraint failed: length(metric_name) BETWEEN 1 AND 255"
  | .duplicateVersion => reported 1555 "UNIQUE constraint failed: schema_version.version"
  | .duplicateName => reported 2067 "UNIQUE constraint failed: metrics.metric_name"
  | .readOnly => reported 8 "attempt to write a readonly database"
  | .cannotOpen => reported 14 "unable to open database file"
  | .notDatabase => reported 26 "file is not a database"
  | .unknownStorage name => reported 1 ("no such vfs: " ++ name)
  | .noRows => "no rows returned by a query that expected to return at least one row"
  | .timedOut => "pool timed out while waiting for an open connection"
  | .closed => "attempted to acquire a connection on a closed pool"

def failure (fault : DatabaseFault) : Failure := .database fault.message

end DatabaseFault

/-- What the counter column of a row holds. -/
inductive Tally where
  | null
  | integer (n : Int64)
  | real (x : Binary64)
deriving DecidableEq

/-- The sum of a counter column and an integer, which is a real number when the exact sum of two
integers does not fit. -/
def Tally.add : Tally → Int64 → Tally
  | .null, _ => .null
  | .integer n, delta => match addExact? n delta with
    | some sum => .integer sum
    | none => .real (Binary64.ofInt (n.toInt + delta.toInt))
  | .real x, _ => .real x

def Tally.isInteger : Tally → Bool
  | .integer _ => true
  | _ => false

/-- What the gauge column holds once a number is stored in it. -/
def storedGauge : Binary64 → Option Binary64
  | .nan => none
  | .finite negative m => some (.finite (negative && m.significand ≠ 0) m)
  | .infinite negative => some (.infinite negative)

structure Row where
  name : String
  kind : Kind
  gauge : Option Binary64
  counter : Tally
deriving DecidableEq

namespace Row

/-- The record that a row holds, which has exactly one value. -/
def toRecord (row : Row) : Except Failure Record :=
  match row.gauge, row.counter with
  | some x, .null => .ok ⟨row.name, .gauge x⟩
  | none, .integer n => .ok ⟨row.name, .counter n⟩
  | _, _ => .error (.database ("metric " ++ row.name ++ " has no single value"))

end Row

/-- The rows of the table of schema versions, whose only column may have lost its name. -/
structure Versions where
  named : Bool
  rows : List Int64
deriving DecidableEq

structure Database where
  metrics : Option (List Row)
  versions : Option Versions
deriving DecidableEq

namespace Database

def empty : Database := ⟨none, none⟩

def rows (db : Database) : Except DatabaseFault (List Row) :=
  match db.metrics with
  | some rows => .ok rows
  | none => .error (.noTable "metrics")

def selectOne (name : String) (db : Database) : Except DatabaseFault (Option Row) :=
  db.rows.map fun rows => rows.find? fun row => row.name == name

def selectKind (name : String) (db : Database) : Except DatabaseFault (Option Kind) :=
  (db.selectOne name).map fun row => row.map Row.kind

def admits (name : String) : Bool :=
  let length := (name.toList.takeWhile (· ≠ '\x00')).length
  1 ≤ length && length ≤ 255

/-- The rows with the one of a given name and kind changed, and whether there is such a row. -/
def changeRow (name : String) (kind : Kind) (change : Row → Option Row) :
    List Row → Bool × List Row
  | [] => (false, [])
  | row :: rows =>
    if row.name = name && row.kind = kind then
      match change row with
      | some changed => (true, changed :: rows)
      | none => (false, row :: rows)
    else
      let (found, changed) := changeRow name kind change rows
      (found, row :: changed)

/-- A row after a value of its kind was written to it. A counter is left alone when the sum is no
integer. -/
def write (value : Value) (row : Row) : Option Row :=
  match value with
  | .gauge x => some { row with gauge := storedGauge x }
  | .counter delta =>
    let sum := row.counter.add delta
    if sum.isInteger then some { row with counter := sum } else none

/-- The row that a record becomes when there is none of its name. -/
def newRow (record : Record) : Row :=
  match record.value with
  | .gauge x => ⟨record.name, .gauge, storedGauge x, .null⟩
  | .counter n => ⟨record.name, .counter, none, .integer n⟩

/-- Inserts a record, or writes its value to the row of the same name and kind. Tells whether a row
was touched. -/
def upsert (record : Record) (db : Database) : Except DatabaseFault (Bool × Database) :=
  match db.rows with
  | .error fault => .error fault
  | .ok rows =>
    if !admits record.name then .error .nameLength
    else if rows.any fun row => row.name == record.name then
      let (touched, rows) := changeRow record.name record.kind (write record.value) rows
      .ok (touched, { db with metrics := some rows })
    else .ok (true, { db with metrics := some (rows ++ [newRow record]) })

/-- Writes a value to the row of a name and of the kind of the value. Tells whether a row was
touched. -/
def update (name : String) (value : Value) (db : Database) :
    Except DatabaseFault (Bool × Database) :=
  match db.rows with
  | .error fault => .error fault
  | .ok rows =>
    let (touched, rows) := changeRow name value.kind (write value) rows
    .ok (touched, { db with metrics := some rows })

/-- Creates the table of metrics and its index unless it is there. -/
def createMetrics (db : Database) : Database := { db with metrics := some (db.metrics.getD []) }

/-- Creates the table of schema versions unless it is there. -/
def createVersions (db : Database) : Database :=
  { db with versions := some (db.versions.getD ⟨true, []⟩) }

def maxVersion (db : Database) : Except DatabaseFault (Option Int64) :=
  match db.versions with
  | none => .error (.noTable "schema_version")
  | some versions =>
    if versions.named then .ok versions.rows.max? else .error (.noColumn "version")

def insertVersion (version : Int64) (db : Database) : Except DatabaseFault Database :=
  match db.versions with
  | none => .error (.noTable "schema_version")
  | some versions =>
    if !versions.named then .error (.noColumnNamed "schema_version" "version")
    else if versions.rows.contains version then .error .duplicateVersion
    else .ok { db with versions := some { versions with rows := versions.rows ++ [version] } }

end Database

inductive Damage where
  | dropTable
  | bothValues
  | noValue
  | forgetVersion
  | futureVersion
  | renameVersion
deriving DecidableEq, Repr

def Database.damage (damage : Damage) (db : Database) : Except DatabaseFault Database :=
  match damage with
  | .dropTable => db.rows.map fun _ => { db with metrics := none }
  | .bothValues => db.rows.map fun rows => { db with
      metrics := some (rows.map fun row => { row with
        gauge := some (Binary64.ofNat 1), counter := .integer 1 }) }
  | .noValue => db.rows.map fun rows => { db with
      metrics := some (rows.map fun row => { row with gauge := none, counter := .null }) }
  | .forgetVersion => match db.versions with
    | none => .error (.noTable "schema_version")
    | some versions => .ok { db with versions := some { versions with rows := [] } }
  | .futureVersion => db.insertVersion 7
  | .renameVersion => match db.versions with
    | none => .error (.noTable "schema_version")
    | some versions =>
      if versions.named then .ok { db with versions := some { versions with named := false } }
      else .error (.noColumn "\"version\"")

end Telemetry
