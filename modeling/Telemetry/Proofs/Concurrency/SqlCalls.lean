import Telemetry.Proofs.Concurrency.Interleaving
import Telemetry.Proofs.Service.Update
import Telemetry.Proofs.Store.Sql

/-!
# The statements of an update of the store in a database

A database does one statement at a time. An update of one metric asks for its row, writes by one
statement, and asks for the stored kind if that statement touched no row. Between two statements of an
update other calls may have theirs; an update that nothing comes between does what the request does.
-/

namespace Telemetry

open Service

namespace SqlStore

inductive Call where
  | upsert (sample : Sample)
  | text (kind name raw : String)

namespace Call

def perform : Call → Action SqlStore Unit
  | .upsert sample => Repository.upsert sample
  | .text kind name raw => applyText kind name raw

def record : Call → Except Failure Record
  | .upsert sample => sample.toRecord
  | .text kind name raw => Update.recordOfText kind name raw

def isCounted : Call → Bool
  | .upsert _ => false
  | .text _ _ _ => true

end Call

inductive Stage where
  | waiting (call : Call)
  /-- The name was looked up and not found. -/
  | creating (record : Record) (counts : Bool)
  /-- The name was looked up and found, with the kind of the value. -/
  | changing (existing : Record) (value : Value) (counts : Bool)
  /-- The statement that writes has touched no row. -/
  | explaining (name : String) (kind : Kind)
  | finished (result : Except Failure Unit)

namespace Stage

/-- What follows the look-up of a record. -/
def found (record : Record) (counts : Bool) :
    Except Failure (Option Record) × World SqlStore → Stage × World SqlStore
  | (.error failure, after) => (.finished (.error failure), after)
  | (.ok none, after) => (.creating record counts, after)
  | (.ok (some existing), after) =>
    if existing.kind ≠ record.kind then
      (.finished (.error (.kindMismatch existing.name existing.kind record.kind)), after)
    else (.changing existing record.value counts, after)

/-- What follows the statement that writes. -/
def wrote (name : String) (kind : Kind) (counts : Bool) :
    Except Failure Bool × World SqlStore → Stage × World SqlStore
  | (.error failure, after) => (.finished (.error failure), after)
  | (.ok false, after) => (.explaining name kind, after)
  | (.ok true, after) =>
    (.finished (.ok ()), if counts then after.count (.updated kind) 1 else after)

/-- A statement that writes, on a connection of its own. -/
def write (operation : DatabaseOperation)
    (statement : Database → Except DatabaseFault (Bool × Database)) : Action SqlStore Bool := do
  requireOpen .acquire
  execute operation statement

def step : Stage → World SqlStore → Stage × World SqlStore
  | .waiting call, world => match call.record with
    | .error failure => (.finished (.error failure), world)
    | .ok record => found record call.isCounted (Repository.get record.name world)
  | .creating record counts, world =>
    wrote record.name record.kind counts (write .insert (Database.upsert record) world)
  | .changing existing value counts, world =>
    wrote existing.name value.kind counts
      (write .update (Database.update existing.name value) world)
  | .explaining name kind, world => match refuse name kind world with
    | (result, after) => (.finished result, after)
  | .finished result, world => (.finished result, world)

/-! ### The statements are those of the update -/

def countIf (counts : Bool) (kind : Kind) : Action SqlStore Unit :=
  if counts then countUpdate kind else pure ()

/-- What is left to do, done at once. -/
def perform : Stage → Action SqlStore Unit
  | .waiting call => call.perform
  | .creating record counts => do
    Repository.insert record
    countIf counts record.kind
  | .changing existing value counts => do
    requireOpen .acquire
    updateRow existing.name value
    countIf counts value.kind
  | .explaining name kind => refuse name kind
  | .finished result => Action.ofResult result

theorem perform_call (call : Call) : call.perform = (do
    let record ← Action.ofResult call.record
    let existing ← Repository.get record.name
    Repository.write record.name record.value existing
    countIf call.isCounted record.kind) := by
  cases call with
  | upsert sample =>
    refine Action.bind_congr fun record => Action.bind_congr fun existing => ?_
    exact (Action.bind_pure_unit _).symm
  | text kind name raw => exact Update.applyText_eq kind name raw

theorem refuse_error (name : String) (kind : Kind) (world : World SqlStore) :
    ∃ failure after, refuse name kind world = (.error failure, after) := by
  rw [refuse, Action.bind_apply]
  rcases storedKind name world with ⟨failure | ⟨_ | stored⟩, after⟩
  · exact ⟨_, _, rfl⟩
  · exact ⟨_, _, rfl⟩
  · by_cases hkind : stored = kind
    · exact ⟨_, after, by simp [hkind]; rfl⟩
    · exact ⟨_, after, by simp [hkind]; rfl⟩

/-- A statement that writes, and its diagnosis. -/
def diagnosed (name : String) (kind : Kind) (write : Action SqlStore Bool) : Action SqlStore Unit := do
  if ← write then pure () else refuse name kind

theorem diagnosed_write (name : String) (kind : Kind) (operation : DatabaseOperation)
    (statement : Database → Except DatabaseFault (Bool × Database)) :
    diagnosed name kind (write operation statement) = (do
      requireOpen .acquire
      diagnosed name kind (execute operation statement)) :=
  Action.bind_assoc _ _ _

theorem perform_wrote (name : String) (kind : Kind) (counts : Bool) (write : Action SqlStore Bool)
    (world : World SqlStore) :
    (wrote name kind counts (write world)).1.perform (wrote name kind counts (write world)).2
      = (do diagnosed name kind write; countIf counts kind : Action SqlStore Unit) world := by
  rw [diagnosed, Action.bind_apply, Action.bind_apply]
  rcases write world with ⟨failure | _ | _, after⟩
  · rfl
  · obtain ⟨failure, last, hrefuse⟩ := refuse_error name kind after
    simp only [wrote, perform, Bool.false_eq_true, if_false, hrefuse]
  · cases counts <;> rfl

theorem perform_found (record : Record) (counts : Bool) (look : Action SqlStore (Option Record))
    (world : World SqlStore) :
    (found record counts (look world)).1.perform (found record counts (look world)).2
      = (do
          let existing ← look
          Repository.write record.name record.value existing
          countIf counts record.kind : Action SqlStore Unit) world := by
  rw [Action.bind_apply]
  rcases look world with ⟨failure | _ | existing, after⟩
  · rfl
  · rfl
  · have hupdate : (Repository.write record.name record.value (some existing) : Action SqlStore Unit)
        = if existing.kind ≠ record.kind then
            Action.fail (.kindMismatch existing.name existing.kind record.kind)
          else (do requireOpen .acquire; updateRow existing.name record.value) := rfl
    simp only [found, hupdate]
    by_cases hkind : existing.kind = record.kind
    · rw [if_neg (not_not_intro hkind), if_neg (not_not_intro hkind), Action.bind_assoc]
      rfl
    · rw [if_pos hkind, if_pos hkind]
      rfl

theorem perform_step (stage : Stage) (world : World SqlStore) :
    (stage.step world).1.perform (stage.step world).2 = stage.perform world := by
  cases stage with
  | waiting call =>
    rw [perform, perform_call]
    cases hrecord : call.record with
    | error failure =>
      simp only [step, hrecord]
      rfl
    | ok record =>
      simp only [step, hrecord]
      rw [Action.ofResult_ok_bind]
      exact perform_found record call.isCounted (Repository.get record.name) world
  | creating record counts =>
    refine (perform_wrote _ _ _ _ _).trans ?_
    rw [diagnosed_write]
    rfl
  | changing existing value counts =>
    refine (perform_wrote _ _ _ _ _).trans ?_
    rw [diagnosed_write, Action.bind_assoc]
    rfl
  | explaining name kind =>
    obtain ⟨failure, after, hrefuse⟩ := refuse_error name kind world
    simp only [perform, step, hrefuse]
    rfl
  | finished result => rfl

theorem perform_of_run_alone {call : Call} {result : Except Failure Unit}
    {world after : World SqlStore} {schedule : List Nat}
    (hrun : (⟨[waiting call], world⟩ : Scene Stage (World SqlStore)).run step schedule
      = ⟨[finished result], after⟩) : call.perform world = (result, after) :=
  (Scene.run_alone (f := perform) perform_step hrun).symm

end Stage

end SqlStore

end Telemetry
