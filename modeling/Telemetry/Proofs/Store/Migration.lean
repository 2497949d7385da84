import Mathlib.Data.List.Basic
import Telemetry.Store.Sql

/-!
# Migrations

A migration takes the steps above the recorded version one after the other, each in one transaction
with the record of its version. So at every moment the database is as some first steps leave it, and a
step of which a statement fails leaves it as the earlier steps did. What this needs of a statement is
that it leaves the versions alone, and the rows of a table that is there. The facts are about all lists
of such steps: the store has one step, whose table may be there and whose index may not be possible.
-/

namespace Telemetry

theorem int64_max_eq (a b : Int64) : max a b = if a ≤ b then b else a := rfl

instance lawfulOrderMax_int64 : Std.LawfulOrderMax Int64 where
  max_eq_or a b := by
    rw [int64_max_eq]
    split
    · exact .inr rfl
    · exact .inl rfl
  max_le_iff a b c := by
    rw [int64_max_eq]
    simp only [Int64.le_iff_toInt_le]
    split <;> omega

theorem int64_le_max_right (a b : Int64) : b ≤ max a b :=
  ((Std.LawfulOrderSup.max_le_iff a b (max a b)).1 (Int64.le_refl _)).2

/-- The versions that are recorded, of which there are none without a table for them. -/
def Database.recorded (db : Database) : List Int64 := (db.versions.map Versions.rows).getD []

namespace Schema

/-- A statement that is done leaves the recorded versions alone, and the rows of a table that is
there. -/
def Keeps (statement : SchemaStatement) : Prop :=
  ∀ ⦃before after : Database⦄, statement before = .ok after →
    after.versions = before.versions ∧ ∀ rows ∈ before.metrics, after.metrics = some rows

/-- All statements of all steps leave the versions alone, and the rows of a table that is there. -/
def AllKeep (steps : List SchemaStep) : Prop := ∀ step ∈ steps, ∀ statement ∈ step, Keeps statement

theorem keeps_createTable : Keeps createTable := by
  intro before after hdone
  cases hdone
  refine ⟨rfl, fun rows hrows => ?_⟩
  rw [Database.createMetrics, Option.mem_def.1 hrows]
  rfl

theorem keeps_createIndex : Keeps createIndex := by
  intro before after hdone
  unfold createIndex at hdone
  split at hdone
  · cases hdone
  · split at hdone
    · cases hdone
      exact ⟨rfl, fun rows hrows => hrows⟩
    · cases hdone

theorem allKeep_steps : AllKeep steps := by
  intro step hstep
  obtain rfl := List.mem_singleton.1 hstep
  simp only [List.forall_mem_cons, List.not_mem_nil, false_implies, implies_true, and_true]
  exact ⟨keeps_createTable, keeps_createIndex⟩

/-- The versions of the first steps, as far as they are above a version. -/
def pending (previous : Int64) (count : Nat) : List Int64 :=
  ((List.range count).map fun i => Int64.ofNat (i + 1)).filter fun version => previous < version

/-- The database is as the first steps leave it: the versions of those that were pending are recorded
with the earlier ones, and the rows of the table are the same if it was there. -/
structure Stands (previous : Int64) (before : Database) (count : Nat) (after : Database) : Prop where
  versions : after.versions = some ⟨true, before.recorded ++ pending previous count⟩
  metrics : ∀ rows ∈ before.metrics, after.metrics = some rows

/-- A statement of a pending step fails, after the statements in front of it were executed on the
database as the earlier steps left it, and this is what remains. -/
structure FailsAt (steps : List SchemaStep) (previous : Int64) (before : Database) (k : Nat)
    (fault : DatabaseFault) (after : Database) : Prop where
  isPending : previous < Int64.ofNat (k + 1)
  fails : ∃ done statement rest part, steps[k]? = some (done ++ statement :: rest) ∧
    execute done after = (.ok (), part) ∧ statement part = .error fault
  earlier : migrateBy (steps.take k) before = (.ok (), after)
  stands : Stands previous before k after

/-- The statements of each step that was pending are executed on the database as the earlier steps left
it, and its version is recorded; a step that was not pending is passed over. -/
def TakesInTurn (steps : List SchemaStep) (previous : Int64) (before : Database) : Prop :=
  ∀ k step, steps[k]? = some step →
    ∃ earlier later, migrateBy (steps.take k) before = (.ok (), earlier) ∧
      migrateBy (steps.take (k + 1)) before = (.ok (), later) ∧
      if previous < Int64.ofNat (k + 1)
      then execute (step ++ [Database.insertVersion (Int64.ofNat (k + 1))]) earlier = (.ok (), later)
      else later = earlier

/-- What a migration has done when all its steps are done. -/
structure Upgraded (steps : List SchemaStep) (previous : Int64) (before after : Database) : Prop where
  stands : Stands previous before steps.length after
  version : currentVersion after = (.ok (max previous (Int64.ofNat steps.length)), after)
  fresh : ∀ version ∈ pending previous steps.length, version ∉ before.recorded
  inTurn : TakesInTurn steps previous before
  again : migrateBy steps after = (.ok (), after)

variable {steps : List SchemaStep} {previous : Int64} {before db after : Database} {k : Nat}

/-! ### The recorded version -/

theorem currentVersion_eq (db : Database) :
    currentVersion db = ((currentVersion db).1, db.createVersions) := rfl

/-- A version is read of a table whose column has its name. -/
theorem versions_of_read (h : (currentVersion db).1 = .ok previous) :
    db.createVersions.versions = some ⟨true, db.recorded⟩ ∧ db.recorded.max?.getD 0 = previous := by
  obtain ⟨metrics, versions⟩ := db
  simp only [currentVersion, Database.maxVersion, Database.createVersions] at h
  cases versions with
  | none =>
    cases h
    exact ⟨rfl, rfl⟩
  | some versions =>
    obtain ⟨named, rows⟩ := versions
    cases named with
    | false => cases h
    | true =>
      cases h
      exact ⟨rfl, rfl⟩

theorem currentVersion_of_versions {rows : List Int64} (h : db.versions = some ⟨true, rows⟩) :
    currentVersion db = (.ok (rows.max?.getD 0), db) := by
  obtain ⟨metrics, versions⟩ := db
  cases h
  rfl

/-- If the version cannot be read, its table is there and is left alone. -/
theorem createVersions_of_unread {fault : DatabaseFault} (h : (currentVersion db).1 = .error fault) :
    db.createVersions = db := by
  obtain ⟨metrics, versions⟩ := db
  cases versions with
  | none => cases h
  | some versions => rfl

theorem le_of_recorded (h : (currentVersion db).1 = .ok previous) {version : Int64}
    (hmem : version ∈ db.recorded) : version ≤ previous := by
  obtain ⟨-, hmax⟩ := versions_of_read h
  cases hrows : db.recorded.max? with
  | none =>
    rw [List.max?_eq_none_iff.1 hrows] at hmem
    cases hmem
  | some greatest =>
    rw [hrows] at hmax
    cases hmax
    exact (List.max?_eq_some_iff.1 hrows).2 version hmem

theorem mem_pending {version : Int64} {count : Nat} :
    version ∈ pending previous count ↔
      previous < version ∧ ∃ i < count, version = Int64.ofNat (i + 1) := by
  rw [pending, List.mem_filter, List.mem_map, decide_eq_true_eq]
  constructor
  · rintro ⟨⟨i, hi, rfl⟩, habove⟩
    exact ⟨habove, i, List.mem_range.1 hi, rfl⟩
  · rintro ⟨habove, i, hi, rfl⟩
    exact ⟨⟨i, List.mem_range.2 hi, rfl⟩, habove⟩

theorem pending_succ (previous : Int64) (k : Nat) :
    pending previous (k + 1) = if previous < Int64.ofNat (k + 1)
      then pending previous k ++ [Int64.ofNat (k + 1)] else pending previous k := by
  rw [pending, List.range_succ, List.map_append, List.filter_append, ← pending, List.map_singleton]
  split
  · rename_i habove
    rw [List.filter_singleton, decide_eq_true habove, cond_true]
  · rename_i hbelow
    rw [List.filter_singleton, decide_eq_false hbelow, cond_false, List.append_nil]

/-- A pending version is greater than all that are recorded before it, so it is none of them. -/
theorem not_mem_recorded (h : (currentVersion db).1 = .ok previous) (hk : k + 1 < 0x8000000000000000)
    (hpending : previous < Int64.ofNat (k + 1)) :
    Int64.ofNat (k + 1) ∉ db.recorded ++ pending previous k := by
  rw [List.mem_append, not_or]
  constructor
  · intro hmem
    have hle := le_of_recorded h hmem
    rw [Int64.le_iff_toInt_le] at hle
    rw [Int64.lt_iff_toInt_lt] at hpending
    omega
  · intro hmem
    obtain ⟨-, i, hi, heq⟩ := mem_pending.1 hmem
    have hsame := congrArg Int64.toInt heq
    rw [Int64.toInt_ofNat_of_lt hk, Int64.toInt_ofNat_of_lt (by omega)] at hsame
    omega

theorem pending_eq_nil (hk : k + 1 < 0x8000000000000000) (hbelow : ¬ previous < Int64.ofNat (k + 1)) :
    pending previous (k + 1) = [] := by
  rw [List.eq_nil_iff_forall_not_mem]
  intro version hmem
  obtain ⟨habove, i, hi, rfl⟩ := mem_pending.1 hmem
  rw [Int64.lt_iff_toInt_lt, Int64.toInt_ofNat_of_lt hk] at hbelow
  rw [Int64.lt_iff_toInt_lt, Int64.toInt_ofNat_of_lt (by omega)] at habove
  omega

theorem max_recorded (h : (currentVersion db).1 = .ok previous) (hk : k + 1 < 0x8000000000000000) :
    (db.recorded ++ pending previous (k + 1)).max?.getD 0 = max previous (Int64.ofNat (k + 1)) := by
  rw [int64_max_eq]
  by_cases hpending : previous < Int64.ofNat (k + 1)
  · have habove := Int64.lt_iff_toInt_lt.1 hpending
    have hmost : (db.recorded ++ pending previous (k + 1)).max? = some (Int64.ofNat (k + 1)) := by
      rw [List.max?_eq_some_iff]
      refine ⟨List.mem_append_right _ (mem_pending.2 ⟨hpending, k, Nat.lt_succ_self k, rfl⟩), ?_⟩
      intro version hmem
      rw [Int64.le_iff_toInt_le]
      rcases List.mem_append.1 hmem with hmem | hmem
      · have hle := Int64.le_iff_toInt_le.1 (le_of_recorded h hmem)
        omega
      · obtain ⟨-, i, hi, rfl⟩ := mem_pending.1 hmem
        rw [Int64.toInt_ofNat_of_lt hk, Int64.toInt_ofNat_of_lt (by omega)]
        omega
    rw [hmost, if_pos (Int64.le_iff_toInt_le.2 (by omega)), Option.getD_some]
  · rw [pending_eq_nil hk hpending, List.append_nil, (versions_of_read h).2]
    rw [Int64.lt_iff_toInt_lt] at hpending
    split
    · rename_i hle
      rw [Int64.le_iff_toInt_le] at hle
      exact Int64.toInt_inj.1 (by omega)
    · rfl

/-! ### Transactions -/

theorem execute_append (first second : List SchemaStatement) (db : Database) :
    execute (first ++ second) db = match execute first db with
      | (.error fault, db) => (.error fault, db)
      | (.ok (), db) => execute second db := by
  induction first generalizing db with
  | nil => rfl
  | cons statement first ih =>
    rw [List.cons_append, execute, execute]
    cases statement db with
    | error fault => rfl
    | ok after => exact ih after

/-- Statements that are executed up to a fault stop at one of them. -/
theorem exists_of_stopped {statements : List SchemaStatement} {fault : DatabaseFault} {part : Database}
    (h : execute statements db = (.error fault, part)) :
    ∃ done statement rest, statements = done ++ statement :: rest ∧
      execute done db = (.ok (), part) ∧ statement part = .error fault := by
  induction statements generalizing db with
  | nil => cases h
  | cons statement more ih =>
    rw [execute] at h
    cases hstatement : statement db with
    | error other =>
      rw [hstatement] at h
      cases h
      exact ⟨[], statement, more, rfl, rfl, hstatement⟩
    | ok middle =>
      rw [hstatement] at h
      obtain ⟨done, last, rest, rfl, hdone, hlast⟩ := ih h
      refine ⟨statement :: done, last, rest, rfl, ?_, hlast⟩
      rw [execute, hstatement]
      exact hdone

theorem keeps_execute {statements : List SchemaStatement}
    (hkeeps : ∀ statement ∈ statements, Keeps statement)
    (h : execute statements before = (.ok (), after)) :
    after.versions = before.versions ∧ ∀ rows ∈ before.metrics, after.metrics = some rows := by
  induction statements generalizing before with
  | nil =>
    cases h
    exact ⟨rfl, fun rows hrows => hrows⟩
  | cons statement more ih =>
    obtain ⟨hstatement, hmore⟩ := List.forall_mem_cons.1 hkeeps
    rw [execute] at h
    cases hfirst : statement before with
    | error fault =>
      rw [hfirst] at h
      cases h
    | ok middle =>
      rw [hfirst] at h
      obtain ⟨hversions, hmetrics⟩ := hstatement hfirst
      obtain ⟨hversions', hmetrics'⟩ := ih hmore h
      exact ⟨hversions'.trans hversions, fun rows hrows => hmetrics' rows (hmetrics rows hrows)⟩

/-! ### The steps -/

theorem applySteps_append (current : Int64) (earlier later : List SchemaStep) (version : Int64)
    (db : Database) :
    applySteps current (earlier ++ later) version db = match applySteps current earlier version db with
      | (.error fault, db) => (.error fault, db)
      | (.ok (), db) => applySteps current later (version + Int64.ofNat earlier.length) db := by
  induction earlier generalizing version db with
  | nil =>
    rw [List.nil_append, applySteps, List.length_nil]
    change _ = applySteps current later (version + 0) db
    rw [Int64.add_zero]
  | cons step earlier ih =>
    have hnext : version + 1 + Int64.ofNat earlier.length
        = version + Int64.ofNat (step :: earlier).length := by
      rw [List.length_cons, Int64.ofNat_add, Int64.add_assoc,
        Int64.add_comm (Int64.ofNat earlier.length)]
      rfl
    rw [List.cons_append, applySteps, applySteps]
    split
    · rw [ih, hnext]
    · rcases transaction (step ++ [Database.insertVersion version]) db with ⟨_ | _, after⟩
      · rfl
      · dsimp only
        rw [ih, hnext]

/-- What a step does after the ones before it. -/
theorem migrateBy_succ {step : SchemaStep} (h : (currentVersion before).1 = .ok previous)
    (hstep : steps[k]? = some step) (hearlier : migrateBy (steps.take k) before = (.ok (), db)) :
    migrateBy (steps.take (k + 1)) before =
      if previous < Int64.ofNat (k + 1)
      then transaction (step ++ [Database.insertVersion (Int64.ofNat (k + 1))]) db
      else (.ok (), db) := by
  have hlength : (steps.take k).length = k :=
    List.length_take_of_le (Nat.le_of_lt (List.getElem?_eq_some_iff.1 hstep).1)
  have hversion : (1 : Int64) + Int64.ofNat k = Int64.ofNat (k + 1) := by
    rw [Int64.ofNat_add, Int64.add_comm]
    rfl
  rw [migrateBy, currentVersion_eq, h] at hearlier ⊢
  dsimp only at hearlier ⊢
  -- the step is the last one of a longer list, and the earlier ones have counted up to its version
  rw [List.take_add_one, hstep, Option.toList_some, applySteps_append, hearlier, hlength, hversion]
  dsimp only
  rw [applySteps]
  by_cases hpending : previous < Int64.ofNat (k + 1)
  · rw [if_neg (Int64.not_le.2 hpending), if_pos hpending]
    rcases transaction (step ++ [Database.insertVersion (Int64.ofNat (k + 1))]) db with ⟨_ | _, after⟩
    · rfl
    · rfl
  · rw [if_pos (Int64.not_lt.1 hpending), if_neg hpending]
    rfl

theorem migrateBy_of_stopped {fault : DatabaseFault}
    (h : migrateBy (steps.take k) before = (.error fault, after)) :
    migrateBy steps before = (.error fault, after) := by
  rw [← List.take_append_drop k steps]
  rw [migrateBy, currentVersion_eq] at h ⊢
  cases hversion : (currentVersion before).1 with
  | error other =>
    rw [hversion] at h
    exact h
  | ok previous =>
    rw [hversion] at h
    dsimp only at h ⊢
    rw [applySteps_append, h]

theorem stands_zero (h : (currentVersion before).1 = .ok previous) :
    migrateBy (steps.take 0) before = (.ok (), before.createVersions) ∧
      Stands previous before 0 before.createVersions := by
  refine ⟨?_, ?versions, fun rows hrows => hrows⟩
  · rw [migrateBy, currentVersion_eq, h]
    rfl
  case versions =>
    rw [(versions_of_read h).1]
    exact congrArg (fun rows => some (Versions.mk true rows)) (List.append_nil _).symm

/-- A version that is not recorded yet is recorded behind the others. -/
theorem Stands.insertVersion (hstands : Stands previous before k db) {middle : Database}
    (hversions : middle.versions = db.versions) {version : Int64}
    (hfresh : version ∉ before.recorded ++ pending previous k) :
    middle.insertVersion version = .ok { middle with
      versions := some ⟨true, before.recorded ++ pending previous k ++ [version]⟩ } := by
  simp only [Database.insertVersion, hversions, hstands.versions, Bool.not_true, Bool.false_eq_true,
    if_false, List.contains_iff_mem, hfresh]

/-- A pending step and its version go together: either both are done to what the earlier steps left, or
a statement of the step fails, and nothing is done. -/
theorem Stands.step (hstands : Stands previous before k db)
    (h : (currentVersion before).1 = .ok previous) {step : SchemaStep}
    (hkeeps : ∀ statement ∈ step, Keeps statement) (hk : k + 1 < 0x8000000000000000)
    (hpending : previous < Int64.ofNat (k + 1)) :
    (∃ after, transaction (step ++ [Database.insertVersion (Int64.ofNat (k + 1))]) db
          = (.ok (), after) ∧ Stands previous before (k + 1) after) ∨
      ∃ fault part, transaction (step ++ [Database.insertVersion (Int64.ofNat (k + 1))]) db
          = (.error fault, db) ∧ execute step db = (.error fault, part) := by
  rw [transaction, execute_append]
  rcases hstep : execute step db with ⟨fault | ⟨⟩, middle⟩
  · exact .inr ⟨fault, middle, rfl, rfl⟩
  · obtain ⟨hversions, hmetrics⟩ := keeps_execute hkeeps hstep
    have hinsert := hstands.insertVersion hversions (not_mem_recorded h hk hpending)
    dsimp only
    rw [execute, hinsert]
    refine .inl ⟨_, rfl, ?versions, fun rows hrows => hmetrics rows (hstands.metrics rows hrows)⟩
    case versions => rw [pending_succ, if_pos hpending, List.append_assoc]

theorem Stands.skip (hstands : Stands previous before k db)
    (hbelow : ¬ previous < Int64.ofNat (k + 1)) : Stands previous before (k + 1) db := by
  refine ⟨?_, hstands.metrics⟩
  rw [pending_succ, if_neg hbelow]
  exact hstands.versions

/-- As far as no step fails, the database stands as the steps leave it; the first step that fails leaves
it where it stood. -/
theorem stands_or_fails (h : (currentVersion before).1 = .ok previous)
    (hkeeps : AllKeep steps) (hlength : steps.length < 0x8000000000000000) {k : Nat}
    (hk : k ≤ steps.length) :
    (∃ after, migrateBy (steps.take k) before = (.ok (), after) ∧ Stands previous before k after) ∨
      ∃ j fault after, FailsAt steps previous before j fault after ∧
        migrateBy steps before = (.error fault, after) := by
  induction k with
  | zero => exact .inl ⟨_, stands_zero h⟩
  | succ k ih =>
    rcases ih (Nat.le_of_succ_le hk) with ⟨db, hearlier, hstands⟩ | hfails
    · have hstep := List.getElem?_eq_getElem hk
      have hnext := migrateBy_succ h hstep hearlier
      by_cases hpending : previous < Int64.ofNat (k + 1)
      · rw [if_pos hpending] at hnext
        rcases hstands.step h (hkeeps _ (List.getElem_mem hk)) (by omega) hpending
          with ⟨after, hdone, hafter⟩ | ⟨fault, part, hundone, hstopped⟩
        · exact .inl ⟨after, hnext.trans hdone, hafter⟩
        · -- the transaction ends before the version is written, so a statement of the step failed
          obtain ⟨done, statement, rest, hparts, hdone, hfault⟩ := exists_of_stopped hstopped
          rw [hparts] at hstep
          exact .inr ⟨k, fault, db, ⟨hpending, ⟨done, statement, rest, part, hstep, hdone, hfault⟩,
            hearlier, hstands⟩, migrateBy_of_stopped (hnext.trans hundone)⟩
      · rw [if_neg hpending] at hnext
        exact .inl ⟨db, hnext, hstands.skip hpending⟩
    · exact .inr hfails

/-- A database whose version is not below the last step is left alone. -/
theorem migrateBy_current (h : currentVersion db = (.ok previous, db))
    (hlength : steps.length < 0x8000000000000000) (hcurrent : Int64.ofNat steps.length ≤ previous) :
    migrateBy steps db = (.ok (), db) := by
  have hread : (currentVersion db).1 = .ok previous := congrArg Prod.fst h
  have hprefix (k : Nat) (hk : k ≤ steps.length) : migrateBy (steps.take k) db = (.ok (), db) := by
    induction k with
    | zero =>
      rw [List.take_zero, migrateBy, h]
      rfl
    | succ k ih =>
      have hbelow : ¬ previous < Int64.ofNat (k + 1) := by
        rw [Int64.not_lt, Int64.le_iff_toInt_le, Int64.toInt_ofNat_of_lt (by omega)]
        rw [Int64.le_iff_toInt_le, Int64.toInt_ofNat_of_lt hlength] at hcurrent
        omega
      rw [migrateBy_succ hread (List.getElem?_eq_getElem hk) (ih (Nat.le_of_succ_le hk)),
        if_neg hbelow]
  rw [← List.take_length (l := steps)]
  exact hprefix _ (Nat.le_refl _)

/-- A migration whose steps are all done. -/
theorem upgraded_of_done (h : (currentVersion before).1 = .ok previous)
    (hkeeps : AllKeep steps) (hsome : steps ≠ []) (hlength : steps.length < 0x8000000000000000)
    (hdone : migrateBy steps before = (.ok (), after)) : Upgraded steps previous before after := by
  have hstands {k : Nat} (hk : k ≤ steps.length) :
      ∃ db, migrateBy (steps.take k) before = (.ok (), db) ∧ Stands previous before k db := by
    rcases stands_or_fails h hkeeps hlength hk with hstands | ⟨j, fault, db, -, hfails⟩
    · exact hstands
    · cases hdone.symm.trans hfails
  obtain ⟨db, hall, hafter⟩ := hstands (Nat.le_refl _)
  rw [List.take_length, hdone] at hall
  cases hall
  obtain ⟨count, hcount⟩ := Nat.exists_eq_succ_of_ne_zero (mt List.eq_nil_of_length_eq_zero hsome)
  have hversion : currentVersion after = (.ok (max previous (Int64.ofNat steps.length)), after) := by
    rw [currentVersion_of_versions hafter.versions, hcount, max_recorded h (by omega)]
  refine ⟨hafter, hversion, ?fresh, ?inTurn, ?again⟩
  case fresh =>
    intro version hmem hrecorded
    have hle := le_of_recorded h hrecorded
    exact Int64.not_lt.2 hle (mem_pending.1 hmem).1
  case inTurn =>
    intro k step hstep
    have hk := (List.getElem?_eq_some_iff.1 hstep).1
    obtain ⟨earlier, hearlier, -⟩ := hstands (Nat.le_of_lt hk)
    obtain ⟨later, hlater, -⟩ := hstands hk
    refine ⟨earlier, later, hearlier, hlater, ?_⟩
    rw [migrateBy_succ h hstep hearlier] at hlater
    split
    · rename_i hpending
      rw [if_pos hpending, transaction] at hlater
      split at hlater
      · cases hlater
      · rename_i hexecute
        cases hlater
        exact hexecute
    · rename_i hbelow
      rw [if_neg hbelow] at hlater
      cases hlater
      rfl
  case again => exact migrateBy_current hversion hlength (int64_le_max_right _ _)

end Schema

namespace SqlStore

/-- Brings the schema up to date by steps of its own. -/
def migrateBy (steps : List SchemaStep) : Action SqlStore Unit := changeSchema (Schema.migrateBy steps)

/-- What a migration by some steps comes to: all of them are done, or one of them fails, or none is
tried because the database cannot be written or its version cannot be read. -/
inductive Migrated (steps : List SchemaStep) (world : World SqlStore) :
    Except Failure Unit × World SqlStore → Prop where
  | done (previous : Int64) (after : World SqlStore)
    (hread : (Schema.currentVersion world.store.database).1 = .ok previous)
    (hdone : Schema.Upgraded steps previous world.store.database after.store.database)
    (hagain : migrateBy steps after = (.ok (), after)) : Migrated steps world (.ok (), after)
  | failed (previous : Int64) (k : Nat) (fault : DatabaseFault) (after : World SqlStore)
    (hread : (Schema.currentVersion world.store.database).1 = .ok previous)
    (hfails : Schema.FailsAt steps previous world.store.database k fault after.store.database) :
    Migrated steps world (.error (.migration fault.message), after)
  | prevented (fault : DatabaseFault)
    (hprevented : world.store.isOpen = false ∨ world.store.readOnly = true ∨
      (Schema.currentVersion world.store.database).1 = .error fault) :
    Migrated steps world (.error (.migration fault.message), world)

variable {world : World SqlStore} {steps : List SchemaStep}

/-- A change of the schema is kept with its result, unless it is one of a database that cannot be
written. -/
theorem changeSchema_cases {α : Type} {change : Database → Except DatabaseFault α × Database}
    {result : Except DatabaseFault α} {db : Database} (hopen : world.store.isOpen = true)
    (hchange : change world.store.database = (result, db)) :
    (∃ after, changeSchema change world
          = (result.mapError fun fault => .migration fault.message, after) ∧
        after.store.database = db ∧ after.store.isOpen = true ∧
        (db = world.store.database → after = world)) ∨
      world.store.readOnly = true ∧ changeSchema change world
        = (.error (.migration DatabaseFault.readOnly.message), world) := by
  rw [changeSchema]
  simp only [hopen, Bool.not_true, Bool.false_eq_true, if_false, hchange]
  by_cases hsame : db = world.store.database
  · rw [if_pos hsame]
    exact .inl ⟨world, rfl, hsame.symm, hopen, fun _ => rfl⟩
  · rw [if_neg hsame]
    cases hreadOnly : world.store.readOnly with
    | true => exact .inr ⟨rfl, rfl⟩
    | false =>
      refine .inl ⟨(keep db world).2, ?_, rfl, hopen, fun heq => absurd heq hsame⟩
      cases result <;> rfl

/-- A migration that was done is not done again. -/
theorem migrateBy_again {after : World SqlStore} (hopen : after.store.isOpen = true)
    (hagain : Schema.migrateBy steps after.store.database = (.ok (), after.store.database)) :
    migrateBy steps after = (.ok (), after) := by
  rw [migrateBy, changeSchema]
  simp only [hopen, Bool.not_true, Bool.false_eq_true, if_false, hagain, if_true]
  rfl

theorem migrated_migrateBy (hkeeps : Schema.AllKeep steps) (hsome : steps ≠ [])
    (hlength : steps.length < 0x8000000000000000) (world : World SqlStore) :
    Migrated steps world (migrateBy steps world) := by
  cases hopen : world.store.isOpen with
  | false =>
    have hclosed : migrateBy steps world
        = (.error (.migration DatabaseFault.closed.message), world) := by
      rw [migrateBy, changeSchema]
      simp only [hopen, Bool.not_false, if_true]
    rw [hclosed]
    exact .prevented _ (.inl hopen)
  | true =>
    cases hread : (Schema.currentVersion world.store.database).1 with
    | error fault =>
      have hunread : Schema.migrateBy steps world.store.database
          = (.error fault, world.store.database) := by
        rw [Schema.migrateBy, Schema.currentVersion_eq, hread, Schema.createVersions_of_unread hread]
      rcases changeSchema_cases hopen hunread
        with ⟨after, hafter, -, -, hsame⟩ | ⟨hreadOnly, hrefused⟩
      · rw [hsame rfl] at hafter
        rw [migrateBy, hafter]
        exact .prevented fault (.inr (.inr hread))
      · rw [migrateBy, hrefused]
        exact .prevented _ (.inr (.inl hreadOnly))
    | ok previous =>
      rcases Schema.stands_or_fails hread hkeeps hlength (Nat.le_refl _)
        with ⟨db, hdone, -⟩ | ⟨k, fault, db, hfails, hstopped⟩
      · rw [List.take_length] at hdone
        have hupgraded := Schema.upgraded_of_done hread hkeeps hsome hlength hdone
        rcases changeSchema_cases hopen hdone
          with ⟨after, hafter, rfl, hstillOpen, -⟩ | ⟨hreadOnly, hrefused⟩
        · rw [migrateBy, hafter]
          exact .done previous after hread hupgraded (migrateBy_again hstillOpen hupgraded.again)
        · rw [migrateBy, hrefused]
          exact .prevented _ (.inr (.inl hreadOnly))
      · rcases changeSchema_cases hopen hstopped
          with ⟨after, hafter, rfl, -, -⟩ | ⟨hreadOnly, hrefused⟩
        · rw [migrateBy, hafter]
          exact .failed previous k fault after hread hfails
        · rw [migrateBy, hrefused]
          exact .prevented _ (.inr (.inl hreadOnly))

/-- Whatever the database holds, a migration does the pending steps in turn, each with its version or
not at all, and what it has done it does not do again. This is so of the steps of the store, and of any
others whose statements leave the versions and the rows alone. -/
theorem migrations_go_step_by_step (world : World SqlStore) :
    Migrated Schema.steps world (migrate world) ∧
      ∀ steps : List SchemaStep, Schema.AllKeep steps → steps ≠ [] →
        steps.length < 0x8000000000000000 →
        Migrated steps world (migrateBy steps world) := by
  refine ⟨?_, fun steps hkeeps hsome hlength => migrated_migrateBy hkeeps hsome hlength world⟩
  exact migrated_migrateBy Schema.allKeep_steps (List.cons_ne_nil _ _) (by decide) world

/-- The second step creates the table before its last statement fails. The version of the first step
remains, and the table does not. -/
theorem migrations_go_step_by_step_stopped :
    let failing : SchemaStatement := fun _ => .error (.noTable "samples")
    let steps : List SchemaStep := [[], [Schema.createTable, Schema.createIndex, failing]]
    let world : World SqlStore := ⟨⟨Database.empty, none, false, true⟩, ⟨[], Counters.empty, 0⟩⟩
    Schema.AllKeep steps ∧ steps ≠ [] ∧ steps.length < 0x8000000000000000 ∧
      Migrated steps world (migrateBy steps world) ∧
      (migrateBy steps world).1 = .error (.migration (DatabaseFault.noTable "samples").message) ∧
      (migrateBy steps world).2.store.database = ⟨none, some ⟨true, [1]⟩⟩ := by
  intro failing steps world
  have hkeeps : Schema.AllKeep steps := by
    simp only [Schema.AllKeep, steps, List.forall_mem_cons, List.not_mem_nil, false_implies,
      implies_true, and_true, true_and]
    refine ⟨Schema.keeps_createTable, Schema.keeps_createIndex, ?_⟩
    rintro before after ⟨⟩
  have hsome : steps ≠ [] := List.cons_ne_nil _ _
  have hlength : steps.length < 0x8000000000000000 := by decide
  exact ⟨hkeeps, hsome, hlength, (migrations_go_step_by_step world).2 steps hkeeps hsome hlength, rfl,
    rfl⟩

end SqlStore

end Telemetry
