import Telemetry.Proofs.Service.Query
import Telemetry.Proofs.Store.Sql

/-!
# A database in the place of a memory

The store in a database differs from the store in memory in the names it refuses, the zeros it keeps
and the batches it takes back. On records that a table takes as they are, only the last difference is
left. A service on a database then gives every answer that a service in memory gives, and the two
keep the same records, except that a refused batch leaves nothing in the database.
-/

namespace Telemetry

open Number

/-- A table admits the name, and keeps the value as it is. -/
structure Record.Storable (record : Record) : Prop where
  admitted : Database.admits record.name = true
  finite : record.value.isFinite = true
  signless : record.value ≠ .gauge Binary64.negativeZero

/-! ### Writing storable records -/

namespace Record.Storable

variable {record : Record}

theorem kept_table (h : record.Storable) : Medium.table.kept record.value = record.value := by
  obtain ⟨name, value⟩ := record
  cases value with
  | counter n => rfl
  | gauge x =>
    have hplain : x.plain = x := Binary64.plain_eq_self_iff.2 fun heq => h.signless (by rw [heq])
    exact congrArg Value.gauge hplain

/-- A table takes a storable record where a memory does, and as a memory does. -/
theorem next_table (h : record.Storable) (stored : Option Value) :
    Medium.table.next record stored = Medium.memory.next record stored := by
  cases stored with
  | none =>
    have hadmitted : Medium.table.refusal record.name = none := if_pos h.admitted
    simp only [Medium.next, hadmitted, h.kept_table, Medium.kept_memory]
    rfl
  | some stored =>
    cases hnext : Medium.memory.next record (some stored) with
    | error failure =>
      rcases Medium.next_error hnext with ⟨hkind, rfl⟩ | ⟨n, delta, rfl, hvalue, hsum, rfl⟩
      · exact Medium.next_mismatch _ hkind
      · simp [Medium.next, Record.apply, hvalue, addExact?, hsum, Except.map]
    | ok value =>
      rcases Medium.next_ok hnext with ⟨n, delta, sum, rfl, hvalue, rfl, hsum⟩ | ⟨x, y, rfl, hvalue, rfl⟩
      · simp only [Medium.next, Record.apply, hvalue] at hnext ⊢
        cases hadd : addExact? n delta with
        | none => simp [hadd, Except.map] at hnext
        | some total => simpa [hadd, Except.map, Medium.kept] using hnext
      · have hkept := h.kept_table
        rw [hvalue] at hkept
        simp only [Medium.next, Record.apply, hvalue, Except.map, hkept]
        rfl

/-- What stands under the name after a storable record was written is storable. -/
theorem next (h : record.Storable) {stored : Option Value} {value : Value}
    (hnext : Medium.memory.next record stored = .ok value) :
    (⟨record.name, value⟩ : Record).Storable := by
  cases stored with
  | none =>
    rw [(Medium.next_none_ok hnext).2, Medium.kept_memory]
    exact h
  | some stored =>
    rcases Medium.next_ok hnext with ⟨_, _, sum, _, _, rfl, _⟩ | ⟨_, y, _, hvalue, rfl⟩
    · exact ⟨h.admitted, rfl, by simp⟩
    · exact ⟨h.admitted, hvalue ▸ h.finite, hvalue ▸ h.signless⟩

end Record.Storable

namespace Contents

/-- The table could hold these contents. -/
def Storable (c : Contents) : Prop :=
  ∀ name value, c name = some value → (⟨name, value⟩ : Record).Storable

variable {c : Contents} {record : Record} {records : List Record}

theorem write_table (h : record.Storable) : c.write .table record = c.write .memory record := by
  unfold write
  rw [h.next_table]

theorem Storable.set (hc : c.Storable) (h : record.Storable) :
    (c.set record.name record.value).Storable := by
  intro name value hvalue
  by_cases hname : name = record.name
  · rw [hname, set_self, Option.some.injEq] at hvalue
    rw [hname, ← hvalue]
    exact h
  · rw [set_of_ne _ _ hname] at hvalue
    exact hc name value hvalue

theorem Storable.write (hc : c.Storable) (h : record.Storable) :
    (c.write .memory record).2.Storable := by
  rw [Contents.write]
  cases hnext : Medium.memory.next record (c record.name) with
  | error failure => exact hc
  | ok value => exact hc.set (h.next hnext)

theorem enterAll_table (h : ∀ record ∈ records, record.Storable) :
    c.enterAll .table (records.map .ok) = c.enterAll .memory (records.map .ok) := by
  induction records generalizing c with
  | nil => rfl
  | cons record records ih =>
    have hfirst := write_table (c := c) (h record List.mem_cons_self)
    have hrest : ∀ other ∈ records, other.Storable := fun other hmem =>
      h other (List.mem_cons_of_mem _ hmem)
    simp only [List.map_cons, enterAll, enter, hfirst]
    rcases c.write .memory record with ⟨failure | ⟨⟨⟩⟩, after⟩
    · rfl
    · exact ih hrest

theorem Storable.enterAll (hc : c.Storable) (h : ∀ record ∈ records, record.Storable) :
    (c.enterAll .memory (records.map .ok)).2.Storable := by
  induction records generalizing c with
  | nil => exact hc
  | cons record records ih =>
    have hfirst := hc.write (h record List.mem_cons_self)
    have hrest : ∀ other ∈ records, other.Storable := fun other hmem =>
      h other (List.mem_cons_of_mem _ hmem)
    simp only [List.map_cons, Contents.enterAll, enter]
    rcases hwrite : c.write .memory record with ⟨failure | ⟨⟨⟩⟩, after⟩ <;> rw [hwrite] at hfirst
    · exact hfirst
    · exact ih hfirst hrest

end Contents

namespace Service.Update

/-- All that the update would write is storable. -/
def Storable (update : Update) : Prop :=
  ∀ records, update.records = .ok records → ∀ record ∈ records, record.Storable

variable {update : Update} {c : Contents}

/-- A storable update does to the contents of a table what it does to those of a memory, except that a
refused one does nothing. -/
theorem effect_table (h : update.Storable) :
    update.effect .table c = match update.effect .memory c with
      | (.ok (), after) => (.ok (), after)
      | (.error failure, _) => (.error failure, c) := by
  unfold effect
  cases hrecords : update.records with
  | error failure => rfl
  | ok records =>
    simp only [Contents.enterBatch, Contents.enterAll_table (h records hrecords)]
    rcases c.enterAll .memory (records.map .ok) with ⟨failure | ⟨⟨⟩⟩, after⟩ <;> rfl

theorem storable_effect (hc : c.Storable) (h : update.Storable) :
    (update.effect .memory c).2.Storable := by
  rw [effect]
  cases hrecords : update.records with
  | error failure => exact hc
  | ok records =>
    simp only [Contents.enterBatch_memory]
    exact hc.enterAll (h records hrecords)

theorem effect_error {m : Medium} {after : Contents} {failure : Failure}
    (hsingle : ∀ samples, update ≠ .batch samples)
    (h : update.effect m c = (.error failure, after)) : after = c := by
  cases update with
  | one sample =>
    rw [effect_one] at h
    split at h
    · exact (Prod.mk.inj h).2.symm
    · exact (Contents.write_error_iff.1 h).2
  | text kind name raw =>
    rw [effect_text] at h
    split at h
    · exact (Prod.mk.inj h).2.symm
    · exact (Contents.write_error_iff.1 h).2
  | batch samples => exact absurd rfl (hsingle samples)

end Service.Update

/-! ### Two services -/

/-- A memory and an open database that can be written hold the same records, in whatever order, and
these are storable. -/
structure SameRecords (memory : MemoryStore) (sql : SqlStore) : Prop where
  distinct : (memory.records.map Record.name).Nodup
  storable : ∀ record ∈ memory.records, record.Storable
  isOpen : sql.isOpen = true
  writable : sql.readOnly = false
  table : ∃ records : List Record, records.Perm memory.records ∧
    sql.database.metrics = some (records.map Row.ofRecord)

theorem sameRecords_iff {memory : MemoryStore} {sql : SqlStore} :
    SameRecords memory sql ↔ ∃ c : Contents, memory.Shows c ∧ sql.Shows c ∧ c.Storable := by
  constructor
  · intro h
    obtain ⟨records, hperm, htable⟩ := h.table
    have hlists := Contents.lists_ofRecords h.distinct
    have hdistinct : (records.map Record.name).Nodup :=
      (hperm.map Record.name).nodup_iff.2 h.distinct
    have hsame : Contents.ofRecords memory.records = Contents.ofRecords records := by
      refine hlists.unique ⟨h.distinct, fun record => ?_⟩
      rw [← hperm.mem_iff]
      exact (Contents.lists_ofRecords hdistinct).2 record
    refine ⟨Contents.ofRecords memory.records, ⟨h.distinct, rfl⟩, ⟨h.isOpen, h.writable, ?_⟩, ?_⟩
    · refine ⟨⟨records⟩, htable, ⟨hdistinct, hsame⟩, fun record hmem => ?_⟩
      exact (h.storable record (hperm.mem_iff.1 hmem)).admitted
    · intro name value hvalue
      exact h.storable ⟨name, value⟩ ((hlists.2 ⟨name, value⟩).2 hvalue)
  · rintro ⟨c, hmemory, hsql, hstorable⟩
    obtain ⟨store, htable, hstore, _⟩ := hsql.table
    refine ⟨hmemory.1, fun record hmem => ?_, hsql.isOpen, hsql.writable,
      ⟨store.records, hstore.lists.perm hmemory.lists, htable⟩⟩
    exact hstorable record.name record.value ((hmemory.lists.2 record).1 hmem)

namespace Service

variable {memory : World MemoryStore} {sql : World SqlStore}

/-- An update is done in the database when it is done in memory, with the same answer or for the same
reason; a batch that is done and every other update leave the same records, and a refused update
leaves the records of the database as they were. A query has the same answer, and changes nothing. -/
theorem sql_simulates_memory (h : SameRecords memory.store sql.store) :
    (∀ update : Update, update.Storable →
      (update.perform sql).1 = (update.perform memory).1 ∧
      ((∀ samples, update = .batch samples → ∃ answer, (update.perform memory).1 = .ok answer) →
        SameRecords (update.perform memory).2.store (update.perform sql).2.store) ∧
      (∀ failure, (update.perform sql).1 = .error failure →
        SameRecords memory.store (update.perform sql).2.store)) ∧
    ∀ query : Query, (query.perform sql).1 = (query.perform memory).1 ∧
      SameRecords (query.perform memory).2.store (query.perform sql).2.store := by
  obtain ⟨c, hmemory, hsql, hc⟩ := sameRecords_iff.1 h
  constructor
  · intro update hupdate
    obtain ⟨hmemoryResult, hmemoryAfter⟩ := Update.performs MemoryStore.faithful hmemory update
    obtain ⟨hsqlResult, hsqlAfter⟩ := Update.performs SqlStore.faithful hsql update
    have hstorable := Update.storable_effect hc hupdate
    rw [Update.effect_table hupdate] at hsqlResult hsqlAfter
    rcases heffect : update.effect .memory c with ⟨failure | ⟨⟨⟩⟩, after⟩ <;>
      rw [heffect] at hmemoryResult hmemoryAfter hsqlResult hsqlAfter hstorable
    · refine ⟨hsqlResult.trans hmemoryResult.symm, fun hbatch => ?_, fun _ _ => ?_⟩
      -- An update that is refused here is no batch, so it has left nothing in memory either.
      · have hsingle : ∀ samples, update ≠ .batch samples := by
          intro samples heq
          obtain ⟨answer, hanswer⟩ := hbatch samples heq
          rw [hmemoryResult] at hanswer
          cases hanswer
        have hafter : after = c := Update.effect_error hsingle heffect
        subst hafter
        exact sameRecords_iff.2 ⟨after, hmemoryAfter, hsqlAfter, hc⟩
      · exact sameRecords_iff.2 ⟨c, hmemory, hsqlAfter, hc⟩
    · refine ⟨hsqlResult.trans hmemoryResult.symm,
        fun _ => sameRecords_iff.2 ⟨after, hmemoryAfter, hsqlAfter, hstorable⟩, fun failure hfailure => ?_⟩
      rw [hsqlResult] at hfailure
      cases hfailure
  · intro query
    rw [Query.perform_world MemoryStore.faithful hmemory,
      Query.perform_world SqlStore.faithful hsql]
    exact ⟨Query.perform_agrees SqlStore.faithful MemoryStore.faithful hsql hmemory query, h⟩

/-- A counter that both stores hold is increased in both, and shows the same sum. -/
theorem sql_simulates_memory_increase :
    let host : Host := ⟨[], Counters.empty, 0⟩
    let memory : World MemoryStore := ⟨⟨[⟨"a", .counter 1⟩]⟩, host⟩
    let sql : World SqlStore :=
      ⟨⟨⟨some [⟨"a", .counter, none, .integer 1⟩], none⟩, none, false, true⟩, host⟩
    let update : Update := .one (Sample.counter "a" 2)
    SameRecords memory.store sql.store ∧ update.Storable ∧
      (update.perform sql).1 = .ok (.shown (Sample.counter "a" 3)) ∧
      SameRecords (update.perform memory).2.store (update.perform sql).2.store := by
  intro host memory sql update
  have hadmitted : Database.admits "a" = true := by decide
  have hstorable (n : Int64) : (⟨"a", .counter n⟩ : Record).Storable :=
    ⟨hadmitted, rfl, fun heq => nomatch heq⟩
  have hsame : SameRecords memory.store sql.store := by
    refine ⟨by decide, fun record hmem => ?_, rfl, rfl, ⟨[⟨"a", .counter 1⟩], .refl _, rfl⟩⟩
    rw [List.mem_singleton.1 hmem]
    exact hstorable 1
  have hupdate : update.Storable := by
    intro records hrecords record hmem
    have hone : records = [⟨"a", .counter 2⟩] := (Except.ok.inj hrecords).symm
    rw [hone] at hmem
    rw [List.mem_singleton.1 hmem]
    exact hstorable 2
  have hdone : (update.perform memory).1 = .ok (.shown (Sample.counter "a" 3)) := rfl
  obtain ⟨hanswer, hrecords, _⟩ := (sql_simulates_memory hsame).1 update hupdate
  exact ⟨hsame, hupdate, hanswer.trans hdone, hrecords fun _ _ => ⟨_, hdone⟩⟩

end Service

end Telemetry
