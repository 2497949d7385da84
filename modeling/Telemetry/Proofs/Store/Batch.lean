import Telemetry.Proofs.Store.Balance
import Telemetry.Proofs.Store.Holdings
import Telemetry.Proofs.Store.Order
import Telemetry.Proofs.Store.Refusal

/-!
# A batch and its samples one by one

Each kind of store has code of its own for a batch, and none of them takes the way of a single sample,
which looks a name up and then writes. A map applies the entries in place; a database decides between
its two statements by the kind that is stored, in a transaction. What a batch comes to is nevertheless
what its samples come to one after another, up to the first that is refused: a map keeps what was done
until then, a database takes it back, and the failure is that of the sample.

The snapshot file is not compared. A backup may be due after some of the samples and not after the batch.
-/

namespace Telemetry

open Number

namespace Repository

variable {σ : Type} [Repository σ]

/-- Applies samples one by one, until one is refused. -/
def upsertAll : List Sample → Action σ Unit
  | [] => pure ()
  | sample :: samples => do
    upsert sample
    upsertAll samples

/-- Either all samples are applied, or one is refused after the ones before it. -/
theorem upsertAll_cases (samples : List Sample) (world : World σ) :
    (∃ moment, upsertAll samples world = (.ok (), moment)) ∨
      ∃ done entry rest moment failure after, samples = done ++ entry :: rest ∧
        upsertAll done world = (.ok (), moment) ∧ upsert entry moment = (.error failure, after) ∧
        upsertAll samples world = (.error failure, after) := by
  induction samples generalizing world with
  | nil => exact .inl ⟨world, rfl⟩
  | cons sample samples ih =>
    rcases hsample : upsert sample world with ⟨failure | ⟨⟨⟩⟩, middle⟩
    · refine .inr ⟨[], sample, samples, world, failure, middle, rfl, rfl, hsample, ?_⟩
      rw [upsertAll, Action.bind_apply, hsample]
    · have hnext (samples : List Sample) :
          upsertAll (sample :: samples) world = upsertAll samples middle := by
        rw [upsertAll, Action.bind_apply, hsample]
      rcases ih middle with ⟨moment, hdone⟩
        | ⟨done, entry, rest, moment, failure, after, rfl, hdone, hentry, hall⟩
      · exact .inl ⟨moment, (hnext samples).trans hdone⟩
      · exact .inr ⟨sample :: done, entry, rest, moment, failure, after, rfl,
          (hnext done).trans hdone, hentry, (hnext _).trans hall⟩

theorem Faithful.upsertAll {m : Medium} (faithful : Repository.Faithful σ m) {w : World σ}
    {c : Contents} (h : faithful.Shows w.store c) (samples : List Sample) :
    Settles faithful.Shows (Repository.upsertAll samples w)
      (c.enterAll m (samples.map Sample.toRecord)) := by
  induction samples generalizing w c with
  | nil => exact ⟨rfl, h⟩
  | cons sample samples ih =>
    rw [Repository.upsertAll, Action.bind_apply, List.map_cons, Contents.enterAll]
    rcases (faithful.upsert h sample).cases with ⟨after, c', hdone, henter, hshows⟩
      | ⟨failure, after, c', hdone, henter, hshows⟩
    · rw [hdone, henter]
      exact ih hshows
    · rw [hdone, henter]
      exact ⟨rfl, hshows⟩

end Repository

/-! ### In memory -/

namespace MemoryStore

/-- A batch of one sample looks up and writes at once what the sample alone looks up and then writes. -/
theorem upsert_eq (sample : Sample) :
    (Repository.upsert sample : Action MemoryStore Unit) = Repository.batch [sample] := by
  funext world
  rw [batch_apply, applySamples, applySample]
  cases hrecord : sample.toRecord with
  | error failure =>
    rw [Repository.upsert, hrecord]
    rfl
  | ok record =>
    rw [upsert_apply hrecord]
    cases hfind : world.store.get? record.name with
    | none =>
      simp only [hfind]
      rfl
    | some stored =>
      have hname : stored.name = record.name := (Contents.find?_name hfind).2
      have hwrite : Repository.write record.name record.value (some stored) world
          = change (fun store => store.apply stored.name record.value) world := rfl
      rw [hwrite, change, apply, hname, hfind]
      simp only [hfind]
      cases stored.apply record.value <;> rfl

theorem batch_eq (samples : List Sample) :
    (Repository.batch samples : Action MemoryStore Unit) = Repository.upsertAll samples := by
  induction samples with
  | nil => rfl
  | cons sample samples ih => rw [batch_cons, ih, Repository.upsertAll, upsert_eq]

end MemoryStore

/-! ### With a snapshot file -/

namespace SnapshotStore

open Repository

variable {world : World SnapshotStore}

def IsOpen (store : SnapshotStore) : Prop := ∀ backup ∈ store.backup, backup.isOpen = true

theorem backupIfDue_open (h : world.store.IsOpen) :
    ∃ after, backupIfDue world = (.ok (), after) ∧ after.store.memory = world.store.memory ∧
      after.store.IsOpen := by
  cases hbackup : world.store.backup with
  | none => exact ⟨world, by rw [backupIfDue, hbackup], rfl, h⟩
  | some backup =>
    have hopen : backup.isOpen = true := h backup hbackup
    rw [backupIfDue_eq hbackup, hopen]
    split
    · refine ⟨_, rfl, rfl, fun other hother => ?_⟩
      cases hother
      exact hopen
    · exact ⟨world, rfl, rfl, h⟩

/-- With an open file a change comes to what it comes to in memory. -/
theorem perform_open (h : world.store.IsOpen) (mutation : Mutation) :
    let memory : World MemoryStore := ⟨world.store.memory, world.host⟩
    (mutation.perform world).1 = (mutation.perform memory).1 ∧
      (mutation.perform world).2.store.memory = (mutation.perform memory).2.store ∧
      (mutation.perform world).2.store.IsOpen := by
  dsimp only
  rw [perform_eq, Action.bind_apply, inMemory_apply (MemoryStore.keepsHost_perform mutation)]
  rcases mutation.perform (⟨world.store.memory, world.host⟩ : World MemoryStore)
    with ⟨failure | ⟨⟨⟩⟩, memory⟩
  · exact ⟨rfl, rfl, h⟩
  · have hopen : (withMemory world memory.store).store.IsOpen := h
    obtain ⟨after, hbackup, hkept, hstill⟩ := backupIfDue_open hopen
    dsimp only
    rw [hbackup]
    exact ⟨rfl, hkept, hstill⟩

theorem upsert_eq (sample : Sample) :
    (Repository.upsert sample : Action SnapshotStore Unit) = Repository.batch [sample] := by
  have hupsert := perform_eq (.upsert sample)
  rw [Mutation.perform, Mutation.perform, MemoryStore.upsert_eq] at hupsert
  exact hupsert

theorem upsert_open (h : world.store.IsOpen) (sample : Sample) :
    match world.store.memory.applySample sample with
    | .ok memory => ∃ after, upsert sample world = (.ok (), after) ∧ after.store.memory = memory ∧
        after.store.IsOpen
    | .error failure => ∃ after, upsert sample world = (.error failure, after) ∧
        after.store.memory = world.store.memory := by
  have hmemory := perform_open h (.upsert sample)
  simp only [Mutation.perform, MemoryStore.upsert_eq, MemoryStore.batch_apply,
    MemoryStore.applySamples] at hmemory
  rcases hsample : upsert sample world with ⟨result, after⟩
  rw [hsample] at hmemory
  obtain ⟨hresult, hafter, hopen⟩ := hmemory
  cases happly : world.store.memory.applySample sample <;> rw [happly] at hresult hafter <;>
    cases hresult
  · exact ⟨after, rfl, hafter⟩
  · exact ⟨after, rfl, hafter, hopen⟩

theorem upsertAll_open (h : world.store.IsOpen) (samples : List Sample) :
    (upsertAll samples world).1 = (world.store.memory.applySamples samples).1 ∧
      (upsertAll samples world).2.store.memory = (world.store.memory.applySamples samples).2 := by
  induction samples generalizing world with
  | nil => exact ⟨rfl, rfl⟩
  | cons sample samples ih =>
    have hsample := upsert_open h sample
    rw [upsertAll, Action.bind_apply, MemoryStore.applySamples]
    cases happly : world.store.memory.applySample sample with
    | error failure =>
      rw [happly] at hsample
      obtain ⟨after, hrefused, hafter⟩ := hsample
      rw [hrefused]
      exact ⟨rfl, hafter⟩
    | ok memory =>
      rw [happly] at hsample
      obtain ⟨after, hdone, rfl, hopen⟩ := hsample
      rw [hdone]
      exact ih hopen

end SnapshotStore

/-! ### In a database -/

namespace SqlStore

variable {world : World SqlStore}

/-- The store is open and its table is in good order; it may be one that can only be read. -/
def IsTidy (store : SqlStore) : Prop := store.isOpen = true ∧ ∃ c, store.database.Shows c

/-- An entry of a batch is decided by the kind that is stored, a sample by the record that is found. -/
theorem upsert_eq (h : world.store.IsTidy) (sample : Sample) :
    Repository.upsert sample world = applyEntry sample world := by
  obtain ⟨hopen, c, htable⟩ := h
  rw [Repository.upsert, applyEntry, Action.bind_apply, Action.bind_apply, Action.ofResult_apply]
  cases sample.toRecord with
  | error failure => rfl
  | ok record =>
    have hkind : storedKind record.name world = (.ok ((c record.name).map Value.kind), world) :=
      query_apply (htable.selectKind record.name)
    simp only [Action.bind_apply, get_apply hopen htable, hkind, Contents.record?]
    cases c record.name with
    | none =>
      change (requireOpen .acquire >>= fun _ => upsertRecord record) world = upsertRecord record world
      rw [Action.bind_apply, requireOpen_apply hopen]
    | some stored =>
      change (if stored.kind ≠ record.kind then
          Action.fail (.kindMismatch record.name stored.kind record.kind)
        else requireOpen .acquire >>= fun _ => updateRow record.name record.value
          : Action SqlStore Unit) world = _
      simp only [Option.map_some]
      split
      · rfl
      · rw [Action.bind_apply, requireOpen_apply hopen]

theorem IsTidy.applyEntry (h : world.store.IsTidy) {sample : Sample} {after : World SqlStore}
    (hdone : applyEntry sample world = (.ok (), after)) : after.store.IsTidy := by
  obtain ⟨hopen, c, htable⟩ := h
  cases hreadOnly : world.store.readOnly with
  | true =>
    obtain ⟨failure, hrefused⟩ := refuses_applyEntry hreadOnly sample
    have hresult := (hrefused world.host).1
    cases (congrArg Prod.fst hdone).symm.trans hresult
  | false =>
    have hshows : world.store.Shows c := ⟨hopen, hreadOnly, htable⟩
    have hafter := (hshows.applyEntry sample).2
    rw [hdone] at hafter
    exact ⟨hafter.isOpen, _, hafter.table⟩

theorem upsertAll_eq (h : world.store.IsTidy) (samples : List Sample) :
    Repository.upsertAll samples world = applyEntries samples world := by
  induction samples generalizing world with
  | nil => rfl
  | cons sample samples ih =>
    rw [Repository.upsertAll, applyEntries, Action.bind_apply, Action.bind_apply, upsert_eq h]
    rcases hentry : SqlStore.applyEntry sample world with ⟨failure | ⟨⟨⟩⟩, after⟩
    · rfl
    · exact ih (h.applyEntry hentry)

/-- A batch is its samples one by one in a transaction. -/
theorem batch_eq (h : world.store.IsTidy) (samples : List Sample) :
    Repository.batch samples world = atomically (Repository.upsertAll samples) world := by
  change (requireOpen .begin >>= fun _ => atomically (applyEntries samples)) world = _
  rw [Action.bind_apply, requireOpen_apply h.1]
  dsimp only
  rw [atomically, atomically, upsertAll_eq h]

end SqlStore

/-! ### Of any kind -/

namespace Store

section PassesOn

variable {σ : Type} [Repository σ] {kind : σ → Store}

theorem PassesOn.upsert (h : PassesOn kind) (sample : Sample) (store : σ) (host : Host) :
    Repository.upsert sample ⟨kind store, host⟩ = embed kind (Repository.upsert sample ⟨store, host⟩) := by
  rw [Repository.upsert, Repository.upsert, Action.bind_apply, Action.bind_apply,
    Action.ofResult_apply, Action.ofResult_apply]
  cases sample.toRecord with
  | error failure => rfl
  | ok record =>
    simp only [Action.bind_apply, h.get]
    rcases (Repository.get record.name : Action σ (Option Record)) ⟨store, host⟩
      with ⟨failure | existing, after⟩
    · rfl
    · exact h.write record.name record.value existing after.store after.host

theorem PassesOn.upsertAll (h : PassesOn kind) (samples : List Sample) (store : σ) (host : Host) :
    Repository.upsertAll samples ⟨kind store, host⟩
      = embed kind (Repository.upsertAll samples ⟨store, host⟩) := by
  induction samples generalizing store host with
  | nil => rfl
  | cons sample samples ih =>
    rw [Repository.upsertAll, Repository.upsertAll, Action.bind_apply, Action.bind_apply, h.upsert]
    rcases (Repository.upsert sample : Action σ Unit) ⟨store, host⟩ with ⟨failure | ⟨⟨⟩⟩, after⟩
    · rfl
    · exact ih after.store after.host

end PassesOn

theorem inOrder_sql_iff {store : SqlStore} : (Store.sql store).InOrder ↔ store.IsTidy := by
  constructor
  · rintro ⟨hopen, records, htable, hdistinct, hadmits⟩
    exact ⟨hopen, _, ⟨records⟩, htable, ⟨hdistinct, rfl⟩, hadmits⟩
  · rintro ⟨hopen, c, memory, htable, hmemory, hadmits⟩
    exact ⟨hopen, memory.records, htable, hmemory.1, hadmits⟩

/-- What a batch leaves, if its samples one by one have this outcome. -/
def left (store : Store) : Except Failure Unit × World Store → Store
  | (.ok (), after) => after.store
  | (.error _, after) => if store.isTransactional then store else after.store

/-- A batch has the outcome of its samples one by one, which a database takes back if they fail. -/
theorem InOrder.batch {world : World Store} (h : world.store.InOrder) (samples : List Sample) :
    (Repository.batch samples world).1 = (Repository.upsertAll samples world).1 ∧
      (world.store.left (Repository.upsertAll samples world)).Keeps
        (Repository.batch samples world).2.store := by
  obtain ⟨store, host⟩ := world
  cases store with
  | memory part =>
    rw [memory_passesOn.batch, memory_passesOn.upsertAll, MemoryStore.batch_eq]
    rcases (Repository.upsertAll samples : Action MemoryStore Unit) ⟨part, host⟩
      with ⟨failure | ⟨⟨⟩⟩, after⟩ <;> exact ⟨rfl, rfl⟩
  | snapshot part =>
    have hopen : (World.mk part host).store.IsOpen := h.2
    obtain ⟨hone, hafter, -⟩ := SnapshotStore.perform_open hopen (.batch samples)
    obtain ⟨hall, hthen⟩ := SnapshotStore.upsertAll_open hopen samples
    rw [snapshot_passesOn.batch, snapshot_passesOn.upsertAll]
    have hresult := hone.trans hall.symm
    have hmemory := hafter.trans hthen.symm
    refine ⟨hresult, ?_⟩
    revert hmemory
    rcases (Repository.upsertAll samples : Action SnapshotStore Unit) ⟨part, host⟩
      with ⟨failure | ⟨⟨⟩⟩, after⟩ <;> exact id
  | sql part =>
    have htidy : (World.mk part host).store.IsTidy := inOrder_sql_iff.1 h
    rw [sql_passesOn.batch, sql_passesOn.upsertAll, SqlStore.batch_eq htidy, SqlStore.atomically]
    rcases (Repository.upsertAll samples : Action SqlStore Unit) ⟨part, host⟩
      with ⟨failure | ⟨⟨⟩⟩, after⟩ <;> exact ⟨rfl, rfl⟩

/-! ### What is kept in order -/

variable {store : Store} {world after : World Store} {failure : Failure}

theorem Refusing.upsert_refused {m : Medium} (kind : Refusing m) {c : Contents}
    (h : kind.Shows world.store c) {sample : Sample}
    (hrefused : Repository.upsert sample world = (.error failure, after)) :
    world.store.Keeps after.store := by
  rw [Repository.upsert, Action.bind_apply, Action.ofResult_apply] at hrefused
  cases hrecord : sample.toRecord with
  | error refusal =>
    rw [hrecord] at hrefused
    cases hrefused
    exact .refl world.store
  | ok record =>
    simp only [hrecord, Action.bind_apply, kind.get h] at hrefused
    exact kind.write_refused h (Sample.toRecord_ok hrecord).2.2.2 hrefused

/-- A store in order that can be written is one of which it is known what a refusal leaves behind, and
it stays in order. -/
theorem InOrder.refusing (h : store.InOrder) (hwritable : store.isReadOnly = false) :
    ∃ (m : Medium) (kind : Refusing m) (c : Contents), kind.Shows store c ∧
      ∀ after c, kind.Shows after c → after.InOrder := by
  cases store with
  | memory store =>
    refine ⟨_, .memory, _, ⟨store, rfl, h, rfl⟩, ?_⟩
    rintro _ c ⟨part, rfl, hpart⟩
    exact hpart.1
  | snapshot store =>
    refine ⟨_, .snapshot, _, ⟨store, rfl, ⟨h.1, rfl⟩, h.2⟩, ?_⟩
    rintro _ c ⟨part, rfl, hpart⟩
    exact ⟨hpart.1.1, hpart.2⟩
  | sql store =>
    obtain ⟨hopen, c, htable⟩ := inOrder_sql_iff.1 h
    refine ⟨_, .sql, c, ⟨store, rfl, hopen, hwritable, htable⟩, ?_⟩
    rintro _ c ⟨part, rfl, hpart⟩
    exact inOrder_sql_iff.2 ⟨hpart.isOpen, c, hpart.table⟩

theorem InOrder.upsert_refused (h : world.store.InOrder) {sample : Sample}
    (hrefused : Repository.upsert sample world = (.error failure, after)) :
    world.store.Keeps after.store := by
  cases hreadOnly : world.store.isReadOnly with
  | true =>
    obtain ⟨reason, hreason⟩ := (h.onlyReads hreadOnly).1.upsert sample
    have hstore := (hreason world.host).2
    rw [hrefused] at hstore
    change after.store = world.store at hstore
    rw [hstore]
    exact .refl world.store
  | false =>
    obtain ⟨m, kind, c, hshows, -⟩ := h.refusing hreadOnly
    exact kind.upsert_refused hshows hrefused

theorem InOrder.upsert (h : world.store.InOrder) (sample : Sample) :
    (Repository.upsert sample world).2.store.InOrder := by
  cases hreadOnly : world.store.isReadOnly with
  | true =>
    obtain ⟨reason, hreason⟩ := (h.onlyReads hreadOnly).1.upsert sample
    rw [(hreason world.host).2]
    exact h
  | false =>
    obtain ⟨m, kind, c, hshows, hkept⟩ := h.refusing hreadOnly
    exact hkept _ _ (kind.upsert hshows sample).2

theorem InOrder.upsertAll (h : world.store.InOrder) (samples : List Sample) :
    (Repository.upsertAll samples world).2.store.InOrder := by
  induction samples generalizing world with
  | nil => exact h
  | cons sample samples ih =>
    have hsample := h.upsert sample
    rw [Repository.upsertAll, Action.bind_apply]
    rcases hresult : Repository.upsert sample world with ⟨failure | ⟨⟨⟩⟩, after⟩ <;>
      rw [hresult] at hsample
    · exact hsample
    · exact ih hsample

/-! ### The whole batch -/

variable {moment : World Store}

theorem InOrder.get (h : world.store.InOrder) (name : String) :
    ∃ found, Repository.get name world = (.ok found, world) := by
  cases hreadOnly : world.store.isReadOnly with
  | false =>
    obtain ⟨m, kind, c, hshows, -⟩ := h.refusing hreadOnly
    exact ⟨_, kind.get hshows name⟩
  | true =>
    obtain ⟨store, host⟩ := world
    cases store with
    | memory store => cases hreadOnly
    | snapshot store => cases hreadOnly
    | sql store =>
      have htidy : (World.mk store host).store.IsTidy := inOrder_sql_iff.1 h
      obtain ⟨hopen, c, htable⟩ := htidy
      refine ⟨c.record? name, ?_⟩
      rw [sql_passesOn.get, SqlStore.get_apply hopen htable]
      rfl

/-- The samples are in order, and under each name there is afterwards what its entries come to. -/
def Written (samples : List Sample) (earlier later : World Store) : Prop :=
  ∃ records : List Record, samples.map Sample.toRecord = records.map .ok ∧ ∀ name, ∃ before after,
    Repository.get name earlier = (.ok before, earlier) ∧
    Repository.get name later = (.ok after, later) ∧ Accrues before (entriesOf name records) after

theorem InOrder.written (h : world.store.InOrder) {samples : List Sample}
    (hdone : Repository.upsertAll samples world = (.ok (), moment)) : Written samples world moment := by
  cases hreadOnly : world.store.isReadOnly with
  | true =>
    -- A store that only reads has written nothing but the empty list.
    cases samples with
    | nil =>
      cases hdone
      refine ⟨[], rfl, fun name => ?_⟩
      obtain ⟨found, hfound⟩ := h.get name
      exact ⟨found, found, hfound, hfound, rfl⟩
    | cons sample samples =>
      have hrefuses : (Repository.upsertAll (sample :: samples) : Action Store Unit).Refuses world.store :=
        ((h.onlyReads hreadOnly).1.upsert sample).first
      obtain ⟨failure, hfailure⟩ := hrefuses
      cases (congrArg Prod.fst hdone).symm.trans (hfailure world.host).1
  | false =>
    obtain ⟨m, kind, c, hshows, -⟩ := h.refusing hreadOnly
    obtain ⟨hresult, hafter⟩ := kind.upsertAll hshows samples
    rw [hdone] at hresult hafter
    have henter : c.enterAll m (samples.map Sample.toRecord)
        = (.ok (), (c.enterAll m (samples.map Sample.toRecord)).2) := Prod.ext hresult.symm rfl
    obtain ⟨records, hrecords⟩ := Contents.records_of_enterAll henter
    rw [hrecords] at henter hafter
    refine ⟨records, hrecords, fun name => ⟨_, _, kind.get hshows name, kind.get hafter name, ?_⟩⟩
    have hnone : Accrues (c.record? name) [] (c.record? name) := rfl
    exact hnone.enterAll henter

theorem Keeps.trans {first second third : Store} (h : first.Keeps second) (h' : second.Keeps third) :
    first.Keeps third :=
  match first, second, third, h, h' with
  | .memory _, .memory _, .memory _, h, h' => Eq.trans h' h
  | .snapshot _, .snapshot _, .snapshot _, h, h' => Eq.trans h' h
  | .sql _, .sql _, .sql _, h, h' => Eq.trans h' h

/-- The batch is done if all of its samples can be applied one after another, and leaves what they
leave. Otherwise it fails as the first sample fails that is refused, and leaves what the ones before it
have written, or nothing of it in a database. -/
def InTurn (samples : List Sample) (world : World Store) : Prop :=
  ∃ done rest moment, samples = done ++ rest ∧
    Repository.upsertAll done world = (.ok (), moment) ∧ Written done world moment ∧
    match rest with
    | [] => (Repository.batch samples world).1 = .ok () ∧
      moment.store.Keeps (Repository.batch samples world).2.store
    | entry :: _ => ∃ failure, (Repository.upsert entry moment).1 = .error failure ∧
      (Repository.batch samples world).1 = .error failure ∧
      (if world.store.isTransactional then world.store else moment.store).Keeps
        (Repository.batch samples world).2.store

/-- On every kind of store a batch does what its samples do in turn. -/
theorem batch_in_turn (h : world.store.InOrder) (samples : List Sample) : InTurn samples world := by
  obtain ⟨hresult, hkeeps⟩ := h.batch samples
  rcases Repository.upsertAll_cases samples world with ⟨moment, hdone⟩
    | ⟨done, entry, rest, moment, failure, after, rfl, hdone, hentry, hall⟩
  · rw [hdone] at hresult hkeeps
    exact ⟨samples, [], moment, (List.append_nil samples).symm, hdone, h.written hdone, hresult, hkeeps⟩
  · rw [hall] at hresult hkeeps
    refine ⟨done, entry :: rest, moment, rfl, hdone, h.written hdone, failure, ?_, hresult, ?_⟩
    · rw [hentry]
    · have hmoment : moment.store.InOrder := by
        have hafter := h.upsertAll done
        rw [hdone] at hafter
        exact hafter
      -- The refused sample itself has left nothing behind.
      have hrefused := hmoment.upsert_refused hentry
      unfold left at hkeeps
      dsimp only at hkeeps
      split at hkeeps
      · rename_i htransactional
        rw [if_pos htransactional]
        exact hkeeps
      · rename_i htransactional
        rw [if_neg htransactional]
        exact hrefused.trans hkeeps

/-- The second sample has the name of the first, and the third has a sum that overflows. -/
theorem batch_in_turn_overflow :
    let host : Host := ⟨[], Counters.empty, 0⟩
    let limit : Record := ⟨"a", .counter Int64.maxValue⟩
    let memory : World Store := ⟨.memory ⟨[limit]⟩, host⟩
    let sql : World Store := ⟨.sql ⟨⟨some [Row.ofRecord limit], none⟩, none, false, true⟩, host⟩
    let samples : List Sample :=
      [Sample.counter "b" 1, Sample.counter "b" 2, Sample.counter "a" 1, Sample.counter "c" 1]
    memory.store.InOrder ∧ InTurn samples memory ∧ sql.store.InOrder ∧ InTurn samples sql := by
  intro host limit memory sql samples
  have hdistinct : ([limit].map Record.name).Nodup := by decide
  have hmemory : memory.store.InOrder := hdistinct
  have hadmits : ∀ record ∈ [limit], Database.admits record.name = true := by decide
  have hsql : sql.store.InOrder := ⟨rfl, [limit], rfl, hdistinct, hadmits⟩
  exact ⟨hmemory, batch_in_turn hmemory samples, hsql, batch_in_turn hsql samples⟩

end Store

end Telemetry
