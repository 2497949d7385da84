import Telemetry.Proofs.Service.Update
import Telemetry.Proofs.Store.Balance
import Telemetry.Proofs.Store.Choice

/-!
# Accounting for updates

Along a run of updates every entry is accepted or refused. An update that is done has all its entries
accepted; of a batch that is refused, a store that keeps no transactions has accepted the entries
before the one that was refused. At every time the store holds exactly what the accepted entries come
to, and an entry that was in order is refused only for what the store holds then.
-/

namespace Telemetry

open Number

namespace Store

/-- Whether a batch that is refused is taken back. -/
def isTransactional : Store → Bool
  | .sql _ => true
  | _ => false

/-- The store is open and has no records; a table can be written, and a snapshot can be stored. -/
def Fresh : Store → Prop
  | .memory store => store = MemoryStore.empty
  | .snapshot store => store.memory = MemoryStore.empty ∧
    ∀ backup ∈ store.backup, backup.isOpen = true
  | .sql store => store.isOpen = true ∧ store.readOnly = false ∧ store.database.metrics = some []

/-- A kind of store of a server, of which it is known when it refuses a new name. -/
structure Backend (m : Medium) extends Repository.Faithful Store m where
  transactional {store : Store} {c : Contents} (h : Shows store c) :
    store.isTransactional = m.transactional
  refusal {store : Store} {c : Contents} (h : Shows store c) {name : String} {failure : Failure}
    (hrefusal : m.refusal name = some failure) : store.isTransactional = true ∧
      Database.admits name = false ∧ failure = DatabaseFault.nameLength.failure

namespace Backend

def memory : Backend .memory where
  toFaithful := memory_passesOn.faithful MemoryStore.faithful
  transactional := by
    rintro _ _ ⟨part, rfl, _⟩
    rfl
  refusal _ _ _ hrefusal := nomatch hrefusal

def snapshot : Backend .memory where
  toFaithful := snapshot_passesOn.faithful SnapshotStore.faithful
  transactional := by
    rintro _ _ ⟨part, rfl, _⟩
    rfl
  refusal _ _ _ hrefusal := nomatch hrefusal

def sql : Backend .table where
  toFaithful := sql_passesOn.faithful SqlStore.faithful
  transactional := by
    rintro _ _ ⟨part, rfl, _⟩
    rfl
  refusal := by
    rintro _ _ ⟨part, rfl, _⟩ name failure hrefusal
    simp only [Medium.table] at hrefusal
    split at hrefusal
    · cases hrefusal
    · rename_i hadmits
      exact ⟨rfl, Bool.eq_false_iff.2 hadmits, (Option.some.inj hrefusal).symm⟩

end Backend

theorem Fresh.shows {store : Store} (h : store.Fresh) :
    ∃ (m : Medium) (backend : Backend m), backend.Shows store Contents.empty := by
  have hempty : MemoryStore.empty.Shows Contents.empty := ⟨List.nodup_nil, rfl⟩
  cases store with
  | memory store =>
    cases h
    exact ⟨_, .memory, _, rfl, hempty⟩
  | snapshot store =>
    obtain ⟨memory, backup⟩ := store
    obtain ⟨rfl, hopen⟩ := h
    exact ⟨_, .snapshot, _, rfl, hempty, hopen⟩
  | sql store =>
    obtain ⟨hopen, hwritable, hmetrics⟩ := h
    exact ⟨_, .sql, _, rfl, hopen, hwritable, MemoryStore.empty, hmetrics, hempty, nofun⟩

end Store

namespace Service.Update

/-- How many samples of a batch come before the first one that a store refuses. -/
def settled {σ : Type} [Repository σ] (world : World σ) : List Sample → Nat
  | [] => 0
  | sample :: samples => match Repository.batch [sample] world with
    | (.ok (), after) => settled after samples + 1
    | (.error _, _) => 0

def accepted (update : Update) (world : World Store) : List Record :=
  match update.records with
  | .error _ => []
  | .ok records => match (update.perform world).1, update with
    | .ok _, _ => records
    | .error _, .batch samples =>
      if world.store.isTransactional then [] else records.take (settled world samples)
    | .error _, _ => []

/-- The world after updates, whatever they were answered. -/
def run : List Update → World Store → World Store
  | [], world => world
  | update :: updates, world => run updates (update.perform world).2

/-- The entries that are accepted along a run, in their order. -/
def log : List Update → World Store → List Record
  | [], _ => []
  | update :: updates, world => update.accepted world ++ log updates (update.perform world).2

/-- The store can be read, has a record exactly for the names that have entries, each under its own
name, and each record is what the entries of its name come to. -/
structure Accounted (entries : List Record) (world : World Store) : Prop where
  stored (name : String) : ∃ record?, Repository.get name world = (.ok record?, world) ∧
    match record? with
    | none => entriesOf name entries = []
    | some record => record.name = name ∧ record.Balances (entriesOf name entries)
  listed : ∃ records, Repository.getAll world = (.ok records, world) ∧
    (records.map Record.name).Nodup ∧
    ∀ record, record ∈ records ↔ Repository.get record.name world = (.ok (some record), world)

/-- Every metric is kept, and keeps its kind. -/
def Persists (earlier later : World Store) : Prop :=
  ∀ name record, Repository.get name earlier = (.ok (some record), earlier) →
    ∃ record', Repository.get name later = (.ok (some record'), later) ∧ record'.kind = record.kind

/-- The store cannot accept an entry: a metric of another kind is stored, or the exact sum is no
signed 64-bit integer, or a table does not admit the name of a new metric. -/
inductive Conflicts (world : World Store) (entry : Record) : Failure → Prop where
  | kind (stored : Record)
    (hstored : Repository.get entry.name world = (.ok (some stored), world))
    (hkind : stored.kind ≠ entry.kind) :
    Conflicts world entry (.kindMismatch entry.name stored.kind entry.kind)
  | sum (n delta : Int64)
    (hstored : Repository.get entry.name world = (.ok (some ⟨entry.name, .counter n⟩), world))
    (hvalue : entry.value = .counter delta)
    (hsum : ¬ (-0x8000000000000000 ≤ n.toInt + delta.toInt ∧
      n.toInt + delta.toInt < 0x8000000000000000)) :
    Conflicts world entry (.counterOverflow entry.name)
  | name (hsql : world.store.isTransactional = true)
    (habsent : Repository.get entry.name world = (.ok none, world))
    (hname : Database.admits entry.name = false) :
    Conflicts world entry DatabaseFault.nameLength.failure

/-- An update that was in order and is refused has an entry that the store cannot accept after the
entries before it, which are those that were accepted unless they are taken back. -/
def RefusedFor (update : Update) (world : World Store) : Prop :=
  ∀ records failure, update.records = .ok records → (update.perform world).1 = .error failure →
    ∃ done entry rest moment, records = done ++ entry :: rest ∧
      Repository.batch (done.map Sample.ofRecord) world = (.ok (), moment) ∧
      Conflicts moment entry failure ∧
      update.accepted world = if world.store.isTransactional then [] else done

theorem run_append (earlier later : List Update) (world : World Store) :
    run (earlier ++ later) world = run later (run earlier world) := by
  induction earlier generalizing world with
  | nil => rfl
  | cons update earlier ih => exact ih _

/-! ### One update -/

variable {m : Medium} (backend : Store.Backend m) {world : World Store} {c : Contents}

theorem conflicts_of_next (h : backend.Shows world.store c) {entry : Record} {failure : Failure}
    (hnext : m.next entry (c entry.name) = .error failure) : Conflicts world entry failure := by
  have hget := backend.get h entry.name
  unfold Contents.record? at hget
  cases hstored : c entry.name with
  | none =>
    rw [hstored] at hnext hget
    obtain ⟨hsql, hname, rfl⟩ := backend.refusal h (Medium.next_none_error hnext)
    exact .name hsql hget hname
  | some stored =>
    rw [hstored] at hnext hget
    rcases Medium.next_error hnext with ⟨hkind, rfl⟩ | ⟨n, delta, rfl, hvalue, hsum, rfl⟩
    · exact .kind ⟨entry.name, stored⟩ hget hkind
    · refine .sum n delta hget hvalue fun hfits => ?_
      rw [fitsInt64_iff.2 hfits] at hsum
      cases hsum

theorem toRecord_ofRecord {record : Record} (hname : record.name ≠ "")
    (hfinite : record.value.isFinite = true) : (Sample.ofRecord record).toRecord = .ok record := by
  obtain ⟨name, value⟩ := record
  cases value with
  | counter n => exact if_neg hname
  | gauge x =>
    have hgauge : finiteGauge x = .ok x := if_pos hfinite
    have hcontent : (Sample.ofRecord ⟨name, .gauge x⟩).content = .ok (.gauge x) := by
      change (finiteGauge x).map Value.gauge = _
      rw [hgauge]
      rfl
    rw [Sample.toRecord, hcontent]
    exact if_neg hname

theorem map_toRecord_ofRecord {records : List Record}
    (hrecords : ∀ record ∈ records, record.name ≠ "" ∧ record.value.isFinite = true) :
    (records.map Sample.ofRecord).map Sample.toRecord = records.map .ok := by
  rw [List.map_map]
  apply List.map_congr_left
  intro record hmem
  exact toRecord_ofRecord (hrecords record hmem).1 (hrecords record hmem).2

theorem batch_ofRecords (h : backend.Shows world.store c) {records : List Record} {after : Contents}
    (hrecords : ∀ record ∈ records, record.name ≠ "" ∧ record.value.isFinite = true)
    (henter : c.enterAll m (records.map .ok) = (.ok (), after)) :
    ∃ moment, Repository.batch (records.map Sample.ofRecord) world = (.ok (), moment) ∧
      backend.Shows moment.store after := by
  have hbatch := backend.batch h (records.map Sample.ofRecord)
  rw [map_toRecord_ofRecord hrecords, Contents.enterBatch, henter] at hbatch
  rcases hbatch.cases with ⟨moment, c', hdone, hafter, hshows⟩ | ⟨_, _, _, _, hafter, _⟩
  · cases hafter
    exact ⟨moment, hdone, hshows⟩
  · cases hafter

theorem enterAll_of_batch (h : backend.Shows world.store c) {records : List Record}
    {moment : World Store}
    (hrecords : ∀ record ∈ records, record.name ≠ "" ∧ record.value.isFinite = true)
    (hbatch : Repository.batch (records.map Sample.ofRecord) world = (.ok (), moment)) :
    ∃ after, c.enterAll m (records.map .ok) = (.ok (), after) ∧
      backend.Shows moment.store after := by
  obtain ⟨hresult, hshows⟩ := backend.batch h (records.map Sample.ofRecord)
  rw [map_toRecord_ofRecord hrecords, hbatch, Contents.enterBatch] at hresult hshows
  rcases henter : c.enterAll m (records.map .ok) with ⟨failure | ⟨⟨⟩⟩, after⟩ <;>
    rw [henter] at hresult hshows
  · cases hresult
  · exact ⟨after, rfl, hshows⟩

theorem settled_eq (h : backend.Shows world.store c) {samples : List Sample}
    {done rest : List Record} {entry : Record} {after : Contents} {failure : Failure}
    (hsamples : samples.map Sample.toRecord = (done ++ entry :: rest).map .ok)
    (henter : c.enterAll m (done.map .ok) = (.ok (), after))
    (hnext : m.next entry (after entry.name) = .error failure) :
    settled world samples = done.length := by
  induction done generalizing world c samples with
  | nil =>
    cases henter
    obtain ⟨sample, others, rfl, hsample, _⟩ := List.map_eq_cons_iff.1 hsamples
    have hbatch := backend.batch h [sample]
    rw [List.map_singleton, hsample, Contents.enterBatch_singleton, Contents.enter,
      Contents.write, hnext] at hbatch
    rcases hbatch.cases with ⟨_, _, _, hrefused, _⟩ | ⟨_, _, _, hrefused, _, _⟩
    · cases hrefused
    · simp only [settled, hrefused]
      rfl
  | cons first done ih =>
    obtain ⟨sample, others, rfl, hsample, hothers⟩ := List.map_eq_cons_iff.1 hsamples
    have hbatch := backend.batch h [sample]
    rw [List.map_singleton, hsample, Contents.enterBatch_singleton] at hbatch
    simp only [List.map_cons, Contents.enterAll] at henter
    rcases hfirst : c.enter m (.ok first) with ⟨refused | ⟨⟨⟩⟩, middle⟩ <;> rw [hfirst] at henter hbatch
    · cases henter
    · rcases hbatch.cases with ⟨moment, _, hdone, hmiddle, hshows⟩ | ⟨_, _, _, _, hmiddle, _⟩
      · cases hmiddle
        simp only [settled, hdone, ih hshows hothers henter]
        rfl
      · cases hmiddle

theorem accepted_of_refused (h : backend.Shows world.store c) {update : Update}
    {done rest : List Record} {entry : Record} {after : Contents} {failure reported : Failure}
    (hrecords : update.records = .ok (done ++ entry :: rest))
    (henter : c.enterAll m (done.map .ok) = (.ok (), after))
    (hnext : m.next entry (after entry.name) = .error failure)
    (hrefused : (update.perform world).1 = .error reported) :
    update.accepted world = if world.store.isTransactional then [] else done := by
  have hsingle {record : Record} (hone : done ++ entry :: rest = [record]) : done = [] := by
    cases done with
    | nil => rfl
    | cons first done => simp at hone
  rw [accepted, hrecords, hrefused]
  cases update with
  | one sample =>
    obtain ⟨record, _, hone⟩ := records_one_ok hrecords
    simp [hsingle hone]
  | text kind name raw =>
    obtain ⟨record, _, hone⟩ := records_text_ok hrecords
    simp [hsingle hone]
  | batch samples =>
    have hsettled := settled_eq backend h (records_batch_ok hrecords).2 henter hnext
    simp [hsettled]

/-- One update keeps the account: the store holds what the entries before and those it accepts come
to, and if it was in order and is refused it is refused for a conflict. -/
theorem perform_accounts {entries : List Record} (h : backend.Shows world.store c)
    (hbalances : c.Balances entries) (update : Update) :
    RefusedFor update world ∧ ∃ after, backend.Shows (update.perform world).2.store after ∧
      after.Balances (entries ++ update.accepted world) := by
  obtain ⟨hresult, hshows⟩ := performs backend.toFaithful h update
  unfold effect at hresult hshows
  cases hrecords : update.records with
  | error failure =>
    have haccepted : update.accepted world = [] := by rw [accepted, hrecords]
    rw [hrecords] at hshows
    rw [haccepted, List.append_nil]
    refine ⟨fun records _ hok => ?_, c, hshows, hbalances⟩
    rw [hrecords] at hok
    cases hok
  | ok records =>
    have hwellFormed := records_wellFormed hrecords
    simp only [hrecords, Contents.enterBatch] at hresult hshows
    rcases henter : c.enterAll m (records.map .ok) with ⟨failure | ⟨⟨⟩⟩, after⟩ <;>
      rw [henter] at hresult hshows
    -- The entries before the refused one were written; a transactional store takes them back.
    · obtain ⟨done, entry, rest, rfl, hdone, hnext⟩ := Contents.enterAll_error henter
      have hwritten : ∀ record ∈ done, record.name ≠ "" ∧ record.value.isFinite = true :=
        fun record hmem => hwellFormed record (List.mem_append_left _ hmem)
      have haccepted := accepted_of_refused backend h hrecords hdone hnext hresult
      constructor
      · intro records reported hok hrefused
        rw [hrecords] at hok
        cases hok
        rw [hresult] at hrefused
        cases hrefused
        obtain ⟨moment, hmoment, hthen⟩ := batch_ofRecords backend h hwritten hdone
        exact ⟨done, entry, rest, moment, rfl, hmoment, conflicts_of_next backend hthen hnext,
          haccepted⟩
      · refine ⟨_, hshows, ?_⟩
        rw [haccepted, backend.transactional h]
        cases m.transactional with
        | true =>
          simp only [if_true, List.append_nil]
          exact hbalances
        | false =>
          simp only [Bool.false_eq_true, if_false]
          exact hbalances.enterAll hwritten hdone
    · have haccepted : update.accepted world = records := by rw [accepted, hrecords, hresult]; rfl
      refine ⟨fun _ failure _ hrefused => ?_, after, hshows, ?_⟩
      · rw [hresult] at hrefused
        cases hrefused
      · rw [haccepted]
        exact hbalances.enterAll hwellFormed henter

theorem accounted_of_balances {entries : List Record} (h : backend.Shows world.store c)
    (hbalances : c.Balances entries) : Accounted entries world := by
  constructor
  · intro name
    refine ⟨c.record? name, backend.get h name, ?_⟩
    have hname := hbalances name
    cases hrecord : c.record? name with
    | none =>
      rw [hrecord] at hname
      exact hname
    | some record =>
      rw [hrecord] at hname
      obtain ⟨value, _, rfl⟩ := Option.map_eq_some_iff.1 hrecord
      exact ⟨rfl, hname⟩
  · obtain ⟨records, hgetAll, hlists⟩ := backend.getAll h
    refine ⟨records, hgetAll, hlists.1, fun record => ?_⟩
    obtain ⟨name, stored⟩ := record
    rw [hlists.2, backend.get h, Contents.record?]
    cases c name <;> simp

/-! ### Runs of updates -/

theorem log_append (earlier later : List Update) (world : World Store) :
    log (earlier ++ later) world = log earlier world ++ log later (run earlier world) := by
  induction earlier generalizing world with
  | nil => rfl
  | cons update earlier ih =>
    rw [List.cons_append, log, log, run, ih, List.append_assoc]

theorem run_accounts {entries : List Record} (h : backend.Shows world.store c)
    (hbalances : c.Balances entries) (updates : List Update) :
    ∃ after, backend.Shows (run updates world).store after ∧
      after.Balances (entries ++ log updates world) := by
  induction updates generalizing world c entries with
  | nil => exact ⟨c, h, by rw [log, List.append_nil]; exact hbalances⟩
  | cons update updates ih =>
    obtain ⟨_, middle, hmiddle, hbalances⟩ := perform_accounts backend h hbalances update
    obtain ⟨after, hafter, hbalances⟩ := ih hmiddle hbalances
    rw [List.append_assoc] at hbalances
    exact ⟨after, hafter, hbalances⟩

theorem Accounted.persists {earlier later : World Store} {entries more : List Record}
    (hearlier : Accounted entries earlier) (hlater : Accounted (entries ++ more) later) :
    Persists earlier later := by
  intro name record hget
  obtain ⟨before, hbefore, hentries⟩ := hearlier.stored name
  obtain ⟨after, hafter, hmore⟩ := hlater.stored name
  rw [hget] at hbefore
  cases hbefore
  rw [entriesOf_append] at hmore
  have hfirst := hentries.2.first
  cases hold : entriesOf name entries with
  | nil => simp [hold] at hfirst
  | cons first rest =>
    rw [hold] at hmore hfirst
    cases after with
    | none => cases hmore
    | some record' =>
      refine ⟨record', hafter, ?_⟩
      have hthen := hmore.2.first
      rw [List.cons_append, List.head?_cons, Option.map_some] at hthen
      rw [List.head?_cons, Option.map_some] at hfirst
      exact Option.some.inj (hthen.symm.trans hfirst)

/-- After any updates of a store that was empty, it holds what the accepted entries come to; no metric
that was stored at any time has gone or changed its kind; and every update that was refused although
it was in order was refused for a conflict with the metrics that were stored then. -/
theorem updates_accounted (hfresh : world.store.Fresh) (updates : List Update) :
    Accounted (log updates world) (run updates world) ∧
    (∀ earlier later, updates = earlier ++ later →
      Persists (run earlier world) (run updates world)) ∧
    ∀ earlier update later, updates = earlier ++ update :: later →
      RefusedFor update (run earlier world) := by
  obtain ⟨m, backend, hshows⟩ := hfresh.shows
  have haccounts (updates : List Update) : ∃ after,
      backend.Shows (run updates world).store after ∧ after.Balances (log updates world) := by
    have h := run_accounts backend hshows Contents.balances_empty updates
    rwa [List.nil_append] at h
  have haccounted (updates : List Update) : Accounted (log updates world) (run updates world) := by
    obtain ⟨after, hafter, hbalances⟩ := haccounts updates
    exact accounted_of_balances backend hafter hbalances
  refine ⟨haccounted updates, ?_, ?_⟩
  · rintro earlier later rfl
    have hlater := haccounted (earlier ++ later)
    rw [log_append] at hlater
    exact (haccounted earlier).persists hlater
  · rintro earlier update later rfl
    obtain ⟨after, hafter, hbalances⟩ := haccounts earlier
    exact (perform_accounts backend hafter hbalances update).1

/-- A sum that would overflow refuses the batch; the entry before it is accepted by a memory and taken
back by a database. -/
theorem updates_accounted_overflow :
    let host : Host := ⟨[], Counters.empty, 0⟩
    let memory : World Store := ⟨.memory MemoryStore.empty, host⟩
    let sql : World Store := ⟨.sql ⟨⟨some [], none⟩, none, false, true⟩, host⟩
    let updates : List Update :=
      [.one (Sample.counter "a" Int64.maxValue),
        .batch [Sample.counter "b" 1, Sample.counter "a" 1]]
    memory.store.Fresh ∧ sql.store.Fresh ∧
      Accounted [⟨"a", .counter Int64.maxValue⟩, ⟨"b", .counter 1⟩] (run updates memory) ∧
      Accounted [⟨"a", .counter Int64.maxValue⟩] (run updates sql) := by
  intro host memory sql updates
  have hmemory : memory.store.Fresh := rfl
  have hsql : sql.store.Fresh := ⟨rfl, rfl, rfl⟩
  exact ⟨hmemory, hsql, (updates_accounted hmemory updates).1, (updates_accounted hsql updates).1⟩

end Service.Update

end Telemetry
