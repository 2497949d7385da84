import Telemetry.Proofs.Store.Contents
import Telemetry.Service.Metrics

/-!
# What an update does to a store

There are three forms of update: a sample, a value given as text, and a batch. Each is first read
and checked, which gives the records to write or a failure, and then written; a refusal at the first
step does not reach the store. On every faithful repository an update therefore does what writing its
records to the contents does, as a batch.
-/

namespace Telemetry

namespace Action

variable {σ α β γ : Type}

theorem bind_assoc (action : Action σ α) (next : α → Action σ β) (last : β → Action σ γ) :
    (action >>= next >>= last) = action >>= fun a => next a >>= last := by
  funext world
  simp only [bind_apply]
  rcases action world with ⟨failure | a, after⟩ <;> rfl

theorem bind_pure_apply (action : Action σ α) (f : α → β) (world : World σ) :
    (action >>= fun a => pure (f a)) world = ((action world).1.map f, (action world).2) := by
  rw [bind_apply]
  rcases action world with ⟨failure | a, after⟩ <;> rfl

theorem bind_pure_unit (action : Action σ Unit) : (action >>= fun _ => pure ()) = action := by
  funext world
  rw [bind_apply]
  rcases action world with ⟨failure | done, after⟩ <;> rfl

theorem ofResult_ok_bind (a : α) (next : α → Action σ β) : (ofResult (.ok a) >>= next) = next a :=
  rfl

theorem ofResult_bind (result : Except Failure α) (next : α → Except Failure β) :
    (ofResult (result >>= next) : Action σ β) = ofResult result >>= fun a => ofResult (next a) := by
  cases result <;> rfl

theorem bind_congr {action : Action σ α} {next next' : α → Action σ β} (h : ∀ a, next a = next' a) :
    (action >>= next) = action >>= next' := by
  rw [funext h]

end Action

theorem Contents.enterBatch_singleton (m : Medium) (c : Contents) (entry : Except Failure Record) :
    c.enterBatch m [entry] = c.enter m entry := by
  unfold enterBatch enterAll
  rcases henter : c.enter m entry with ⟨failure | ⟨⟨⟩⟩, after⟩
  · have hsame := Contents.enter_error henter
    simp [hsame]
  · rfl

theorem Value.read_ok {kind : Kind} {raw : String} {value : Value}
    (h : Value.read kind raw = .ok value) : value.kind = kind ∧ value.isFinite = true := by
  cases kind with
  | counter =>
    simp only [Value.read] at h
    split at h
    · cases h
      exact ⟨rfl, rfl⟩
    · cases h
  | gauge =>
    simp only [Value.read] at h
    split at h
    · rename_i x _
      unfold finiteGauge at h
      split at h
      · rename_i hfinite
        cases h
        exact ⟨rfl, hfinite⟩
      · cases h
    · cases h

namespace Service

inductive Answer where
  | done
  | shown (sample : Sample)
  | text (text : String)
deriving DecidableEq

inductive Update where
  | one (sample : Sample)
  | text (kind name raw : String)
  | batch (samples : List Sample)

namespace Update

def perform {σ : Type} [Repository σ] : Update → Action σ Answer
  | .one sample => do
    let shown ← applySample sample
    pure (.shown shown)
  | .text kind name raw => do
    applyText kind name raw
    pure .done
  | .batch samples => do
    applyBatch samples
    pure .done

def showStored {σ : Type} [Repository σ] (name : String) : Action σ Answer := do
  match ← Repository.get name with
  | some stored => pure (.shown (Sample.ofRecord stored))
  | none => Action.fail (.metricNotFound name)

/-- What follows the write of one record. -/
def conclude {σ : Type} [Repository σ] (name : String) (kind : Kind) (shows : Bool) :
    Action σ Answer := do
  countUpdate kind
  if shows then showStored name else pure .done

/-- Writes one record to the metric that is found under its name, or as a new one. -/
def performRecord {σ : Type} [Repository σ] (record : Except Failure Record) (shows : Bool) :
    Action σ Answer := do
  let record ← Action.ofResult record
  let existing ← Repository.get record.name
  Repository.write record.name record.value existing
  conclude record.name record.kind shows

def recordOfSample (sample : Sample) : Except Failure Record := do
  requireName sample.id
  sample.toRecord

def recordOfText (kind name raw : String) : Except Failure Record := do
  let kind ← Kind.ofName kind
  requireName name
  requireName raw
  let value ← Value.read kind raw
  pure ⟨name, value⟩

/-- The records that the update writes, if it is in order. -/
def records : Update → Except Failure (List Record)
  | .one sample => do
    let record ← recordOfSample sample
    pure [record]
  | .text kind name raw => do
    let record ← recordOfText kind name raw
    pure [record]
  | .batch samples => do
    checkBatch samples
    samples.mapM Sample.toRecord

def effect (m : Medium) (c : Contents) (update : Update) : Except Failure Unit × Contents :=
  match update.records with
  | .error failure => (.error failure, c)
  | .ok records => c.enterBatch m (records.map .ok)

def shown (c : Contents) (name : String) : Answer :=
  match c.record? name with
  | some record => .shown (Sample.ofRecord record)
  | none => .done

/-- The answer to the update when it is done and the store has these contents. -/
def answer (c : Contents) : Update → Answer
  | .one sample => shown c sample.id
  | _ => .done

/-! ### The records are those of the samples -/

theorem requireName_ok {name : String} (h : requireName name = .ok ()) : name ≠ "" := by
  unfold requireName at h
  split at h
  · cases h
  · assumption

theorem bind_ok {ε α β : Type} {first : Except ε α} {next : α → Except ε β} {b : β}
    (h : (first >>= next) = .ok b) : ∃ a, first = .ok a ∧ next a = .ok b := by
  cases first with
  | error failure => cases h
  | ok a => exact ⟨a, rfl, h⟩

theorem recordOfSample_ok {sample : Sample} {record : Record}
    (h : recordOfSample sample = .ok record) : sample.toRecord = .ok record := by
  obtain ⟨_, _, h⟩ := bind_ok h
  exact h

theorem recordOfText_ok {kind name raw : String} {record : Record}
    (h : recordOfText kind name raw = .ok record) :
    record.name = name ∧ name ≠ "" ∧ record.value.isFinite = true := by
  obtain ⟨kind, _, h⟩ := bind_ok h
  obtain ⟨_, hname, h⟩ := bind_ok h
  obtain ⟨_, _, h⟩ := bind_ok h
  obtain ⟨value, hvalue, h⟩ := bind_ok h
  cases h
  exact ⟨rfl, requireName_ok hname, (Value.read_ok hvalue).2⟩

theorem perform_one {σ : Type} [Repository σ] (sample : Sample) :
    ((one sample).perform : Action σ Answer) = performRecord (recordOfSample sample) true := by
  simp only [perform, applySample, performRecord, recordOfSample, Repository.upsert,
    Action.ofResult_bind, Action.bind_assoc]
  refine Action.bind_congr fun _ => ?_
  cases hrecord : sample.toRecord with
  | error failure => rfl
  | ok record =>
    obtain ⟨hname, _, hkind, _⟩ := Sample.toRecord_ok hrecord
    simp only [Action.ofResult_ok_bind, ← hname, ← hkind]
    refine Action.bind_congr fun _ => Action.bind_congr fun _ => Action.bind_congr fun _ => ?_
    refine Action.bind_congr fun stored => ?_
    cases stored <;> rfl

/-- A value given as text is read first; then its record is written and counted. -/
theorem applyText_eq {σ : Type} [Repository σ] (kind name raw : String) :
    (applyText kind name raw : Action σ Unit) = (do
      let record ← Action.ofResult (recordOfText kind name raw)
      let existing ← Repository.get record.name
      Repository.write record.name record.value existing
      countUpdate record.kind) := by
  simp only [applyText, recordOfText, Action.ofResult_bind, Action.bind_assoc]
  refine Action.bind_congr fun kind => Action.bind_congr fun _ => Action.bind_congr fun _ => ?_
  cases hvalue : Value.read kind raw with
  | error failure => rfl
  | ok value =>
    have hkind : (⟨name, value⟩ : Record).kind = kind := (Value.read_ok hvalue).1
    rw [← hkind]
    rfl

theorem perform_text {σ : Type} [Repository σ] (kind name raw : String) :
    ((text kind name raw).perform : Action σ Answer)
      = performRecord (recordOfText kind name raw) false := by
  simp only [perform, applyText_eq, performRecord, Action.bind_assoc]
  rfl

/-- A batch that is in order describes records, and the store reads them from the same samples. -/
theorem checkBatch_ok {samples : List Sample} (h : checkBatch samples = .ok ()) :
    ∃ records, samples.mapM Sample.toRecord = .ok records ∧
      samples.map Sample.toRecord = records.map .ok := by
  induction samples with
  | nil => exact ⟨[], rfl, rfl⟩
  | cons sample samples ih =>
    unfold checkBatch at h
    cases hname : requireName sample.id with
    | error failure => simp [hname] at h
    | ok done =>
      cases hrecord : sample.toRecord with
      | error failure => simp [hname, Sample.validate, hrecord, Except.map] at h
      | ok record =>
        simp only [hname, Sample.validate, hrecord, Except.map] at h
        obtain ⟨records, hmapM, hmap⟩ := ih h
        refine ⟨record :: records, ?_, ?_⟩
        · rw [List.mapM_cons, hrecord, hmapM]
          rfl
        · rw [List.map_cons, hrecord, hmap, List.map_cons]

theorem records_one_ok {sample : Sample} {records : List Record}
    (h : (one sample).records = .ok records) :
    ∃ record, recordOfSample sample = .ok record ∧ records = [record] := by
  obtain ⟨record, hrecord, h⟩ := bind_ok h
  exact ⟨record, hrecord, (Except.ok.inj h).symm⟩

theorem records_text_ok {kind name raw : String} {records : List Record}
    (h : (text kind name raw).records = .ok records) :
    ∃ record, recordOfText kind name raw = .ok record ∧ records = [record] := by
  obtain ⟨record, hrecord, h⟩ := bind_ok h
  exact ⟨record, hrecord, (Except.ok.inj h).symm⟩

theorem records_batch_ok {samples : List Sample} {records : List Record}
    (h : (batch samples).records = .ok records) :
    checkBatch samples = .ok () ∧ samples.map Sample.toRecord = records.map .ok := by
  obtain ⟨_, hcheck, hread⟩ := bind_ok h
  obtain ⟨described, hmapM, hmap⟩ := checkBatch_ok hcheck
  rw [hmapM] at hread
  cases hread
  exact ⟨hcheck, hmap⟩

theorem records_wellFormed {update : Update} {records : List Record}
    (h : update.records = .ok records) :
    ∀ record ∈ records, record.name ≠ "" ∧ record.value.isFinite = true := by
  cases update with
  | one sample =>
    obtain ⟨record, hrecord, rfl⟩ := records_one_ok h
    obtain ⟨_, hne, _, hfinite⟩ := Sample.toRecord_ok (recordOfSample_ok hrecord)
    simpa using ⟨hne, hfinite⟩
  | text kind name raw =>
    obtain ⟨record, hrecord, rfl⟩ := records_text_ok h
    obtain ⟨hname, hne, hfinite⟩ := recordOfText_ok hrecord
    simpa [hname] using ⟨hne, hfinite⟩
  | batch samples =>
    intro record hmem
    have hentry : (.ok record : Except Failure Record) ∈ samples.map Sample.toRecord :=
      (records_batch_ok h).2 ▸ List.mem_map_of_mem hmem
    obtain ⟨sample, _, hrecord⟩ := List.mem_map.1 hentry
    obtain ⟨_, hne, _, hfinite⟩ := Sample.toRecord_ok hrecord
    exact ⟨hne, hfinite⟩

theorem effect_one (m : Medium) (c : Contents) (sample : Sample) :
    (one sample).effect m c = match recordOfSample sample with
      | .error failure => (.error failure, c)
      | .ok record => c.write m record := by
  simp only [effect, records]
  cases recordOfSample sample with
  | error failure => rfl
  | ok record => exact c.enterBatch_singleton m (.ok record)

theorem effect_text (m : Medium) (c : Contents) (kind name raw : String) :
    (text kind name raw).effect m c = match recordOfText kind name raw with
      | .error failure => (.error failure, c)
      | .ok record => c.write m record := by
  simp only [effect, records]
  cases recordOfText kind name raw with
  | error failure => rfl
  | ok record => exact c.enterBatch_singleton m (.ok record)

theorem effect_batch (m : Medium) (c : Contents) (samples : List Sample) :
    (batch samples).effect m c = match checkBatch samples with
      | .error failure => (.error failure, c)
      | .ok () => c.enterBatch m (samples.map Sample.toRecord) := by
  simp only [effect, records]
  cases hcheck : checkBatch samples with
  | error failure => rfl
  | ok done =>
    obtain ⟨described, hmapM, hmap⟩ := checkBatch_ok hcheck
    rw [hmap, hmapM]
    rfl

/-! ### Updates of a faithful repository -/

variable {σ : Type} [Repository σ] {m : Medium} (faithful : Repository.Faithful σ m)
  {world : World σ} {c : Contents}

theorem write_settles (h : faithful.Shows world.store c) {record : Record}
    (hfinite : record.value.isFinite = true) :
    Settles faithful.Shows ((do
      let existing ← Repository.get record.name
      Repository.write record.name record.value existing : Action σ Unit) world)
      (c.write m record) := by
  rw [Action.bind_apply, faithful.get h]
  exact faithful.write h record hfinite

theorem conclude_apply (h : faithful.Shows world.store c) {name : String} {value : Value}
    (hstored : c name = some value) (kind : Kind) (shows : Bool) :
    conclude name kind shows world
      = (.ok (if shows then shown c name else .done), world.count (.updated kind) 1) := by
  have hget : Repository.get name (world.count (.updated kind) 1)
      = (.ok (c.record? name), world.count (.updated kind) 1) :=
    faithful.get (w := world.count (.updated kind) 1) h name
  cases shows with
  | false => rfl
  | true =>
    change showStored name (world.count (.updated kind) 1) = _
    unfold showStored shown
    rw [Action.bind_apply, hget, Contents.record?, hstored]
    rfl

omit faithful in
theorem performRecord_eq (record : Record) (shows : Bool) :
    (performRecord (.ok record) shows : Action σ Answer) = (do
      let existing ← Repository.get record.name
      Repository.write record.name record.value existing) >>= fun _ =>
        conclude record.name record.kind shows := (Action.bind_assoc _ _ _).symm

theorem performRecord_settles (h : faithful.Shows world.store c) {record : Record}
    (hfinite : record.value.isFinite = true) (shows : Bool) :
    (performRecord (.ok record) shows world).1 = (c.write m record).1.map (fun _ =>
        if shows then shown (c.write m record).2 record.name else .done) ∧
      faithful.Shows (performRecord (.ok record) shows world).2.store (c.write m record).2 := by
  rw [performRecord_eq, Action.bind_apply]
  rcases (write_settles faithful h hfinite).cases with ⟨after, c', hdone, hwrite, hshows⟩
    | ⟨failure, after, c', hdone, hwrite, hshows⟩ <;> rw [hdone, hwrite]
  · obtain ⟨value, _, rfl⟩ := Contents.write_ok_iff.1 hwrite
    simp only [conclude_apply faithful hshows (Contents.set_self c record.name value)]
    exact ⟨rfl, hshows⟩
  · exact ⟨rfl, hshows⟩

omit [Repository σ] in
theorem countUpdates_apply (samples : List Sample) (world : World σ) :
    (countUpdates samples world).1 = .ok () ∧
      (countUpdates samples world).2.store = world.store := by
  induction samples generalizing world with
  | nil => exact ⟨rfl, rfl⟩
  | cons sample samples ih => exact ih (world.count (.updated sample.kind) 1)

/-- The outcome of an update is that of writing its records, and its answer shows the contents then. -/
def Performs (world : World σ) (c : Contents) (update : Update) : Prop :=
  (update.perform world).1
      = (update.effect m c).1.map (fun _ => update.answer (update.effect m c).2) ∧
    faithful.Shows (update.perform world).2.store (update.effect m c).2

theorem performs_one (h : faithful.Shows world.store c) (sample : Sample) :
    Performs faithful world c (.one sample) := by
  rw [Performs, perform_one, effect_one]
  cases hrecord : recordOfSample sample with
  | error failure => exact ⟨rfl, h⟩
  | ok record =>
    obtain ⟨hname, _, _, hfinite⟩ := Sample.toRecord_ok (recordOfSample_ok hrecord)
    have hsettles := performRecord_settles faithful h hfinite true
    rw [hname] at hsettles
    exact hsettles

theorem performs_text (h : faithful.Shows world.store c) (kind name raw : String) :
    Performs faithful world c (.text kind name raw) := by
  rw [Performs, perform_text, effect_text]
  cases hrecord : recordOfText kind name raw with
  | error failure => exact ⟨rfl, h⟩
  | ok record => exact performRecord_settles faithful h (recordOfText_ok hrecord).2.2 false

theorem performs_batch (h : faithful.Shows world.store c) (samples : List Sample) :
    Performs faithful world c (.batch samples) := by
  rw [Performs, effect_batch]
  simp only [perform, applyBatch, Action.bind_apply, Action.ofResult_apply]
  cases hcheck : checkBatch samples with
  | error failure => exact ⟨rfl, h⟩
  | ok done =>
    rcases (faithful.batch h samples).cases with ⟨after, shown, hdone, henter, hshows⟩
      | ⟨failure, after, shown, hdone, henter, hshows⟩
    · obtain ⟨hcount, hstore⟩ := countUpdates_apply samples after
      simp only [hdone, henter]
      generalize countUpdates samples after = counted at hcount hstore
      obtain ⟨result, last⟩ := counted
      cases hcount
      refine ⟨rfl, ?_⟩
      change faithful.Shows last.store shown
      rw [hstore]
      exact hshows
    · simp only [hdone, henter]
      exact ⟨rfl, hshows⟩

/-- Every update of a faithful repository does what writing its records does. -/
theorem performs (h : faithful.Shows world.store c) (update : Update) :
    Performs faithful world c update := by
  cases update with
  | one sample => exact performs_one faithful h sample
  | text kind name raw => exact performs_text faithful h kind name raw
  | batch samples => exact performs_batch faithful h samples

end Update

end Service

end Telemetry
