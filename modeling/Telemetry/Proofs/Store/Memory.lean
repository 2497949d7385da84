import Telemetry.Proofs.Store.Contents
import Telemetry.Store.Snapshot

/-!
# The contents of the store in memory

The store in memory keeps every name and every number as it is given, and the entries of a batch
before the refused one stay. A store with a snapshot file holds the same contents as long as its file
is open, whatever its backups do.
-/

namespace Telemetry

/-- Every name is admitted and every number is kept; a refused batch leaves its first entries. -/
def Medium.memory : Medium := ⟨fun _ => none, id, false, fun _ => rfl⟩

@[simp] theorem Medium.kept_memory (value : Value) : Medium.memory.kept value = value := by
  cases value <;> rfl

theorem Contents.enterBatch_memory (c : Contents) (entries : List (Except Failure Record)) :
    c.enterBatch .memory entries = c.enterAll .memory entries := by
  rw [enterBatch]
  rcases c.enterAll .memory entries with ⟨failure | ⟨⟨⟩⟩, after⟩ <;> rfl

namespace MemoryStore

theorem find?_replace (records : List Record) (record : Record) (name : String) :
    ((records.map fun other => if other.name == record.name then record else other).find?
        fun other => other.name == name)
      = (records.find? fun other => other.name == name).map fun other =>
          if other.name == record.name then record else other := by
  rw [List.find?_map]
  congr 2
  funext other
  by_cases hname : other.name = record.name <;> simp [hname]

theorem get?_put (store : MemoryStore) (record : Record) (name : String) :
    (store.put record).get? name = if name = record.name then some record else store.get? name := by
  by_cases hany : store.records.any fun other => other.name == record.name
  · simp only [put, hany, if_true, get?, find?_replace]
    cases hfind : store.records.find? fun other => other.name == name with
    | none =>
      have hne : name ≠ record.name := by
        rintro rfl
        obtain ⟨other, hmem, hother⟩ := List.any_eq_true.1 hany
        exact List.find?_eq_none.1 hfind other hmem hother
      rw [if_neg hne]
      rfl
    | some other =>
      obtain ⟨_, rfl⟩ := Contents.find?_name hfind
      by_cases hname : other.name = record.name <;> simp [hname]
  · have habsent : (store.records.find? fun other => other.name == record.name) = none := by
      rw [List.find?_eq_none]
      exact fun other hmem hother => hany (List.any_eq_true.2 ⟨other, hmem, hother⟩)
    simp only [put, hany, Bool.false_eq_true, if_false, get?, List.find?_append, List.find?_singleton]
    by_cases hname : name = record.name
    · simp [hname, habsent]
    · simp [hname, beq_eq_false_iff_ne.2 (Ne.symm hname)]

theorem names_put (store : MemoryStore) (record : Record) :
    (store.put record).records.map Record.name =
      if store.records.any fun other => other.name == record.name then store.records.map Record.name
      else store.records.map Record.name ++ [record.name] := by
  rw [put]
  split
  · simp only [List.map_map]
    apply List.map_congr_left
    intro other _
    by_cases hname : other.name = record.name <;> simp [hname]
  · simp

theorem nodup_put {store : MemoryStore} (record : Record)
    (hdistinct : (store.records.map Record.name).Nodup) :
    ((store.put record).records.map Record.name).Nodup := by
  rw [names_put]
  split
  · exact hdistinct
  · rename_i hany
    rw [List.nodup_append]
    refine ⟨hdistinct, by simp, fun name hname other hother => ?_⟩
    obtain ⟨stored, hmem, rfl⟩ := List.mem_map.1 hname
    rw [List.mem_singleton.1 hother]
    exact fun heq => hany (List.any_eq_true.2 ⟨stored, hmem, by simpa using heq⟩)

/-- The store has these contents and one record for each name. -/
def Shows (store : MemoryStore) (c : Contents) : Prop :=
  (store.records.map Record.name).Nodup ∧ c = Contents.ofRecords store.records

variable {store : MemoryStore} {c : Contents}

theorem Shows.get? (h : store.Shows c) (name : String) : store.get? name = c.record? name := by
  rw [h.2, Contents.record?_ofRecords]
  rfl

theorem Shows.lists (h : store.Shows c) : c.Lists store.records := by
  rw [h.2]
  exact Contents.lists_ofRecords h.1

theorem Shows.put (h : store.Shows c) (record : Record) :
    (store.put record).Shows (c.set record.name record.value) := by
  refine ⟨nodup_put record h.1, ?_⟩
  funext name
  have hrecord := congrArg (Option.map Record.value) (get?_put store record name)
  change _ = (((store.put record).get? name).map Record.value)
  rw [hrecord, h.2]
  by_cases hname : name = record.name
  · simp [Contents.set, hname]
  · rw [if_neg hname, Contents.set_of_ne _ _ hname]
    rfl

theorem Shows.observe (h : store.Shows c) {name : String} {stored : Value}
    (hstored : c name = some stored) (value : Value) :
    match ((⟨name, stored⟩ : Record).apply value).map store.put with
    | .ok after => ∃ c', c.write .memory ⟨name, value⟩ = (.ok (), c') ∧ after.Shows c'
    | .error failure => c.write .memory ⟨name, value⟩ = (.error failure, c) := by
  cases happly : (⟨name, stored⟩ : Record).apply value with
  | error failure =>
    change c.write .memory ⟨name, value⟩ = (.error failure, c)
    rw [Contents.write_error_iff]
    simp [hstored, Medium.next, happly, Except.map]
  | ok after =>
    have hname : after.name = name := Record.apply_name happly
    refine ⟨c.set name after.value, ?_, ?_⟩
    · rw [Contents.write_ok_iff]
      exact ⟨after.value, by simp [hstored, Medium.next, happly, Except.map], rfl⟩
    · rw [← hname]
      exact h.put after

theorem Shows.create (h : store.Shows c) {record : Record} (habsent : c record.name = none) :
    ∃ c', c.write .memory record = (.ok (), c') ∧ (store.put record).Shows c' := by
  refine ⟨c.set record.name record.value, ?_, h.put record⟩
  rw [Contents.write_ok_iff]
  refine ⟨record.value, ?_, rfl⟩
  rw [habsent]
  exact congrArg Except.ok (Medium.kept_memory record.value)

theorem Shows.applySample (h : store.Shows c) (sample : Sample) :
    match store.applySample sample with
    | .ok after => ∃ c', c.enter .memory sample.toRecord = (.ok (), c') ∧ after.Shows c'
    | .error failure => c.enter .memory sample.toRecord = (.error failure, c) := by
  rw [MemoryStore.applySample]
  cases sample.toRecord with
  | error failure => rfl
  | ok record =>
    simp only [h.get?, Contents.record?, Contents.enter]
    cases hstored : c record.name with
    | none => exact h.create hstored
    | some stored => exact h.observe hstored record.value

theorem Shows.applySamples (h : store.Shows c) (samples : List Sample) :
    (store.applySamples samples).1 = (c.enterAll .memory (samples.map Sample.toRecord)).1 ∧
      (store.applySamples samples).2.Shows (c.enterAll .memory (samples.map Sample.toRecord)).2 := by
  induction samples generalizing store c with
  | nil => exact ⟨rfl, h⟩
  | cons sample samples ih =>
    have hsample := h.applySample sample
    simp only [MemoryStore.applySamples, List.map_cons, Contents.enterAll]
    split at hsample
    · rename_i after hafter
      obtain ⟨c', henter, hshows⟩ := hsample
      rw [hafter, henter]
      exact ih hshows
    · rename_i failure hfailure
      rw [hfailure, hsample]
      exact ⟨rfl, h⟩

/-- The store in memory does to its records what a medium that keeps everything does. -/
def faithful : Repository.Faithful MemoryStore .memory where
  Shows := Shows
  get h name := by
    change (Except.ok (MemoryStore.get? _ name), _) = _
    rw [h.get?]
  getAll h := ⟨_, rfl, h.lists⟩
  write {w c} h record _ := by
    cases hstored : c record.name with
    | none =>
      obtain ⟨c', hwrite, hshows⟩ := h.create hstored
      rw [Contents.record?, hstored, hwrite]
      exact ⟨rfl, hshows⟩
    | some stored =>
      have hobserve := h.observe hstored record.value
      have happly : w.store.apply record.name record.value
          = ((⟨record.name, stored⟩ : Record).apply record.value).map w.store.put := by
        rw [MemoryStore.apply, h.get?, Contents.record?, hstored]
        rfl
      rw [← happly] at hobserve
      simp only [Contents.record?, hstored, Option.map_some]
      change Settles Shows (change (fun store => store.apply record.name record.value) w) _
      unfold MemoryStore.change
      split at hobserve
      · rename_i after hafter
        obtain ⟨c', hwrite, hshows⟩ := hobserve
        simp only [hafter]
        rw [hwrite]
        exact ⟨rfl, hshows⟩
      · rename_i failure hfailure
        simp only [hfailure]
        rw [hobserve]
        exact ⟨rfl, h⟩
  batch {w c} h samples := by
    obtain ⟨hresult, hshows⟩ := h.applySamples samples
    rw [Contents.enterBatch_memory]
    exact ⟨hresult, hshows⟩

theorem batch_apply (samples : List Sample) (world : World MemoryStore) :
    Repository.batch samples world = ((world.store.applySamples samples).1,
      { world with store := (world.store.applySamples samples).2 }) := rfl

theorem batch_cons (sample : Sample) (samples : List Sample) :
    (Repository.batch (sample :: samples) : Action MemoryStore Unit)
      = (do Repository.batch [sample]; Repository.batch samples) := by
  funext world
  rw [Action.bind_apply, batch_apply, batch_apply, applySamples, applySamples]
  cases world.store.applySample sample <;> rfl

end MemoryStore

namespace SnapshotStore

/-- The store has these contents, and its file is open if it has one. -/
def Shows (store : SnapshotStore) (c : Contents) : Prop :=
  store.memory.Shows c ∧ ∀ backup ∈ store.backup, backup.isOpen = true

theorem backupIfDue_settles {world : World SnapshotStore} {c : Contents}
    (h : world.store.Shows c) : Settles Shows (backupIfDue world) (.ok (), c) := by
  rw [backupIfDue]
  split
  · exact ⟨rfl, h⟩
  · rename_i backup hbackup
    have hopen : backup.isOpen = true := h.2 backup hbackup
    split
    · unfold writeBackup
      rw [if_pos hopen]
      refine ⟨rfl, h.1, fun other hother => ?_⟩
      cases hother
      exact hopen
    · exact ⟨rfl, h⟩

/-- A change of the records that is followed by a backup if it was done. -/
theorem change_settles {world : World SnapshotStore} {c : Contents} (h : world.store.Shows c)
    {action : Action MemoryStore Unit} {expected : Except Failure Unit × Contents}
    (haction : Settles MemoryStore.Shows (action ⟨world.store.memory, world.host⟩) expected) :
    Settles Shows ((do inMemory action; backupIfDue : Action SnapshotStore Unit) world)
      expected := by
  rw [Action.bind_apply]
  unfold inMemory Action.onPart
  rcases haction.cases with ⟨after, c', hdone, rfl, hshows⟩ | ⟨failure, after, c', hdone, rfl, hshows⟩
  · rw [hdone]
    exact backupIfDue_settles ⟨hshows, h.2⟩
  · rw [hdone]
    exact ⟨rfl, hshows, h.2⟩

/-- A store with an open file, or without one, does to its records what the store in memory does. -/
def faithful : Repository.Faithful SnapshotStore .memory where
  Shows := Shows
  get {w c} h name := by
    change inMemory (Repository.get name) w = _
    unfold inMemory Action.onPart
    rw [MemoryStore.faithful.get (w := ⟨w.store.memory, w.host⟩) h.1]
  getAll {w c} h := by
    obtain ⟨records, hgetAll, hlists⟩ := MemoryStore.faithful.getAll
      (w := ⟨w.store.memory, w.host⟩) h.1
    refine ⟨records, ?_, hlists⟩
    change inMemory Repository.getAll w = _
    unfold inMemory Action.onPart
    rw [hgetAll]
  write {w c} h record hfinite := by
    have hmemory := MemoryStore.faithful.write (w := ⟨w.store.memory, w.host⟩) h.1 record
      hfinite
    cases hstored : c.record? record.name with
    | none =>
      rw [hstored] at hmemory
      exact change_settles h hmemory
    | some stored =>
      rw [hstored] at hmemory
      exact change_settles h hmemory
  batch {w c} h samples := change_settles h (MemoryStore.faithful.batch
    (w := ⟨w.store.memory, w.host⟩) h.1 samples)

end SnapshotStore

end Telemetry
