import Telemetry.Proofs.Store.Batch

/-!
# The forms of an update

The same value can be sent as a part of a path, as a sample, and as a batch of one sample. The three
ways to the store differ: the first looks up and writes by itself, the second uses the operation that
does both, and the third the code for batches. Once a value is in order, all of them come to the one
operation that applies a sample, and to a count of it. What is shown afterwards is what that operation
has stored.
-/

namespace Telemetry

open Service

namespace Store

variable {world after other : World Store} {sample : Sample} {record : Record}

theorem get_of_store_eq {name : String} {found : Option Record}
    (h : Repository.get name world = (.ok found, world)) (hsame : other.store = world.store) :
    Repository.get name other = (.ok found, other) := by
  have hheld := (holdings.get_eq (congrArg Prod.fst h)).2
  rw [← hsame] at hheld
  exact holdings.get_of_held hheld

/-- A batch of one sample does what the sample does; one that is refused by a database may have written
its file again. -/
theorem InOrder.batch_one (h : world.store.InOrder) (sample : Sample) :
    match Repository.upsert sample world with
    | (.ok (), after) => Repository.batch [sample] world = (.ok (), after)
    | (.error failure, after) => ∃ last, Repository.batch [sample] world = (.error failure, last) ∧
        last.store = after.store := by
  obtain ⟨store, host⟩ := world
  cases store with
  | memory part =>
    rw [memory_passesOn.batch, memory_passesOn.upsert, MemoryStore.upsert_eq]
    rcases (Repository.batch [sample] : Action MemoryStore Unit) ⟨part, host⟩
      with ⟨failure | ⟨⟨⟩⟩, after⟩
    · exact ⟨_, rfl, rfl⟩
    · rfl
  | snapshot part =>
    rw [snapshot_passesOn.batch, snapshot_passesOn.upsert, SnapshotStore.upsert_eq]
    rcases (Repository.batch [sample] : Action SnapshotStore Unit) ⟨part, host⟩
      with ⟨failure | ⟨⟨⟩⟩, after⟩
    · exact ⟨_, rfl, rfl⟩
    · rfl
  | sql part =>
    have htidy : (World.mk part host).store.IsTidy := inOrder_sql_iff.1 h
    rw [sql_passesOn.batch, sql_passesOn.upsert, SqlStore.batch_eq htidy, SqlStore.atomically]
    have hone : (Repository.upsertAll [sample] : Action SqlStore Unit) = Repository.upsert sample :=
      Action.bind_pure_unit _
    rw [hone]
    rcases hupsert : (Repository.upsert sample : Action SqlStore Unit) ⟨part, host⟩
      with ⟨failure | ⟨⟨⟩⟩, after⟩
    · have hrefused : Repository.upsert sample (⟨.sql part, host⟩ : World Store)
          = (.error failure, ⟨.sql after.store, after.host⟩) := by
        rw [sql_passesOn.upsert, hupsert]
        rfl
      have hkept : after.store = part := h.upsert_refused hrefused
      exact ⟨_, rfl, congrArg Store.sql hkept.symm⟩
    · rfl

/-- A sample that was applied is stored under its name with its kind, and other names are left alone. -/
theorem InOrder.upsert_done (h : world.store.InOrder) (hrecord : sample.toRecord = .ok record)
    (hdone : Repository.upsert sample world = (.ok (), after)) :
    (∃ stored, stored.name = record.name ∧ stored.kind = record.kind ∧
      Repository.get record.name after = (.ok (some stored), after)) ∧
    ∀ name, name ≠ record.name → ∃ found, Repository.get name world = (.ok found, world) ∧
      Repository.get name after = (.ok found, after) := by
  have hall : Repository.upsertAll [sample] world = (.ok (), after) := by
    rw [Repository.upsertAll, Action.bind_apply, hdone]
    rfl
  obtain ⟨records, hrecords, hwritten⟩ := h.written hall
  obtain rfl : records = [record] := by
    rw [List.map_singleton, hrecord] at hrecords
    obtain ⟨entry, rest, rfl, hentry, hrest⟩ := List.map_eq_cons_iff.1 hrecords.symm
    rw [Except.ok.inj hentry, List.map_eq_nil_iff.1 hrest]
  constructor
  · obtain ⟨before, found, -, hfound, haccrues⟩ := hwritten record.name
    have hself : entriesOf record.name [record] = [record] := by simp [entriesOf]
    rw [hself] at haccrues
    obtain ⟨stored, rfl, hname, hkinds, -⟩ := haccrues
    have hkind : record.kind = stored.kind :=
      hkinds record (List.mem_append_right _ (List.mem_singleton_self record))
    exact ⟨stored, hname, hkind.symm, hfound⟩
  · intro name hname
    obtain ⟨before, found, hbefore, hfound, haccrues⟩ := hwritten name
    have hnone : entriesOf name [record] = [] := by simp [entriesOf, Ne.symm hname]
    rw [hnone] at haccrues
    obtain rfl : found = before := haccrues
    exact ⟨found, hbefore, hfound⟩

end Store

/-! ### Stores that updates lead to -/

theorem Service.Update.run_shows {m : Medium} (faithful : Repository.Faithful Store m)
    {world : World Store} {c : Contents} (h : faithful.Shows world.store c) (updates : List Update) :
    ∃ after, faithful.Shows (Update.run updates world).store after := by
  induction updates generalizing world c with
  | nil => exact ⟨c, h⟩
  | cons update updates ih => exact ih (Update.performs faithful h update).2

namespace Store.Fresh

theorem inOrder {store : Store} (h : store.Fresh) : store.InOrder ∧ store.isReadOnly = false := by
  cases store with
  | memory store =>
    cases h
    exact ⟨List.nodup_nil, rfl⟩
  | snapshot store =>
    obtain ⟨hmemory, hopen⟩ := h
    refine ⟨⟨?_, hopen⟩, rfl⟩
    rw [hmemory]
    exact List.nodup_nil
  | sql store => exact ⟨⟨h.1, [], h.2.2, List.nodup_nil, nofun⟩, h.2.1⟩

theorem inOrder_run {world : World Store} (h : world.store.Fresh) (updates : List Update) :
    (Update.run updates world).store.InOrder := by
  obtain ⟨m, kind, c, hshows, hkept⟩ := h.inOrder.1.refusing h.inOrder.2
  obtain ⟨after, hafter⟩ := Update.run_shows kind.toFaithful hshows updates
  exact hkept _ _ hafter

end Store.Fresh

theorem Value.ne_empty_of_read {kind : Kind} {raw : String} {value : Value}
    (h : Value.read kind raw = .ok value) : raw ≠ "" := by
  rintro rfl
  cases kind <;> cases h

namespace Service

section Reduction

variable {σ : Type} [Repository σ] {kind : Kind} {name raw : String} {value : Value}
  {sample : Sample} {record : Record}

theorem recordOfText_of_read (hname : name ≠ "") (hread : Value.read kind raw = .ok value) :
    Update.recordOfText kind.name name raw = .ok ⟨name, value⟩ := by
  have hkind : Kind.ofName kind.name = .ok kind := by rw [Kind.ofName, Kind.ofName?_name]
  have hrequired : requireName name = .ok () := if_neg hname
  have hgiven : requireName raw = .ok () := if_neg (Value.ne_empty_of_read hread)
  rw [Update.recordOfText, hkind]
  simp only [bind, Except.bind, hrequired, hgiven, hread]
  rfl

/-- A value that was read is looked up and written as its sample is. -/
theorem applyText_eq_upsert (hname : name ≠ "") (hread : Value.read kind raw = .ok value)
    (hsample : sample.toRecord = .ok ⟨name, value⟩) :
    (applyText kind.name name raw : Action σ Unit)
      = Repository.upsert sample >>= fun _ => countUpdate kind := by
  have hkind : (⟨name, value⟩ : Record).kind = kind := (Value.read_ok hread).1
  rw [Update.applyText_eq, recordOfText_of_read hname hread, Action.ofResult_ok_bind,
    Repository.upsert, hsample, Action.ofResult_ok_bind, Action.bind_assoc, hkind]

theorem applySample_eq_upsert (hsample : sample.toRecord = .ok record) :
    (applySample sample : Action σ Sample) = (do
      Repository.upsert sample
      countUpdate record.kind
      match ← Repository.get record.name with
      | some stored => pure (Sample.ofRecord stored)
      | none => Action.fail (.metricNotFound record.name)) := by
  obtain ⟨hname, hnamed, hkind, -⟩ := Sample.toRecord_ok hsample
  have hrequired : requireName sample.id = .ok () := if_neg (hname ▸ hnamed)
  rw [hname, hkind, applySample, hrequired]
  exact Action.ofResult_ok_bind () _

theorem applyBatch_eq_batch (hsample : sample.toRecord = .ok record) :
    (applyBatch [sample] : Action σ Unit)
      = Repository.batch [sample] >>= fun _ => countUpdate record.kind := by
  obtain ⟨hname, hnamed, hkind, -⟩ := Sample.toRecord_ok hsample
  have hrequired : requireName sample.id = .ok () := if_neg (hname ▸ hnamed)
  have hvalid : sample.validate = .ok () := by rw [Sample.validate, hsample]; rfl
  have hcheck : checkBatch [sample] = .ok () := by
    simp only [checkBatch, hrequired, hvalid]
  have hcount : (countUpdates [sample] : Action σ Unit) = countUpdate sample.kind :=
    Action.bind_pure_unit _
  rw [applyBatch, hcheck, Action.ofResult_ok_bind, hcount, hkind]

theorem find_of_get {world : World σ} {stored : Record} (hname : name ≠ "")
    (h : Repository.get name world = (.ok (some stored), world)) (kind : Kind) :
    find kind name world
      = (if stored.kind = kind then .ok stored else .error (.metricNotFound name), world) := by
  have hrequired : requireName name = .ok () := if_neg hname
  rw [find, hrequired, Action.ofResult_ok_bind, Action.bind_apply, h]
  dsimp only
  split <;> rfl

theorem lookupText_of_get {world : World σ} {stored : Record} (hname : name ≠ "")
    (h : Repository.get name world = (.ok (some stored), world)) (kind : Kind) :
    lookupText kind.name name world
      = (if stored.kind = kind then .ok stored.value.text else .error (.metricNotFound name), world) := by
  have hkind : Kind.ofName kind.name = .ok kind := by rw [Kind.ofName, Kind.ofName?_name]
  rw [lookupText, hkind, Action.ofResult_ok_bind, Action.bind_apply, find_of_get hname h]
  by_cases hsame : stored.kind = kind
  · rw [if_pos hsame, if_pos hsame]
    rfl
  · rw [if_neg hsame, if_neg hsame]

end Reduction

/-- What is stored after an update of a name: a record of the kind of the update, which every look-up
finds that asks for this kind, and no look-up that asks for the other; all other names have the
records that they had. -/
structure Stored (kind : Kind) (name : String) (stored : Record) (earlier later : World Store) :
    Prop where
  named : stored.name = name
  ofKind : stored.kind = kind
  lookup {query : Sample} (hid : query.id = name) : Service.lookup query later
    = (if query.kind = kind then .ok (Sample.ofRecord stored) else .error (.metricNotFound name), later)
  text (asked : Kind) : lookupText asked.name name later
    = (if asked = kind then .ok stored.value.text else .error (.metricNotFound name), later)
  others {other : String} (hother : other ≠ name) : ∃ found,
    Repository.get other earlier = (.ok found, earlier) ∧ Repository.get other later = (.ok found, later)

/-- The three forms of an update are all refused for the same reason and leave the records as they were,
or are all done and leave the same world; and then the metric that is shown is the one that is stored. -/
def FormsAgree (kind : Kind) (name raw : String) (sample : Sample) (world : World Store) : Prop :=
  match applyText kind.name name raw world with
  | (.error failure, after) => applySample sample world = (.error failure, after) ∧
    (∃ last, applyBatch [sample] world = (.error failure, last) ∧ last.store = after.store) ∧
    world.store.Keeps after.store
  | (.ok (), after) => applyBatch [sample] world = (.ok (), after) ∧ ∃ stored,
    applySample sample world = (.ok (Sample.ofRecord stored), after) ∧
      Stored kind name stored world after

variable {kind : Kind} {name raw : String} {value : Value} {sample : Sample} {world later : World Store}

theorem stored_of_get {stored : Record} (hname : name ≠ "") (hnamed : stored.name = name)
    (hkind : stored.kind = kind)
    (hget : Repository.get name later = (.ok (some stored), later))
    (hothers : ∀ other, other ≠ name → ∃ found, Repository.get other world = (.ok found, world) ∧
      Repository.get other later = (.ok found, later)) : Stored kind name stored world later where
  named := hnamed
  ofKind := hkind
  lookup {query} hid := by
    rw [Service.lookup, Action.bind_apply, hid, find_of_get hname hget, hkind]
    by_cases hsame : kind = query.kind
    · rw [if_pos hsame, if_pos hsame.symm]
      rfl
    · rw [if_neg hsame, if_neg (Ne.symm hsame)]
  text asked := by
    rw [lookupText_of_get hname hget, hkind]
    simp only [eq_comm]
  others {other} hother := hothers other hother

/-- On every store in order, whatever it holds, a name with a value in order can be updated in any of the
three forms. -/
theorem forms_agree (h : world.store.InOrder) (hname : name ≠ "")
    (hread : Value.read kind raw = .ok value) (hsample : sample.toRecord = .ok ⟨name, value⟩) :
    FormsAgree kind name raw sample world := by
  have hkind : (⟨name, value⟩ : Record).kind = kind := (Value.read_ok hread).1
  have hbatch := h.batch_one sample
  rw [FormsAgree, applyText_eq_upsert hname hread hsample, applySample_eq_upsert hsample,
    applyBatch_eq_batch hsample, Action.bind_apply, Action.bind_apply, Action.bind_apply, hkind]
  rcases hupsert : Repository.upsert sample world with ⟨failure | ⟨⟨⟩⟩, after⟩ <;> rw [hupsert] at hbatch
  · obtain ⟨last, hlast, hsame⟩ := hbatch
    rw [hlast]
    exact ⟨rfl, ⟨last, rfl, hsame⟩, h.upsert_refused hupsert⟩
  · obtain ⟨⟨stored, hnamed, hstored, hget⟩, hothers⟩ := h.upsert_done hsample hupsert
    -- The count is all that happens between the write and the look-ups.
    have hcount : countUpdate kind after = (.ok (), after.count (.updated kind) 1) := rfl
    have hcounted {other : String} {found : Option Record}
        (hfound : Repository.get other after = (.ok found, after)) :
        Repository.get other (after.count (.updated kind) 1)
          = (.ok found, after.count (.updated kind) 1) := Store.get_of_store_eq hfound rfl
    rw [hbatch]
    dsimp only
    rw [hcount]
    refine ⟨rfl, stored, ?_, ?_⟩
    · rw [Action.bind_apply, hcount]
      dsimp only
      rw [Action.bind_apply, hcounted hget]
      rfl
    · refine stored_of_get hname hnamed (hstored.trans hkind) (hcounted hget) fun other hother => ?_
      obtain ⟨found, hbefore, hafter⟩ := hothers other hother
      exact ⟨found, hbefore, hcounted hafter⟩

/-- A counter that was made by a request, in a database. -/
theorem forms_agree_counter :
    let fresh : World Store :=
      ⟨.sql ⟨⟨some [], none⟩, none, false, true⟩, ⟨[], Counters.empty, 0⟩⟩
    let world := Update.run [.one (Sample.counter "a" 1)] fresh
    fresh.store.Fresh ∧ world.store.InOrder ∧ "a" ≠ "" ∧
      Value.read .counter "2" = .ok (.counter 2) ∧
      (Sample.counter "a" 2).toRecord = .ok ⟨"a", .counter 2⟩ ∧
      FormsAgree .counter "a" "2" (Sample.counter "a" 2) world := by
  intro fresh world
  have hfresh : fresh.store.Fresh := ⟨rfl, rfl, rfl⟩
  have hworld : world.store.InOrder := hfresh.inOrder_run _
  have hname : "a" ≠ "" := by decide
  have hread : Value.read .counter "2" = .ok (.counter 2) := by rfl
  have hsample : (Sample.counter "a" 2).toRecord = .ok ⟨"a", .counter 2⟩ := rfl
  exact ⟨hfresh, hworld, hname, hread, hsample, forms_agree hworld hname hread hsample⟩

end Service

end Telemetry
