import Telemetry.Proofs.Concurrency.MemoryCalls
import Telemetry.Proofs.Store.Balance

/-!
# Updates that are lost in memory

An update that has looked its name up and not found it inserts its record, and the insertion replaces
what another call may have stored there in the meantime. Nothing else is ever lost: when calls that
were in progress together are all done, a counter is worth what it was worth before and what they
added, less what was replaced. So the counters are exact and the kinds are kept exactly when the
replaced counters come to nothing and no metric was replaced by one of another kind.
-/

namespace Telemetry

open Service

def Service.Update.entries (update : Update) : List Record :=
  match update.records with
  | .ok records => records
  | .error _ => []

theorem Record.amount_apply {record after : Record} {value : Value}
    (h : record.apply value = .ok after) :
    after.value.amount = record.value.amount + value.amount := by
  obtain ⟨name, stored⟩ := record
  cases stored with
  | gauge x =>
    cases value with
    | gauge y =>
      cases h
      rfl
    | counter delta => cases h
  | counter n =>
    cases value with
    | gauge y => cases h
    | counter delta =>
      simp only [Record.apply] at h
      cases hsum : addExact? n delta with
      | none =>
        rw [hsum] at h
        cases h
      | some sum =>
        rw [hsum] at h
        cases h
        exact toInt_addExact? hsum

theorem total_entriesOf_cons (name : String) (entry : Record) (entries : List Record) :
    total (entriesOf name (entry :: entries))
      = (if entry.name = name then entry.value.amount else 0) + total (entriesOf name entries) := by
  by_cases hname : entry.name = name <;> simp [entriesOf, total, hname]

namespace MemoryStore

/-- What the counter of a name is worth. There may be none. -/
def worth (store : MemoryStore) (name : String) : Int :=
  match store.get? name with
  | some record => record.value.amount
  | none => 0

theorem worth_put (store : MemoryStore) (record : Record) (name : String) :
    (store.put record).worth name
      = if record.name = name then record.value.amount else store.worth name := by
  unfold worth
  rw [get?_put]
  by_cases hname : record.name = name
  · rw [if_pos hname, if_pos hname.symm]
  · rw [if_neg hname, if_neg (Ne.symm hname)]

/-- What a step makes of the store and of the entries that its call has still to write, with the pairs
of a record that it replaced and the record that it put there. -/
inductive Writes (store : MemoryStore) :
    List Record → List Record → List (Record × Record) → MemoryStore → Prop where
  | nothing (entries : List Record) : Writes store entries entries [] store
  | creates (entry : Record) (left : List Record) (habsent : store.get? entry.name = none) :
    Writes store (entry :: left) left [] (store.put entry)
  | observes (entry stored after : Record) (left : List Record)
    (hstored : store.get? entry.name = some stored) (happly : stored.apply entry.value = .ok after) :
    Writes store (entry :: left) left [] (store.put after)
  | replaces (entry stored : Record) (left : List Record)
    (hstored : store.get? entry.name = some stored) :
    Writes store (entry :: left) left [(stored, entry)] (store.put entry)

/-- Every metric is kept, and keeps its kind. -/
def Persists (earlier later : MemoryStore) : Prop :=
  ∀ name record, earlier.get? name = some record →
    ∃ record', later.get? name = some record' ∧ record'.kind = record.kind

namespace Writes

variable {store after : MemoryStore} {entries left : List Record} {replaced : List (Record × Record)}

/-- What the store is worth and what is still to be written changes by what is replaced. -/
theorem worth (h : Writes store entries left replaced after) (name : String) :
    after.worth name + total (entriesOf name left) + total (entriesOf name (replaced.map Prod.fst))
      = store.worth name + total (entriesOf name entries) := by
  have hnone : total (entriesOf name []) = 0 := rfl
  cases h with
  | nothing =>
    rw [List.map_nil, hnone]
    omega
  | creates entry left habsent =>
    rw [worth_put, total_entriesOf_cons, List.map_nil, hnone]
    by_cases hname : entry.name = name
    · have hstore : store.worth name = 0 := by rw [MemoryStore.worth, ← hname, habsent]
      rw [if_pos hname, if_pos hname]
      omega
    · rw [if_neg hname, if_neg hname]
      omega
  | observes entry stored after left hstored happly =>
    have hstoredName : stored.name = entry.name := (Contents.find?_name hstored).2
    rw [worth_put, total_entriesOf_cons, List.map_nil, hnone, Record.apply_name happly, hstoredName]
    by_cases hname : entry.name = name
    · have hstore : store.worth name = stored.value.amount := by
        rw [MemoryStore.worth, ← hname, hstored]
      have hamount := Record.amount_apply happly
      rw [if_pos hname, if_pos hname]
      omega
    · rw [if_neg hname, if_neg hname]
      omega
  | replaces entry stored left hstored =>
    have hstoredName : stored.name = entry.name := (Contents.find?_name hstored).2
    rw [worth_put, total_entriesOf_cons, List.map_singleton, total_entriesOf_cons, hstoredName, hnone]
    dsimp only
    by_cases hname : entry.name = name
    · have hstore : store.worth name = stored.value.amount := by
        rw [MemoryStore.worth, ← hname, hstored]
      rw [if_pos hname, if_pos hname, if_pos hname]
      omega
    · rw [if_neg hname, if_neg hname, if_neg hname]
      omega

theorem persists_put {record : Record}
    (hkind : ∀ stored, store.get? record.name = some stored → record.kind = stored.kind) :
    Persists store (store.put record) := by
  intro name stored hstored
  rw [get?_put]
  by_cases hname : name = record.name
  · subst hname
    exact ⟨record, if_pos rfl, hkind stored hstored⟩
  · exact ⟨stored, (if_neg hname).trans hstored, rfl⟩

theorem persists (h : Writes store entries left replaced after)
    (hkinds : ∀ pair ∈ replaced, pair.1.kind = pair.2.kind) : Persists store after := by
  cases h with
  | nothing => exact fun name record hrecord => ⟨record, hrecord, rfl⟩
  | creates entry left habsent =>
    apply persists_put
    intro stored hstored
    rw [habsent] at hstored
    cases hstored
  | observes entry stored after left hstored happly =>
    apply persists_put
    intro other hother
    rw [Record.apply_name happly, (Contents.find?_name hstored).2, hstored] at hother
    cases hother
    exact Record.apply_kind happly
  | replaces entry stored left hstored =>
    apply persists_put
    intro other hother
    rw [hstored] at hother
    cases hother
    exact (hkinds (stored, entry) List.mem_cons_self).symm

theorem replaced_by (h : Writes store entries left replaced after) {stored entry : Record}
    (hmem : (stored, entry) ∈ replaced) :
    store.get? entry.name = some stored ∧ after.get? entry.name = some entry := by
  cases h with
  | nothing => cases hmem
  | creates => cases hmem
  | observes => cases hmem
  | replaces entry stored left hstored =>
    cases List.mem_singleton.1 hmem
    exact ⟨hstored, by rw [get?_put, if_pos rfl]⟩

end Writes

namespace Stage

def owed : Stage → List Record
  | .waiting update => update.entries
  | .creating record _ => [record]
  | .changing existing value _ => [⟨existing.name, value⟩]
  | .applying left _ => left.filterMap fun sample => sample.toRecord.toOption
  | .showing _ => []
  | .finished _ => []

/-- The record that the next step replaces, with the one that it puts there. -/
def replaced (store : MemoryStore) : Stage → List (Record × Record)
  | .creating record _ => match store.get? record.name with
    | some stored => [(stored, record)]
    | none => []
  | _ => []

def Refused (stage : Stage) : Prop := ∃ failure, stage = .finished (.error failure)

theorem lookUp_writes {update : Update} {record : Except Failure Record} (shows : Bool)
    (hentries : ∀ entry, record = .ok entry → update.entries = [entry])
    (world : World MemoryStore) :
    (lookUp shows record world).1.Refused ∨
      Writes world.store update.entries (lookUp shows record world).1.owed []
        (lookUp shows record world).2.store := by
  cases record with
  | error failure => exact .inl ⟨failure, rfl⟩
  | ok record =>
    right
    rw [hentries record rfl, lookUp, get_apply]
    cases hfind : world.store.get? record.name with
    | none => exact .nothing [record]
    | some existing =>
      have howed : (changing existing record.value shows).owed = [record] := by
        rw [owed, (Contents.find?_name hfind).2]
      simp only [howed]
      exact .nothing [record]

theorem owed_applying {samples : List Sample} {records : List Record}
    (h : samples.map Sample.toRecord = records.map .ok) (all : List Sample) :
    (applying samples all).owed = records := by
  induction samples generalizing records with
  | nil =>
    cases records with
    | nil => rfl
    | cons record records => cases h
  | cons sample samples ih =>
    obtain ⟨record, records, rfl, hrecord, hrecords⟩ := List.map_eq_cons_iff.1 h.symm
    rw [owed, List.filterMap_cons, ← hrecord]
    exact congrArg (record :: ·) (ih hrecords.symm)

theorem wrote_owed (name : String) (kind : Kind) (shows : Bool) (world : World MemoryStore) :
    (wrote name kind shows (.ok (), world)).1.owed = [] := by
  cases shows <;> rfl

theorem creating_writes (record : Record) (shows : Bool) (world : World MemoryStore) :
    Writes world.store [record] ((creating record shows).step world).1.owed
      ((creating record shows).replaced world.store) ((creating record shows).step world).2.store := by
  have howed : ((creating record shows).step world).1.owed = [] :=
    wrote_owed record.name record.kind shows { world with store := world.store.put record }
  have hstore : ((creating record shows).step world).2.store = world.store.put record := rfl
  rw [howed, hstore, replaced]
  cases hfind : world.store.get? record.name with
  | none => exact .creates record [] hfind
  | some stored => exact .replaces record stored [] hfind

theorem changing_writes (existing : Record) (value : Value) (shows : Bool)
    (world : World MemoryStore) :
    ((changing existing value shows).step world).1.Refused ∨
      Writes world.store [⟨existing.name, value⟩] ((changing existing value shows).step world).1.owed []
        ((changing existing value shows).step world).2.store := by
  have hupdate : Repository.update existing value world
      = change (fun store => store.apply existing.name value) world := rfl
  rw [step, hupdate, change, MemoryStore.apply]
  cases hfind : world.store.get? existing.name with
  | none => exact .inl ⟨_, rfl⟩
  | some stored =>
    cases happly : stored.apply value with
    | error failure =>
      simp only [happly]
      exact .inl ⟨failure, rfl⟩
    | ok after =>
      right
      simp only [happly, Except.map, wrote_owed]
      exact .observes ⟨existing.name, value⟩ stored after [] hfind happly

theorem applying_writes (sample : Sample) (left all : List Sample) (world : World MemoryStore) :
    ((applying (sample :: left) all).step world).1.Refused ∨
      Writes world.store (applying (sample :: left) all).owed
        ((applying (sample :: left) all).step world).1.owed []
        ((applying (sample :: left) all).step world).2.store := by
  rw [step, batch_apply, applySamples, MemoryStore.applySample]
  cases hrecord : sample.toRecord with
  | error failure => exact .inl ⟨failure, rfl⟩
  | ok entry =>
    have howed : (applying (sample :: left) all).owed = entry :: (applying left all).owed := by
      rw [owed, List.filterMap_cons, hrecord]
      rfl
    rw [howed]
    cases hfind : world.store.get? entry.name with
    | none =>
      simp only [hfind]
      exact .inr (.creates entry _ hfind)
    | some stored =>
      cases happly : stored.apply entry.value with
      | error failure =>
        simp only [hfind, happly]
        exact .inl ⟨failure, rfl⟩
      | ok after =>
        simp only [hfind, happly]
        exact .inr (.observes entry stored after _ hfind happly)

/-- A step either refuses its call or writes what the call has no longer to write then. -/
theorem step_writes (stage : Stage) (world : World MemoryStore) :
    (stage.step world).1.Refused ∨
      Writes world.store stage.owed (stage.step world).1.owed (stage.replaced world.store)
        (stage.step world).2.store := by
  cases stage with
  | waiting update =>
    cases update with
    | one sample =>
      refine lookUp_writes true (fun entry hentry => ?_) world
      rw [Update.entries, Update.records, hentry]
      rfl
    | text kind name raw =>
      refine lookUp_writes false (fun entry hentry => ?_) world
      rw [Update.entries, Update.records, hentry]
      rfl
    | batch samples =>
      rw [step]
      cases hcheck : checkBatch samples with
      | error failure => exact .inl ⟨failure, rfl⟩
      | ok done =>
        obtain ⟨records, hmapM, hmap⟩ := Update.checkBatch_ok hcheck
        have hentries : (Update.batch samples).entries = records := by
          rw [Update.entries, Update.records, hcheck, hmapM]
          rfl
        right
        simp only [owed_applying hmap]
        rw [owed, hentries]
        exact .nothing records
  | creating record shows => exact .inr (creating_writes record shows world)
  | changing existing value shows => exact changing_writes existing value shows world
  | applying left all =>
    cases left with
    | nil =>
      have hstore : ((applying [] all).step world).2.store = world.store :=
        (Update.countUpdates_apply all world).2
      rw [hstore]
      exact .inr (.nothing [])
    | cons sample left => exact applying_writes sample left all world
  | showing name =>
    rw [step, Update.showStored, Action.bind_apply, get_apply]
    cases world.store.get? name with
    | none => exact .inl ⟨_, rfl⟩
    | some stored => exact .inr (.nothing [])
  | finished result => exact .inr (.nothing [])

end Stage

/-! ### Calls in progress together -/

def start (updates : List Update) (world : World MemoryStore) : Scene Stage (World MemoryStore) :=
  ⟨updates.map .waiting, world⟩

def AllDone (scene : Scene Stage (World MemoryStore)) : Prop :=
  ∀ stage ∈ scene.calls, ∃ answer, stage = .finished (.ok answer)

/-- The records that are replaced by insertions along a run, with those that are put there. -/
def replacements (scene : Scene Stage (World MemoryStore)) (schedule : List Nat) :
    List (Record × Record) :=
  scene.notes Stage.step (fun _ stage world => stage.replaced world.store) schedule

/-- What the replaced counters of a name come to. -/
def lost (name : String) (replaced : List (Record × Record)) : Int :=
  total (entriesOf name (replaced.map Prod.fst))

def outstanding (name : String) (scene : Scene Stage (World MemoryStore)) : Int :=
  total (entriesOf name (scene.calls.flatMap Stage.owed))

theorem lost_append (name : String) (replaced more : List (Record × Record)) :
    lost name (replaced ++ more) = lost name replaced + lost name more := by
  rw [lost, List.map_append, entriesOf_append, total_append]
  rfl

theorem lost_eq_zero {name : String} {replaced : List (Record × Record)}
    (h : ∀ pair ∈ replaced, pair.1.name = name → pair.1.value.amount = 0) :
    lost name replaced = 0 := by
  induction replaced with
  | nil => rfl
  | cons pair replaced ih =>
    have hrest : lost name replaced = 0 := ih fun other hmem => h other (List.mem_cons_of_mem _ hmem)
    rw [lost, List.map_cons, total_entriesOf_cons]
    by_cases hname : pair.1.name = name
    · rw [if_pos hname, h pair List.mem_cons_self hname]
      exact (Int.zero_add _).trans hrest
    · rw [if_neg hname]
      exact (Int.zero_add _).trans hrest

theorem outstanding_start (name : String) (updates : List Update) (world : World MemoryStore) :
    outstanding name (start updates world)
      = total (entriesOf name (updates.flatMap Update.entries)) := by
  rw [outstanding, start, List.flatMap_map]
  rfl

theorem outstanding_set {calls : List Stage} {i : Nat} {stage : Stage}
    (hstage : calls[i]? = some stage) (after : Stage) (name : String) :
    total (entriesOf name ((calls.set i after).flatMap Stage.owed))
        + total (entriesOf name stage.owed)
      = total (entriesOf name (calls.flatMap Stage.owed)) + total (entriesOf name after.owed) := by
  induction calls generalizing i with
  | nil => cases hstage
  | cons first rest ih =>
    cases i with
    | zero =>
      cases hstage
      simp only [List.set_cons_zero, List.flatMap_cons, entriesOf_append, total_append]
      omega
    | succ i =>
      have hrest := ih (i := i) hstage
      simp only [List.set_cons_succ, List.flatMap_cons, entriesOf_append, total_append]
      omega

theorem outstanding_allDone {scene : Scene Stage (World MemoryStore)} (h : AllDone scene)
    (name : String) : outstanding name scene = 0 := by
  have howed : scene.calls.flatMap Stage.owed = [] := by
    rw [List.flatMap_eq_nil_iff]
    intro stage hmem
    obtain ⟨answer, rfl⟩ := h stage hmem
    rfl
  rw [outstanding, howed]
  rfl

/-- What the names are worth, what is still to be written to them and what was lost of them come to
what there was when the calls started, and the metrics persist unless one was replaced by one of
another kind. -/
structure Consistent (initial reached : Scene Stage (World MemoryStore))
    (seen : List (Record × Record)) : Prop where
  worth (name : String) :
    reached.world.store.worth name + outstanding name reached + lost name seen
      = initial.world.store.worth name + outstanding name initial
  persists (hkinds : ∀ pair ∈ seen, pair.1.kind = pair.2.kind) :
    Persists initial.world.store reached.world.store

/-- A call was refused, or nothing was lost but what was replaced. -/
def Accounts (initial reached : Scene Stage (World MemoryStore)) (seen : List (Record × Record)) :
    Prop :=
  (∃ stage ∈ reached.calls, stage.Refused) ∨ Consistent initial reached seen

theorem Persists.refl (store : MemoryStore) : Persists store store :=
  fun _ record hrecord => ⟨record, hrecord, rfl⟩

theorem Persists.trans {first second third : MemoryStore} (h : Persists first second)
    (h' : Persists second third) : Persists first third := by
  intro name record hrecord
  obtain ⟨record', hrecord', hkind⟩ := h name record hrecord
  obtain ⟨record'', hrecord'', hkind'⟩ := h' name record' hrecord'
  exact ⟨record'', hrecord'', hkind'.trans hkind⟩

variable {initial scene : Scene Stage (World MemoryStore)} {seen : List (Record × Record)}

theorem Accounts.step (h : Accounts initial scene seen) {i : Nat} {stage : Stage}
    (hstage : scene.calls[i]? = some stage) :
    Accounts initial
      ⟨scene.calls.set i (stage.step scene.world).1, (stage.step scene.world).2⟩
      (seen ++ stage.replaced scene.world.store) := by
  have hmem : (stage.step scene.world).1 ∈ scene.calls.set i (stage.step scene.world).1 :=
    List.mem_of_getElem? (Scene.getElem?_set_of_some hstage _)
  rcases h with ⟨refused, hrefused, failure, rfl⟩ | h
  -- A call that was refused takes no further step, so it is still there.
  · refine .inl ⟨_, Scene.mem_set_of_fixed hstage hrefused ?_, failure, rfl⟩
    rintro rfl
    rfl
  · rcases stage.step_writes scene.world with hrefused | hwrites
    · exact .inl ⟨_, hmem, hrefused⟩
    · refine .inr ⟨fun name => ?_, fun hkinds => ?_⟩
      · have hstep := hwrites.worth name
        have hsum := outstanding_set hstage (stage.step scene.world).1 name
        have hbefore := h.worth name
        rw [lost_append]
        simp only [outstanding, lost] at hbefore hsum ⊢
        omega
      · rw [List.forall_mem_append] at hkinds
        exact (h.persists hkinds.1).trans (hwrites.persists hkinds.2)

theorem accounts_run (initial : Scene Stage (World MemoryStore)) (schedule : List Nat) :
    Accounts initial (initial.run Stage.step schedule) (replacements initial schedule) := by
  have hstart : Accounts initial initial [] :=
    .inr ⟨fun name => Int.add_zero _, fun _ => Persists.refl _⟩
  exact Scene.run_invariant (P := Accounts initial)
    (fun _ _ _ _ h hstage => h.step hstage) hstart schedule

theorem consistent_of_allDone {schedule : List Nat}
    (hdone : AllDone (initial.run Stage.step schedule)) :
    Consistent initial (initial.run Stage.step schedule) (replacements initial schedule) := by
  rcases accounts_run initial schedule with ⟨stage, hmem, failure, rfl⟩ | hconsistent
  · obtain ⟨answer, hanswer⟩ := hdone _ hmem
    cases hanswer
  · exact hconsistent

theorem replacement_seen {schedule : List Nat} {stored entry : Record}
    (hmem : (stored, entry) ∈ replacements initial schedule) :
    ∃ earlier i later, schedule = earlier ++ i :: later ∧
      (initial.run Stage.step earlier).world.store.get? entry.name = some stored ∧
      (initial.run Stage.step (earlier ++ [i])).world.store.get? entry.name = some entry := by
  obtain ⟨earlier, i, later, stage, hschedule, hstage, hnote⟩ := Scene.mem_notes hmem
  refine ⟨earlier, i, later, hschedule, ?_⟩
  rw [Scene.run_append, Scene.run, Scene.run, Scene.advance_of_some hstage]
  cases stage with
  | creating record shows => exact (Stage.creating_writes record shows _).replaced_by hnote
  | waiting => cases hnote
  | changing => cases hnote
  | applying => cases hnote
  | showing => cases hnote
  | finished => cases hnote

/-! ### What the calls leave -/

/-- Every counter is what it was before and what all calls added to it. -/
def CountsKept (updates : List Update) (world : World MemoryStore) (schedule : List Nat) : Prop :=
  ∀ name n, ((start updates world).run Stage.step schedule).world.store.get? name
      = some ⟨name, .counter n⟩ →
    n.toInt = world.store.worth name + total (entriesOf name (updates.flatMap Update.entries))

/-- Every metric that is stored at some time is stored in the end, as a metric of the same kind. -/
def KindsKept (updates : List Update) (world : World MemoryStore) (schedule : List Nat) : Prop :=
  ∀ earlier later, schedule = earlier ++ later →
    Persists ((start updates world).run Stage.step earlier).world.store
      ((start updates world).run Stage.step schedule).world.store

variable {updates : List Update} {world : World MemoryStore} {schedule : List Nat}

/-- When the calls are done, a name is worth what it was worth before and what the calls added, less
what was lost. -/
theorem worth_of_allDone (hdone : AllDone ((start updates world).run Stage.step schedule))
    (name : String) :
    ((start updates world).run Stage.step schedule).world.store.worth name
        + lost name (replacements (start updates world) schedule)
      = world.store.worth name + total (entriesOf name (updates.flatMap Update.entries)) := by
  have hname := (consistent_of_allDone hdone).worth name
  rw [outstanding_allDone hdone, outstanding_start] at hname
  have hworld : (start updates world).world = world := rfl
  rw [hworld] at hname
  omega

theorem kindsKept_iff (hdone : AllDone ((start updates world).run Stage.step schedule)) :
    KindsKept updates world schedule ↔
      ∀ pair ∈ replacements (start updates world) schedule, pair.1.kind = pair.2.kind := by
  constructor
  -- The name holds what is replaced before the insertion and the entry after it, and both must have
  -- the kind that it has in the end.
  · rintro hkept ⟨stored, entry⟩ hmem
    obtain ⟨earlier, i, later, rfl, hbefore, hafter⟩ := replacement_seen hmem
    obtain ⟨final, hfinal, hkind⟩ := hkept earlier (i :: later) rfl entry.name stored hbefore
    obtain ⟨final', hfinal', hkind'⟩ :=
      hkept (earlier ++ [i]) later (by rw [List.append_assoc]; rfl) entry.name entry hafter
    rw [hfinal] at hfinal'
    cases hfinal'
    exact hkind.symm.trans hkind'
  · rintro hkinds earlier later rfl
    rw [Scene.run_append] at hdone ⊢
    refine (consistent_of_allDone hdone).persists fun pair hmem => hkinds pair ?_
    rw [replacements, Scene.notes_append]
    exact List.mem_append_right _ hmem

/-- While the kinds are kept, a counter can only be lost of a name that is a counter in the end. -/
theorem lost_eq_zero_of_not_counter (hkept : KindsKept updates world schedule) {name : String}
    (hfinal : ∀ n, ((start updates world).run Stage.step schedule).world.store.get? name
      ≠ some ⟨name, .counter n⟩) :
    lost name (replacements (start updates world) schedule) = 0 := by
  apply lost_eq_zero
  rintro ⟨stored, entry⟩ hmem rfl
  obtain ⟨earlier, i, later, rfl, hbefore, _⟩ := replacement_seen hmem
  obtain ⟨final, hfound, hkind⟩ := hkept earlier (i :: later) rfl entry.name stored hbefore
  have hname : stored.name = entry.name := (Contents.find?_name hbefore).2
  obtain ⟨storedName, value⟩ := stored
  cases value with
  | gauge x => rfl
  | counter n =>
    have hfinalName : final.name = entry.name := (Contents.find?_name hfound).2
    obtain ⟨finalName, last⟩ := final
    cases last with
    | gauge y => cases hkind
    | counter k =>
      dsimp only at hname hfinalName hfinal
      subst hname hfinalName
      exact absurd hfound (hfinal k)

/-- Of calls that are all done, no update is lost and no metric changes its kind exactly when the
counters that insertions replace come to nothing, name by name, and an insertion never replaces a
metric of another kind. -/
theorem counts_and_kinds_kept_iff
    (hdone : AllDone ((start updates world).run Stage.step schedule)) :
    CountsKept updates world schedule ∧ KindsKept updates world schedule ↔
      (∀ name, lost name (replacements (start updates world) schedule) = 0) ∧
      ∀ pair ∈ replacements (start updates world) schedule, pair.1.kind = pair.2.kind := by
  rw [kindsKept_iff hdone]
  refine and_congr_left fun hkinds => ?_
  have hworth := worth_of_allDone hdone
  constructor
  · intro hcounts name
    by_cases hfinal : ∃ n, ((start updates world).run Stage.step schedule).world.store.get? name
        = some ⟨name, .counter n⟩
    · obtain ⟨n, hfinal⟩ := hfinal
      have hname := hworth name
      rw [worth, hfinal, ← hcounts name n hfinal] at hname
      change n.toInt + _ = _ at hname
      omega
    · exact lost_eq_zero_of_not_counter ((kindsKept_iff hdone).2 hkinds) (not_exists.1 hfinal)
  · intro hlost name n hfinal
    have hname := hworth name
    rw [worth, hfinal, hlost] at hname
    change n.toInt + _ = _ at hname
    omega

/-- One after the other, two updates that create and then increase a counter both count. -/
theorem counts_and_kinds_kept_in_turn :
    let world : World MemoryStore := ⟨MemoryStore.empty, ⟨[], Counters.empty, 0⟩⟩
    let updates : List Update := [.one (Sample.counter "a" 1), .one (Sample.counter "a" 2)]
    let schedule := [0, 0, 0, 1, 1, 1]
    AllDone ((start updates world).run Stage.step schedule) ∧
      CountsKept updates world schedule ∧ KindsKept updates world schedule := by
  intro world updates schedule
  have hcalls : ((start updates world).run Stage.step schedule).calls
      = [.finished (.ok (.shown (Sample.counter "a" 1))),
        .finished (.ok (.shown (Sample.counter "a" 3)))] := rfl
  have hdone : AllDone ((start updates world).run Stage.step schedule) := by
    intro stage hmem
    rw [hcalls] at hmem
    simp only [List.mem_cons, List.not_mem_nil, or_false] at hmem
    rcases hmem with rfl | rfl <;> exact ⟨_, rfl⟩
  have hnone : replacements (start updates world) schedule = [] := rfl
  refine ⟨hdone, (counts_and_kinds_kept_iff hdone).2 ?_⟩
  rw [hnone]
  exact ⟨fun _ => rfl, nofun⟩

/-- Two updates that both find no counter both create it, and only the second one counts. -/
theorem counts_lost_of_two_creations :
    let world : World MemoryStore := ⟨MemoryStore.empty, ⟨[], Counters.empty, 0⟩⟩
    let updates : List Update := [.one (Sample.counter "a" 1), .one (Sample.counter "a" 2)]
    let schedule := [0, 1, 0, 1, 0, 1]
    AllDone ((start updates world).run Stage.step schedule) ∧
      ¬ CountsKept updates world schedule := by
  intro world updates schedule
  have hcalls : ((start updates world).run Stage.step schedule).calls
      = [.finished (.ok (.shown (Sample.counter "a" 2))),
        .finished (.ok (.shown (Sample.counter "a" 2)))] := rfl
  have hfinal : ((start updates world).run Stage.step schedule).world.store.get? "a"
      = some ⟨"a", .counter 2⟩ := rfl
  constructor
  · intro stage hmem
    rw [hcalls] at hmem
    simp only [List.mem_cons, List.not_mem_nil, or_false] at hmem
    rcases hmem with rfl | rfl <;> exact ⟨_, rfl⟩
  · intro hcounts
    exact absurd (hcounts "a" 2 hfinal) (by decide)

end MemoryStore

end Telemetry
