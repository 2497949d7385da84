import Telemetry.Agent.Aggregation
import Telemetry.Proofs.Service.Update
import Telemetry.Proofs.Store.Memory
import Telemetry.Proofs.Store.Mutation

/-!
# Queues that are merged

What becomes of an event depends on what is stored under its name, and only that can change. So the
events of one name have the same fates and leave the same value whatever events of other names stand
between them, and in particular whether these are accepted or not. Where no name occurs in two queues,
the events of a name all come from one queue, in its order, and every merge of the queues does what
emptying them one after another does.
-/

namespace Telemetry

open Number

/-! ### Merges -/

def named (name : String) (events : List Sample) : List Sample :=
  events.filter fun event => event.id == name

/-- The queues have no name in common. -/
def Apart (left right : List Sample) : Prop := ∀ a ∈ left, ∀ b ∈ right, a.id ≠ b.id

/-- The list has the items of all queues, those of each queue in its order. -/
inductive Merged {α : Type} : List (List α) → List α → Prop where
  | done {queues : List (List α)} (h : ∀ queue ∈ queues, queue = []) : Merged queues []
  | take {before after : List (List α)} {item : α} {queue items : List α}
    (h : Merged (before ++ queue :: after) items) :
    Merged (before ++ (item :: queue) :: after) (item :: items)

theorem Merged.perm {α : Type} {queues : List (List α)} {items : List α} (h : Merged queues items) :
    items.Perm queues.flatten := by
  induction h with
  | done hempty => rw [List.flatten_eq_nil_iff.2 hempty]
  | take _ ih =>
    rw [List.flatten_append, List.flatten_cons] at ih ⊢
    exact (ih.cons _).trans List.perm_middle.symm

/-- A queue may be taken from several times in a row. -/
theorem Merged.takeAll {α : Type} {before after : List (List α)} {queue items : List α}
    (h : Merged (before ++ queue :: after) items) (first : List α) :
    Merged (before ++ (first ++ queue) :: after) (first ++ items) := by
  induction first with
  | nil => exact h
  | cons item first ih => exact ih.take

section

variable {name : String} {queue queue' : List Sample} {before after queues : List (List Sample)}
  {events : List Sample}

theorem named_append (events more : List Sample) :
    named name (events ++ more) = named name events ++ named name more := List.filter_append ..

theorem named_cons_self (event : Sample) (events : List Sample) :
    named event.id (event :: events) = event :: named event.id events :=
  List.filter_cons_of_pos (beq_self_eq_true event.id)

theorem named_cons_of_ne {event : Sample} (hne : event.id ≠ name) (events : List Sample) :
    named name (event :: events) = named name events :=
  List.filter_cons_of_neg (by simpa using hne)

theorem named_eq_nil_of_apart {event : Sample} (hevent : event ∈ queue')
    (hqueues : ∀ queue ∈ queues, Apart queue queue') : named event.id queues.flatten = [] := by
  rw [named, List.filter_eq_nil_iff]
  intro other hother hname
  obtain ⟨queue, hqueue, hmem⟩ := List.mem_flatten.1 hother
  exact hqueues queue hqueue other hmem event hevent (beq_iff_eq.1 hname)

theorem Apart.tail {event : Sample}
    (h : (before ++ (event :: queue) :: after).Pairwise Apart) :
    (before ++ queue :: after).Pairwise Apart := by
  rw [List.pairwise_append, List.pairwise_cons] at h ⊢
  obtain ⟨hbefore, ⟨hqueue, hafter⟩, hacross⟩ := h
  refine ⟨hbefore, ⟨?_, hafter⟩, ?_⟩
  · intro other hother a ha b hb
    exact hqueue other hother a (List.mem_cons_of_mem event ha) b hb
  · intro first hfirst other hother a ha b hb
    rcases List.mem_cons.1 hother with rfl | hother
    · exact hacross first hfirst _ List.mem_cons_self a ha b (List.mem_cons_of_mem event hb)
    · exact hacross first hfirst other (List.mem_cons_of_mem _ hother) a ha b hb

/-- The events of a name are in a merge what they are in the queues, one after another. -/
theorem Merged.named_eq (h : Merged queues events) (hapart : queues.Pairwise Apart) (name : String) :
    named name events = named name queues.flatten := by
  induction h with
  | done hempty => rw [List.flatten_eq_nil_iff.2 hempty]
  | @take before after event queue events _ ih =>
    have hrest := ih (Apart.tail hapart)
    rw [List.flatten_append, List.flatten_cons, named_append] at hrest ⊢
    by_cases hname : event.id = name
    · subst hname
      have hbefore : named event.id before.flatten = [] := by
        have hmem : event ∈ event :: queue := List.mem_cons_self
        apply named_eq_nil_of_apart hmem
        intro first hfirst
        exact (List.pairwise_append.1 hapart).2.2 first hfirst _ List.mem_cons_self
      rw [hbefore, List.nil_append] at hrest ⊢
      rw [named_cons_self, hrest, List.cons_append, named_cons_self]
    · rw [named_cons_of_ne hname, hrest, List.cons_append, named_cons_of_ne hname]

end

/-! ### What contents do with events -/

namespace Contents

/-- Whether an event is accepted, and the contents after it. -/
def settle (m : Medium) (c : Contents) (event : Sample) : Bool × Contents :=
  ((c.enter m event.toRecord).1.isOk, (c.enter m event.toRecord).2)

/-- Events with whether they are accepted, one after another, and the contents after them. -/
def settleAll (m : Medium) : Contents → List Sample → List (Sample × Bool) × Contents
  | c, [] => ([], c)
  | c, event :: events =>
    ((event, (c.settle m event).1) :: (settleAll m (c.settle m event).2 events).1,
      (settleAll m (c.settle m event).2 events).2)

def fatesOf (name : String) (verdicts : List (Sample × Bool)) : List (Sample × Bool) :=
  verdicts.filter fun verdict => verdict.1.id == name

variable {m : Medium} {c c' : Contents} {name : String} {event : Sample}

theorem settle_of_ne (hne : name ≠ event.id) : (c.settle m event).2 name = c name := by
  rw [settle]
  cases hrecord : event.toRecord with
  | error failure => rfl
  | ok record =>
    obtain ⟨hname, -⟩ := Sample.toRecord_ok hrecord
    exact write_of_ne (hname ▸ hne)

theorem settle_congr (h : c event.id = c' event.id) :
    (c.settle m event).1 = (c'.settle m event).1 ∧
      (c.settle m event).2 event.id = (c'.settle m event).2 event.id := by
  rw [settle, settle]
  cases hrecord : event.toRecord with
  | error failure => exact ⟨rfl, h⟩
  | ok record =>
    obtain ⟨hname, -⟩ := Sample.toRecord_ok hrecord
    rw [← hname] at h ⊢
    obtain ⟨hresult, hvalue⟩ := write_congr (m := m) h
    exact ⟨congrArg Except.isOk hresult, hvalue⟩

theorem settle_of_next {record : Record} {value : Value} (hrecord : event.toRecord = .ok record)
    (hnext : m.next record (c record.name) = .ok value) :
    c.settle m event = (true, c.set record.name value) := by
  rw [settle, hrecord, enter, write, hnext]
  rfl

theorem settleAll_append (first more : List Sample) :
    c.settleAll m (first ++ more) =
      ((c.settleAll m first).1 ++ ((c.settleAll m first).2.settleAll m more).1,
        ((c.settleAll m first).2.settleAll m more).2) := by
  induction first generalizing c with
  | nil => rfl
  | cons event first ih => rw [List.cons_append, settleAll, settleAll, ih, List.cons_append]

/-- The fates of the events of a name, and the value that they leave there, are those that they have
without the other events. -/
theorem settleAll_named (h : c name = c' name) (events : List Sample) :
    fatesOf name (c.settleAll m events).1 = (c'.settleAll m (named name events)).1 ∧
      (c.settleAll m events).2 name = (c'.settleAll m (named name events)).2 name := by
  induction events generalizing c c' with
  | nil => exact ⟨rfl, h⟩
  | cons event events ih =>
    rw [settleAll]
    by_cases hname : event.id = name
    · subst hname
      obtain ⟨hfate, hvalue⟩ := settle_congr (m := m) h
      obtain ⟨hfates, hlast⟩ := ih hvalue
      rw [named_cons_self, settleAll, hfate, ← hfates]
      exact ⟨List.filter_cons_of_pos (beq_self_eq_true event.id), hlast⟩
    · have hkept : (c.settle m event).2 name = c' name := (settle_of_ne (Ne.symm hname)).trans h
      obtain ⟨hfates, hlast⟩ := ih hkept
      rw [named_cons_of_ne hname, ← hfates]
      exact ⟨List.filter_cons_of_neg (by simpa using hname), hlast⟩

/-- Events that stand in one order for each name have the same fates and leave the same contents. -/
theorem settleAll_perm {left right : List Sample} (h : ∀ name, named name left = named name right) :
    (c.settleAll m left).1.Perm (c.settleAll m right).1 ∧
      (c.settleAll m left).2 = (c.settleAll m right).2 := by
  have hboth (name : String) := settleAll_named (m := m) (rfl : c name = c name)
  constructor
  · rw [List.perm_iff_count]
    intro verdict
    have hown (verdicts : List (Sample × Bool)) :
        (fatesOf verdict.1.id verdicts).count verdict = verdicts.count verdict :=
      List.count_filter (beq_self_eq_true verdict.1.id)
    rw [← hown, (hboth verdict.1.id left).1, h, ← (hboth verdict.1.id right).1, hown]
  · funext name
    rw [(hboth name left).2, h, ← (hboth name right).2]

end Contents

/-! ### What a repository does with events -/

namespace Agent

section

variable {σ : Type} [Repository σ]

/-- Applies events and tells of each whether it was accepted. -/
def verdicts : List Sample → Action σ (List (Sample × Bool))
  | [] => pure []
  | event :: events => do
    let accepted ← accepts event
    let rest ← verdicts events
    pure ((event, accepted) :: rest)

/-- Empties queues one after another, and gives the number of events that were accepted. -/
def drain : List (List Sample) → Action σ Nat
  | [] => pure 0
  | queue :: queues => do
    let first ← aggregate queue
    let rest ← drain queues
    pure (first + rest)

theorem aggregate_eq (events : List Sample) : (aggregate events : Action σ Nat)
    = verdicts events >>= fun all => pure (all.countP Prod.snd) := by
  induction events with
  | nil => rfl
  | cons event events ih =>
    rw [aggregate, verdicts, Action.bind_assoc]
    apply Action.bind_congr
    intro accepted
    rw [ih, Action.bind_assoc, Action.bind_assoc]
    apply Action.bind_congr
    intro all
    change (pure _ : Action σ Nat) = pure _
    rw [List.countP_cons]
    cases accepted <;> rfl

theorem aggregate_append (events more : List Sample) : (aggregate (events ++ more) : Action σ Nat)
    = aggregate events >>= fun first => aggregate more >>= fun rest => pure (first + rest) := by
  induction events with
  | nil =>
    funext world
    change aggregate more world = (aggregate more >>= fun rest => pure (0 + rest)) world
    rw [Action.bind_apply]
    rcases (aggregate more : Action σ Nat) world with ⟨failure | rest, after⟩
    · rfl
    · exact congrArg (fun applied => (Except.ok applied, after)) (Nat.zero_add rest).symm
  | cons event events ih =>
    rw [List.cons_append, aggregate, aggregate, Action.bind_assoc]
    apply Action.bind_congr
    intro accepted
    rw [ih, Action.bind_assoc, Action.bind_assoc]
    apply Action.bind_congr
    intro first
    change _ = aggregate more >>= fun rest => _
    rw [Action.bind_assoc]
    apply Action.bind_congr
    intro rest
    change (pure _ : Action σ Nat) = pure _
    cases accepted
    · rfl
    · exact congrArg pure (Nat.add_right_comm first rest 1)

theorem drain_eq (queues : List (List Sample)) :
    (drain queues : Action σ Nat) = aggregate queues.flatten := by
  induction queues with
  | nil => rfl
  | cons queue queues ih => rw [drain, ih, List.flatten_cons, aggregate_append]

variable {m : Medium} (faithful : Repository.Faithful σ m) {world : World σ} {c : Contents}

theorem accepts_apply (h : faithful.Shows world.store c) (event : Sample) :
    ∃ after, accepts event world = (.ok (c.settle m event).1, after) ∧
      faithful.Shows after.store (c.settle m event).2 := by
  rw [accepts, Contents.settle]
  rcases (faithful.upsert h event).cases with ⟨after, c', hdone, henter, hshows⟩ |
    ⟨failure, after, c', hdone, henter, hshows⟩
  · rw [hdone, henter]
    exact ⟨after, rfl, hshows⟩
  · rw [hdone, henter]
    exact ⟨after, rfl, hshows⟩

theorem verdicts_apply (h : faithful.Shows world.store c) (events : List Sample) :
    ∃ after, verdicts events world = (.ok (c.settleAll m events).1, after) ∧
      faithful.Shows after.store (c.settleAll m events).2 := by
  induction events generalizing world c with
  | nil => exact ⟨world, rfl, h⟩
  | cons event events ih =>
    obtain ⟨middle, haccepts, hmiddle⟩ := accepts_apply faithful h event
    obtain ⟨after, hverdicts, hafter⟩ := ih hmiddle
    refine ⟨after, ?_, hafter⟩
    rw [verdicts, Action.bind_apply, haccepts]
    simp only [Action.bind_apply, hverdicts]
    rfl

theorem aggregate_apply (h : faithful.Shows world.store c) (events : List Sample) :
    ∃ after, aggregate events world = (.ok ((c.settleAll m events).1.countP Prod.snd), after) ∧
      faithful.Shows after.store (c.settleAll m events).2 := by
  obtain ⟨after, hverdicts, hafter⟩ := verdicts_apply faithful h events
  refine ⟨after, ?_, hafter⟩
  rw [aggregate_eq, Action.bind_apply, hverdicts]
  rfl

end

/-! ### The store of an agent -/

/-- The store cannot take an event: it is not in order, the metric of its name is of the other kind, or
the sum would leave the signed 64-bit integers. -/
inductive Rejected (store : MemoryStore) (event : Sample) : Prop where
  | invalid (failure : Failure) (h : event.validate = .error failure)
  | kind (stored : Record) (hstored : store.get? event.id = some stored)
    (hkind : stored.kind ≠ event.kind)
  | sum (n delta : Int64) (hstored : store.get? event.id = some ⟨event.id, .counter n⟩)
    (hkind : event.kind = .counter) (hdelta : event.delta = some delta)
    (hsum : fitsInt64 (n.toInt + delta.toInt) = false)

theorem toRecord_counter {event : Sample} {record : Record} {delta : Int64}
    (hkind : event.kind = .counter) (hdelta : event.delta = some delta)
    (h : event.toRecord = .ok record) : record = ⟨event.id, .counter delta⟩ := by
  obtain ⟨id, _, _, value⟩ := event
  cases hkind
  cases hdelta
  rw [Sample.toRecord] at h
  split at h
  · cases h
  · exact (Except.ok.inj h).symm

theorem delta_of_toRecord {event : Sample} {record : Record} {delta : Int64}
    (hvalue : record.value = .counter delta) (h : event.toRecord = .ok record) :
    event.kind = .counter ∧ event.delta = some delta := by
  obtain ⟨hname, hnamed, hkind, -⟩ := Sample.toRecord_ok h
  have hcounter : event.kind = .counter := by
    rw [← hkind, Record.kind, hvalue]
    rfl
  refine ⟨hcounter, ?_⟩
  obtain ⟨id, _, delta', value⟩ := event
  cases hcounter
  rw [Sample.toRecord, if_neg (hname ▸ hnamed)] at h
  cases delta' with
  | none => cases value <;> cases h
  | some other =>
    cases h
    cases hvalue
    rfl

variable {store : MemoryStore} {c : Contents} {event : Sample}

theorem rejected_of_settle (h : store.Shows c) (hsettle : (c.settle .memory event).1 = false) :
    Rejected store event := by
  rw [Contents.settle] at hsettle
  cases hrecord : event.toRecord with
  | error failure =>
    refine .invalid failure ?_
    rw [Sample.validate, hrecord]
    rfl
  | ok record =>
    obtain ⟨hname, -, hkind, -⟩ := Sample.toRecord_ok hrecord
    have hget := h.get? event.id
    rw [Contents.record?, ← hname] at hget
    rw [hrecord, Contents.enter, Contents.write] at hsettle
    cases hstored : c record.name with
    | none =>
      rw [hstored] at hsettle
      cases hsettle
    | some stored =>
      rw [hstored] at hget hsettle
      cases hnext : Medium.memory.next record (some stored) with
      | ok value =>
        rw [hnext] at hsettle
        cases hsettle
      | error failure =>
        rw [hname] at hget
        obtain ⟨hother, -⟩ | ⟨n, delta, rfl, hvalue, hsum, -⟩ := Medium.next_error hnext
        · exact .kind _ hget (hkind ▸ hother)
        · obtain ⟨hcounter, hdelta⟩ := delta_of_toRecord hvalue hrecord
          exact .sum n delta hget hcounter hdelta hsum

theorem Rejected.settle (h : store.Shows c) (hrejected : Rejected store event) :
    (c.settle .memory event).1 = false := by
  rw [Contents.settle]
  cases hrecord : event.toRecord with
  | error failure => rfl
  | ok record =>
    obtain ⟨hname, -, hkind, -⟩ := Sample.toRecord_ok hrecord
    have hfound {stored : Record} (hstored : store.get? event.id = some stored) :
        c record.name = some stored.value := by
      rw [h.get?, ← hname] at hstored
      obtain ⟨value, hvalue, rfl⟩ := Option.map_eq_some_iff.1 hstored
      exact hvalue
    rw [Contents.enter]
    cases hrejected with
    | invalid failure hinvalid =>
      rw [Sample.validate, hrecord] at hinvalid
      cases hinvalid
    | kind stored hstored hdiffers =>
      rw [Contents.write_mismatch .memory (hfound hstored) (hkind ▸ hdiffers)]
      rfl
    | sum n delta hstored hcounter hdelta hsum =>
      have hwrite := hfound hstored
      obtain rfl := toRecord_counter hcounter hdelta hrecord
      have hnone : addExact? n delta = none := if_neg (by rw [hsum]; exact Bool.false_ne_true)
      rw [Contents.write, hwrite]
      simp only [Medium.next, Record.apply, hnone]
      rfl

theorem accepts_rejected {event : Sample} {world after : World MemoryStore}
    (h : accepts event world = (.ok false, after)) : after = world := by
  rw [accepts] at h
  rcases hupsert : Repository.upsert event world with ⟨failure | ⟨⟨⟩⟩, last⟩ <;> rw [hupsert] at h
  · cases h
    have hperform : (Repository.Mutation.upsert event).perform world = (.error failure, after) :=
      hupsert
    have hhost := MemoryStore.keepsHost_perform (.upsert event) world
    rw [hperform] at hhost
    obtain hstore | ⟨_, _, _, hbatch, -⟩ := MemoryStore.perform_error hperform
    · cases after
      cases hstore
      cases hhost
      rfl
    · cases hbatch
  · cases h

/-- Every merge of queues without common names does what emptying the queues one after another does: as
many events are accepted, and the store is the same up to the order of its records. The fates of the
events of a name are those that they have alone. An event is rejected exactly when the store cannot
take it then, and leaves no trace. -/
theorem merged_is_drained {queues : List (List Sample)} {events : List Sample}
    (hmerged : Merged queues events) (hapart : queues.Pairwise Apart) {world : World MemoryStore}
    (hnames : (world.store.records.map Record.name).Nodup) :
    (∃ applied, (aggregate events world).1 = .ok applied ∧ (drain queues world).1 = .ok applied) ∧
    ((aggregate events world).2.store.records.map Record.name).Nodup ∧
    (aggregate events world).2.store.records.Perm (drain queues world).2.store.records ∧
    (∀ name, ∃ all own, (verdicts events world).1 = .ok all ∧
      (verdicts (named name events) world).1 = .ok own ∧ Contents.fatesOf name all = own) ∧
    ∀ first event last, events = first ++ event :: last →
      let moment := (aggregate first world).2
      (accepts event moment = (.ok false, moment) ↔ Rejected moment.store event) ∧
        ((accepts event moment).1 = .ok true ↔ ¬ Rejected moment.store event) := by
  have hshows : world.store.Shows (Contents.ofRecords world.store.records) := ⟨hnames, rfl⟩
  generalize Contents.ofRecords world.store.records = c at hshows
  obtain ⟨merged, hmerge, hafter⟩ := aggregate_apply MemoryStore.faithful hshows events
  obtain ⟨drained, hdrain, hlast⟩ := aggregate_apply MemoryStore.faithful hshows queues.flatten
  obtain ⟨hperm, hsame⟩ := Contents.settleAll_perm (m := .memory) (c := c) (hmerged.named_eq hapart)
  rw [drain_eq, hmerge, hdrain]
  refine ⟨⟨_, rfl, ?_⟩, hafter.1, ?_, ?_, ?_⟩
  · exact congrArg Except.ok (hperm.symm.countP_eq _)
  · rw [hsame] at hafter
    exact hafter.lists.perm hlast.lists
  · intro name
    obtain ⟨_, hall, -⟩ := verdicts_apply MemoryStore.faithful hshows events
    obtain ⟨_, hown, -⟩ := verdicts_apply MemoryStore.faithful hshows (named name events)
    rw [hall, hown]
    exact ⟨_, _, rfl, rfl, (Contents.settleAll_named rfl events).1⟩
  · rintro first event last - moment
    obtain ⟨_, hfirst, hmoment⟩ := aggregate_apply MemoryStore.faithful hshows first
    have hstore : moment.store.Shows (c.settleAll .memory first).2 := by
      show (aggregate first world).2.store.Shows _
      rw [hfirst]
      exact hmoment
    obtain ⟨after, haccepts, -⟩ := accepts_apply MemoryStore.faithful hstore event
    have hrejected : Rejected moment.store event ↔
        ((c.settleAll .memory first).2.settle .memory event).1 = false :=
      ⟨fun h => h.settle hstore, rejected_of_settle hstore⟩
    rw [hrejected, haccepts]
    cases hfate : ((c.settleAll .memory first).2.settle .memory event).1 with
    | true => simp
    | false =>
      rw [hfate] at haccepts
      rw [accepts_rejected haccepts]
      simp

/-- Two queues that take turns; the gauge finds a counter of its name. -/
theorem merged_is_drained_mismatch :
    let world : World MemoryStore := ⟨MemoryStore.empty, ⟨[], Counters.empty, 0⟩⟩
    let queues := [[Sample.counter "a" 1, .gauge "a" .zero, .counter "a" 1], [.gauge "b" .zero]]
    let events := [Sample.counter "a" 1, .gauge "b" .zero, .gauge "a" .zero, .counter "a" 1]
    Merged queues events ∧ queues.Pairwise Apart ∧
      (aggregate events world).1 = .ok 3 ∧ (drain queues world).1 = .ok 3 := by
  intro world queues events
  have hmerged : Merged queues events :=
    @Merged.take _ [] _ _ _ _ <| @Merged.take _ [[_, _]] _ _ _ _ <| @Merged.take _ [] _ _ _ _ <|
      @Merged.take _ [] _ _ _ _ (.done (by simp))
  have hapart : queues.Pairwise Apart := by
    refine List.pairwise_pair.2 ?_
    intro left hleft right hright
    simp only [List.mem_cons, List.not_mem_nil, or_false] at hleft hright
    obtain rfl | rfl | rfl := hleft <;> subst hright <;> decide
  have hnames : (world.store.records.map Record.name).Nodup := List.nodup_nil
  obtain ⟨⟨applied, hmerge, hdrain⟩, -⟩ := merged_is_drained hmerged hapart hnames
  have hthree : (aggregate events world).1 = .ok 3 := rfl
  rw [hthree] at hmerge
  exact ⟨hmerged, hapart, hthree, hdrain.trans hmerge.symm⟩

end Agent

end Telemetry
