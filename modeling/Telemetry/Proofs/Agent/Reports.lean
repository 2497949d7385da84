import Telemetry.Agent.Pipeline
import Telemetry.Proofs.Service.Accounting
import Telemetry.Proofs.Store.Mutation

/-!
# Reports of an agent to a server

An agent adds up the events of a counter and reports the sum, and a server adds what is reported to
the sum that it has. So the server counts in every report what earlier reports have told it already.
What it holds of a counter after a report is the exact sum of what the agent held at all reports so
far, and it agrees with the agent exactly when what the earlier reports told comes to zero. Gauges
are replaced and do agree.

Along a run the entries of the server are the records of the stores that were reported, one after
another; the account of the server is kept over them, and the account of the agent over its events.
-/

namespace Telemetry.Agent

open Number

/-- The way to a server that receives every report. -/
def direct : Transport Store where
  sendOne sample := do
    let _ ← Service.applySample sample
    pure ()
  sendAll samples := Service.applyBatch samples

/-- What a report leaves of the server. -/
def reported (schedule : Schedule) (cancel : Cancellation) (records : List Record)
    (server : World Store) : World Store :=
  (sendReport direct schedule cancel (snapshot ⟨records⟩) server).2

/-- An agent and a server that both started empty, and the stores of the agent that were reported.
The agent receives events and sends reports in any order of its records, each of which is delivered
and applied once; meanwhile time passes. -/
inductive Run : World MemoryStore → World Store → List MemoryStore → Prop where
  | start {agent : World MemoryStore} {server : World Store}
    (hagent : agent.store = MemoryStore.empty) (hserver : server.store.Fresh) : Run agent server []
  | event {agent : World MemoryStore} {server : World Store} {reports : List MemoryStore}
    (h : Run agent server reports) (event : Sample) : Run (accepts event agent).2 server reports
  | report {agent : World MemoryStore} {server : World Store} {reports : List MemoryStore}
    (h : Run agent server reports) {records : List Record}
    (horder : records.Perm agent.store.records) {schedule : Schedule}
    (hdelays : schedule.delays ≠ []) {cancel : Cancellation}
    (hlive : cancel.reached server.host.now = false)
    (happlied : (Service.applyBatch (snapshot ⟨records⟩) server).1 = .ok ()) :
    Run agent (reported schedule cancel records server) (reports ++ [agent.store])
  | passes {agent : World MemoryStore} {server : World Store} {reports : List MemoryStore}
    (h : Run agent server reports) (atAgent atServer : Host) :
    Run { agent with host := atAgent } { server with host := atServer } reports

def entries (reports : List MemoryStore) : List Record := reports.flatMap MemoryStore.records

/-- Two metrics of a name agree: both are absent, or both have one value. Two gauges have one value
when they are numerically equal. -/
def SameValue : Option Value → Option Value → Prop
  | none, none => True
  | some (.counter n), some (.counter k) => n = k
  | some (.gauge x), some (.gauge y) => x.plain = y.plain
  | _, _ => False

/-- The server has the metrics of a store and no others. -/
def Agrees (store : MemoryStore) (server : World Store) : Prop :=
  ∀ name, ∃ stored, Repository.get name server = (.ok stored, server) ∧
    SameValue ((store.get? name).map Record.value) (stored.map Record.value)

/-- What a server holds under a name, next to what the last report told it: to a counter the earlier
reports have added what they told. -/
inductive Holds (earlier : List MemoryStore) (name : String) :
    Option Value → Option Value → Prop where
  | absent (hearlier : total (entriesOf name (entries earlier)) = 0) :
    Holds earlier name none none
  | counter (n k : Int64) (hsum : k.toInt = n.toInt + total (entriesOf name (entries earlier))) :
    Holds earlier name (some (.counter n)) (some (.counter k))
  | gauge (x y : Binary64) (hsame : x.plain = y.plain)
    (hearlier : total (entriesOf name (entries earlier)) = 0) :
    Holds earlier name (some (.gauge x)) (some (.gauge y))

/-! ### Entries -/

theorem entries_append (reports : List MemoryStore) (store : MemoryStore) :
    entries (reports ++ [store]) = entries reports ++ store.records := by
  simp [entries]

theorem entriesOf_distinct {records : List Record} (hdistinct : (records.map Record.name).Nodup)
    (name : String) :
    entriesOf name records = (records.find? fun record => record.name == name).toList := by
  unfold entriesOf
  induction records with
  | nil => rfl
  | cons record records ih =>
    rw [List.map_cons, List.nodup_cons] at hdistinct
    rw [List.filter_cons, List.find?_cons]
    by_cases hname : (record.name == name) = true
    · have hothers : records.filter (fun other => other.name == name) = [] := by
        rw [List.filter_eq_nil_iff]
        intro other hmem hother
        have hsame : other.name = record.name :=
          (beq_iff_eq.1 hother).trans (beq_iff_eq.1 hname).symm
        exact hdistinct.1 (hsame ▸ List.mem_map_of_mem hmem)
      simp [hname, hothers]
    · simp only [hname, Bool.false_eq_true, if_false]
      exact ih hdistinct.2

theorem entriesOf_perm {left right : List Record} (hperm : left.Perm right)
    (hdistinct : (right.map Record.name).Nodup) (name : String) :
    entriesOf name left = entriesOf name right := by
  have hsame : (entriesOf name left).Perm (entriesOf name right) := hperm.filter _
  rw [entriesOf_distinct hdistinct] at hsame ⊢
  cases hfound : right.find? fun record => record.name == name with
  | none =>
    rw [hfound] at hsame
    exact hsame.eq_nil
  | some record =>
    rw [hfound] at hsame
    exact List.perm_singleton.1 hsame

theorem total_of_gauges {records : List Record} (h : ∀ record ∈ records, record.kind = .gauge) :
    total records = 0 := by
  induction records with
  | nil => rfl
  | cons record records ih =>
    obtain ⟨name, value⟩ := record
    have hkind := h ⟨name, value⟩ List.mem_cons_self
    have hrest := ih fun other hmem => h other (List.mem_cons_of_mem _ hmem)
    cases value with
    | counter n => cases hkind
    | gauge x => rw [total, hrest]; rfl

/-! ### The account of the agent -/

/-- The agent has these contents, and they are what some events come to. -/
def Keeps (agent : World MemoryStore) (c : Contents) : Prop :=
  agent.store.Shows c ∧ ∃ events, c.Balances events

theorem Keeps.wellFormed {agent : World MemoryStore} {c : Contents} (h : Keeps agent c) :
    ∀ record ∈ agent.store.records, record.name ≠ "" ∧ record.value.isFinite = true := by
  obtain ⟨hshows, events, hbalances⟩ := h
  intro record hmem
  have hstored := (hshows.lists.2 record).1 hmem
  have hrecord := hbalances record.name
  rw [Contents.record?, hstored] at hrecord
  refine ⟨hrecord.named, ?_⟩
  have hvalue := hrecord.value
  obtain ⟨name, value⟩ := record
  cases value with
  | counter n => rfl
  | gauge x => exact hvalue.1

/-- An event is applied or dropped, and no metric goes away. -/
theorem Keeps.event {agent : World MemoryStore} {c : Contents} (h : Keeps agent c)
    (event : Sample) : ∃ c', Keeps (accepts event agent).2 c' ∧
      ∀ name, (c name).isSome → (c' name).isSome := by
  obtain ⟨hshows, events, hbalances⟩ := h
  have hworld : (accepts event agent).2 = (Repository.upsert event agent).2 := by
    unfold accepts
    rcases Repository.upsert event agent with ⟨failure | done, after⟩ <;> rfl
  rw [hworld]
  cases hrecord : event.toRecord with
  | error failure =>
    refine ⟨c, ⟨?_, events, hbalances⟩, fun _ hname => hname⟩
    rw [Repository.upsert, hrecord]
    exact hshows
  | ok record =>
    obtain ⟨_, hnamed, _, hfinite⟩ := Sample.toRecord_ok hrecord
    have hwrite := MemoryStore.faithful.write hshows record hfinite
    rw [MemoryStore.upsert_apply hrecord, hshows.get?]
    rcases hwrite.cases with ⟨after, c', hdone, hwritten, hafter⟩ |
      ⟨failure, after, c', hdone, hrefused, hafter⟩ <;> rw [hdone]
    · refine ⟨c', ⟨hafter, _, hbalances.write hnamed hfinite hwritten⟩, ?_⟩
      intro name hname
      obtain ⟨value, _, rfl⟩ := Contents.write_ok_iff.1 hwritten
      by_cases hsame : name = record.name
      · rw [hsame, Contents.set_self]
        rfl
      · rwa [Contents.set_of_ne c value hsame]
    · obtain ⟨_, rfl⟩ := Contents.write_error_iff.1 hrefused
      exact ⟨c', ⟨hafter, events, hbalances⟩, fun _ hname => hname⟩

/-! ### The account of the server -/

variable {server : World Store} {records : List Record}

theorem reported_eq (hsome : records ≠ []) {schedule : Schedule} (hdelays : schedule.delays ≠ [])
    {cancel : Cancellation} (hlive : cancel.reached server.host.now = false)
    (happlied : (Service.applyBatch (snapshot ⟨records⟩) server).1 = .ok ()) :
    reported schedule cancel records server = (Service.applyBatch (snapshot ⟨records⟩) server).2 := by
  have hattempt : direct.sendAll (snapshot ⟨records⟩) server
      = (.ok (), (Service.applyBatch (snapshot ⟨records⟩) server).2) := Prod.ext happlied rfl
  have hrun := Schedule.run_first hdelays hlive hattempt
  have hsent : (snapshot ⟨records⟩).isEmpty = false := by
    cases records with
    | nil => exact absurd rfl hsome
    | cons record records => rfl
  rw [reported, sendReport, hsent, if_neg Bool.false_ne_true, Action.bind_apply, hrun]
  rfl

theorem perform_of_applied {samples : List Sample}
    (happlied : (Service.applyBatch samples server).1 = .ok ()) :
    (Service.Update.batch samples).perform server
      = (.ok .done, (Service.applyBatch samples server).2) := by
  rw [Service.Update.perform, Action.bind_apply]
  rcases happly : Service.applyBatch samples server with ⟨failure | done, after⟩
  · rw [happly] at happlied
    cases happlied
  · rfl

theorem records_snapshot
    (hrecords : ∀ record ∈ records, record.name ≠ "" ∧ record.value.isFinite = true)
    (happlied : (Service.applyBatch (snapshot ⟨records⟩) server).1 = .ok ()) :
    (Service.Update.batch (snapshot ⟨records⟩)).records = .ok records := by
  have hcheck : Service.checkBatch (snapshot ⟨records⟩) = .ok () := by
    cases hresult : Service.checkBatch (snapshot ⟨records⟩) with
    | ok done => rfl
    | error failure =>
      rw [Service.applyBatch, Action.bind_apply, hresult] at happlied
      cases happlied
  obtain ⟨described, hmapM, hmap⟩ := Service.Update.checkBatch_ok hcheck
  have hsame := hmap.symm.trans (Service.Update.map_toRecord_ofRecord hrecords)
  have hdescribed : described = records :=
    (List.map_inj_right fun _ _ heq => Except.ok.inj heq).1 hsame
  rw [hdescribed] at hmapM
  rw [Service.Update.records, hcheck]
  exact hmapM

/-- A report that is applied adds its records to the entries of the server. -/
theorem report_accounts {m : Medium} (backend : Store.Backend m) {c : Contents} {told : List Record}
    (h : backend.Shows server.store c) (hbalances : c.Balances told)
    (hrecords : ∀ record ∈ records, record.name ≠ "" ∧ record.value.isFinite = true)
    {schedule : Schedule} (hdelays : schedule.delays ≠ []) {cancel : Cancellation}
    (hlive : cancel.reached server.host.now = false)
    (happlied : (Service.applyBatch (snapshot ⟨records⟩) server).1 = .ok ()) :
    ∃ after, backend.Shows (reported schedule cancel records server).store after ∧
      after.Balances (told ++ records) := by
  by_cases hsome : records = []
  · subst hsome
    rw [List.append_nil]
    exact ⟨c, h, hbalances⟩
  · have hdone := perform_of_applied happlied
    have haccepted :
        (Service.Update.batch (snapshot ⟨records⟩)).accepted server = records := by
      rw [Service.Update.accepted, records_snapshot hrecords happlied, hdone]
    obtain ⟨_, hafter⟩ :=
      Service.Update.perform_accounts backend h hbalances (.batch (snapshot ⟨records⟩))
    rw [haccepted, hdone] at hafter
    rw [reported_eq hsome hdelays hlive happlied]
    exact hafter

/-! ### Runs -/

/-- What is known of a run. -/
structure Tracks (agent : World MemoryStore) (server : World Store) (reports : List MemoryStore) :
    Prop where
  kept : ∃ c, Keeps agent c
  told : ∃ (m : Medium) (backend : Store.Backend m) (c : Contents),
    backend.Shows server.store c ∧ c.Balances (entries reports)
  distinct : ∀ store ∈ reports, (store.records.map Record.name).Nodup
  ongoing : ∀ store ∈ reports, ∀ name, (store.get? name).isSome → (agent.store.get? name).isSome
  growing : reports.Pairwise fun store later =>
    ∀ name, (store.get? name).isSome → (later.get? name).isSome

theorem Tracks.event {agent : World MemoryStore} {reports : List MemoryStore}
    (h : Tracks agent server reports) (event : Sample) :
    Tracks (accepts event agent).2 server reports := by
  obtain ⟨⟨c, hkept⟩, htold, hdistinct, hongoing, hgrowing⟩ := h
  obtain ⟨c', hafter, hnames⟩ := hkept.event event
  refine ⟨⟨c', hafter⟩, htold, hdistinct, ?_, hgrowing⟩
  intro store hmem name hname
  have hbefore := hongoing store hmem name hname
  rw [hkept.1.get?, Contents.record?, Option.isSome_map] at hbefore
  rw [hafter.1.get?, Contents.record?, Option.isSome_map]
  exact hnames name hbefore

theorem Tracks.report {agent : World MemoryStore} {reports : List MemoryStore}
    (h : Tracks agent server reports) (hperm : records.Perm agent.store.records)
    {schedule : Schedule} (hdelays : schedule.delays ≠ []) {cancel : Cancellation}
    (hlive : cancel.reached server.host.now = false)
    (happlied : (Service.applyBatch (snapshot ⟨records⟩) server).1 = .ok ()) :
    Tracks agent (reported schedule cancel records server) (reports ++ [agent.store]) := by
  obtain ⟨⟨c, hkept⟩, ⟨m, backend, c', hshows, hbalances⟩, hdistinct, hongoing, hgrowing⟩ := h
  have hwellFormed : ∀ record ∈ records, record.name ≠ "" ∧ record.value.isFinite = true :=
    fun record hmem => hkept.wellFormed record (hperm.mem_iff.1 hmem)
  obtain ⟨after, hafter, htold⟩ :=
    report_accounts backend hshows hbalances hwellFormed hdelays hlive happlied
  have hnodup : (agent.store.records.map Record.name).Nodup := hkept.1.1
  refine ⟨⟨c, hkept⟩, ⟨m, backend, after, hafter, ?_⟩, ?_, ?_, ?_⟩
  · intro name
    have hname := htold name
    rw [entriesOf_append, entriesOf_perm hperm hnodup, ← entriesOf_append] at hname
    rw [entries_append]
    exact hname
  · intro store hmem
    rcases List.mem_append.1 hmem with hmem | hmem
    · exact hdistinct store hmem
    · rw [List.mem_singleton.1 hmem]
      exact hnodup
  · intro store hmem
    rcases List.mem_append.1 hmem with hmem | hmem
    · exact hongoing store hmem
    · rw [List.mem_singleton.1 hmem]
      exact fun _ hname => hname
  · rw [List.pairwise_append]
    refine ⟨hgrowing, List.pairwise_singleton _ _, ?_⟩
    intro store hmem later hlater
    rw [List.mem_singleton.1 hlater]
    exact hongoing store hmem

theorem Run.tracks {agent : World MemoryStore} {reports : List MemoryStore}
    (h : Run agent server reports) : Tracks agent server reports := by
  induction h with
  | @start agent server hagent hserver =>
    obtain ⟨m, backend, hshows⟩ := hserver.shows
    have hempty : agent.store.Shows Contents.empty := by
      rw [hagent]
      exact ⟨List.nodup_nil, rfl⟩
    exact ⟨⟨_, hempty, [], Contents.balances_empty⟩,
      ⟨m, backend, _, hshows, Contents.balances_empty⟩, nofun, nofun, .nil⟩
  | event _ event ih => exact ih.event event
  | report _ horder hdelays hlive happlied ih => exact ih.report horder hdelays hlive happlied
  | passes _ atAgent atServer ih =>
    obtain ⟨⟨c, hkept⟩, htold, hdistinct, hongoing, hgrowing⟩ := ih
    exact ⟨⟨c, hkept⟩, htold, hdistinct, hongoing, hgrowing⟩

/-! ### What the server is told -/

theorem entriesOf_earlier {earlier : List MemoryStore} {name : String}
    (h : ∀ store ∈ earlier, store.get? name = none) : entriesOf name (entries earlier) = [] := by
  rw [entriesOf, List.filter_eq_nil_iff]
  intro record hmem hname
  obtain ⟨store, hstore, hrecord⟩ := List.mem_flatMap.1 hmem
  exact List.find?_eq_none.1 (h store hstore) record hrecord hname

theorem holds_of_balances {earlier : List MemoryStore} {name : String} {record stored : Record}
    (h : stored.Balances (entriesOf name (entries earlier) ++ [record])) :
    Holds earlier name (some record.value) (some stored.value) := by
  have hkind : record.kind = stored.kind := h.kinds record (by simp)
  have hvalue := h.value
  obtain ⟨_, value⟩ := record
  obtain ⟨_, stored⟩ := stored
  cases stored with
  | counter k =>
    cases value with
    | gauge x => cases hkind
    | counter n =>
      have hsum := hvalue.1
      rw [total_append, total_singleton, Int.add_comm] at hsum
      exact .counter n k hsum
  | gauge y =>
    cases value with
    | counter n => cases hkind
    | gauge x =>
      obtain ⟨_, told, z, hlast, htold, hsame⟩ := hvalue
      rw [List.getLast?_concat] at hlast
      cases hlast
      cases htold
      refine .gauge x y hsame.symm (total_of_gauges ?_)
      intro entry hmem
      exact h.kinds entry (List.mem_append_left _ hmem)

theorem Tracks.holds {agent : World MemoryStore} {earlier : List MemoryStore} {last : MemoryStore}
    (h : Tracks agent server (earlier ++ [last])) (name : String) :
    ∃ stored, Repository.get name server = (.ok stored, server) ∧
      Holds earlier name ((last.get? name).map Record.value) (stored.map Record.value) := by
  obtain ⟨_, ⟨m, backend, c, hshows, hbalances⟩, hdistinct, _, hgrowing⟩ := h
  refine ⟨c.record? name, backend.get hshows name, ?_⟩
  have hname := hbalances name
  have hlast : entriesOf name last.records = (last.get? name).toList :=
    entriesOf_distinct (hdistinct last (by simp)) name
  rw [entries_append, entriesOf_append, hlast] at hname
  cases htold : last.get? name with
  | none =>
    have hearlier : entriesOf name (entries earlier) = [] := by
      apply entriesOf_earlier
      intro store hmem
      have hkept := (List.pairwise_append.1 hgrowing).2.2 store hmem last List.mem_cons_self name
      rw [htold] at hkept
      exact Option.not_isSome_iff_eq_none.1 fun hsome => Bool.false_ne_true (hkept hsome)
    rw [htold, hearlier] at hname
    cases hstored : c.record? name with
    | none => exact .absent (by rw [hearlier]; rfl)
    | some stored =>
      rw [hstored] at hname
      cases hname.first
  | some record =>
    rw [htold] at hname
    cases hstored : c.record? name with
    | none =>
      rw [hstored] at hname
      exact absurd hname (List.append_ne_nil_of_right_ne_nil _ (List.cons_ne_nil _ _))
    | some stored =>
      rw [hstored] at hname
      exact holds_of_balances hname

theorem Holds.sameValue_iff {earlier : List MemoryStore} {name : String} {told held : Option Value}
    (h : Holds earlier name told held) :
    SameValue told held ↔ total (entriesOf name (entries earlier)) = 0 := by
  cases h with
  | absent hearlier => exact iff_of_true trivial hearlier
  | gauge x y hsame hearlier => exact iff_of_true hsame hearlier
  | counter n k hsum =>
    change n = k ↔ _
    rw [← Int64.toInt_inj]
    omega

/-- After a report the server holds of every counter the sum of what the agent held at all reports so
far. It agrees with the agent exactly when the earlier reports come to zero for every counter. -/
theorem reports_add_up {agent : World MemoryStore} {earlier : List MemoryStore} {last : MemoryStore}
    (h : Run agent server (earlier ++ [last])) :
    (∀ name, ∃ stored, Repository.get name server = (.ok stored, server) ∧
      Holds earlier name ((last.get? name).map Record.value) (stored.map Record.value)) ∧
    (Agrees last server ↔ ∀ name, total (entriesOf name (entries earlier)) = 0) := by
  have hholds := h.tracks.holds
  refine ⟨hholds, ?_⟩
  constructor
  · intro hagrees name
    obtain ⟨stored, hget, hheld⟩ := hholds name
    obtain ⟨same, hsame, hvalue⟩ := hagrees name
    rw [hget] at hsame
    cases hsame
    exact hheld.sameValue_iff.1 hvalue
  · intro hzero name
    obtain ⟨stored, hget, hheld⟩ := hholds name
    exact ⟨stored, hget, hheld.sameValue_iff.2 (hzero name)⟩

/-- The first report. -/
theorem reports_add_up_first :
    let host : Host := ⟨[], Counters.empty, 0⟩
    let agent := (accepts (Sample.counter "a" 1) ⟨MemoryStore.empty, host⟩).2
    let server := reported .standard none agent.store.records ⟨.memory MemoryStore.empty, host⟩
    Run agent server [agent.store] ∧ Agrees agent.store server := by
  intro host agent server
  have hstart : Run ⟨MemoryStore.empty, host⟩ ⟨.memory MemoryStore.empty, host⟩ [] := .start rfl rfl
  have hevent := hstart.event (Sample.counter "a" 1)
  have hrun : Run agent server ([] ++ [agent.store]) :=
    hevent.report (.refl _) (List.cons_ne_nil _ _) rfl rfl
  exact ⟨hrun, (reports_add_up hrun).2.2 fun _ => rfl⟩

/-- A counter that is reported twice counts twice. -/
theorem counter_told_twice :
    let host : Host := ⟨[], Counters.empty, 0⟩
    let agent := (accepts (Sample.counter "a" 1) ⟨MemoryStore.empty, host⟩).2
    let once := reported .standard none agent.store.records ⟨.memory MemoryStore.empty, host⟩
    let twice := reported .standard none agent.store.records once
    Run agent twice [agent.store, agent.store] ∧
      agent.store.get? "a" = some ⟨"a", .counter 1⟩ ∧
      Repository.get "a" twice = (.ok (some ⟨"a", .counter 2⟩), twice) ∧
      ¬ Agrees agent.store twice := by
  intro host agent once twice
  have hstart : Run ⟨MemoryStore.empty, host⟩ ⟨.memory MemoryStore.empty, host⟩ [] := .start rfl rfl
  have hevent := hstart.event (Sample.counter "a" 1)
  have hfirst : Run agent once ([] ++ [agent.store]) :=
    hevent.report (.refl _) (List.cons_ne_nil _ _) rfl rfl
  have hsecond : Run agent twice ([] ++ [agent.store] ++ [agent.store]) :=
    hfirst.report (.refl _) (List.cons_ne_nil _ _) rfl rfl
  have hagent : agent.store.get? "a" = some ⟨"a", .counter 1⟩ := rfl
  have hserver : Repository.get "a" twice = (.ok (some ⟨"a", .counter 2⟩), twice) := rfl
  refine ⟨hsecond, hagent, hserver, ?_⟩
  intro hagrees
  obtain ⟨stored, hget, hsame⟩ := hagrees "a"
  rw [hserver] at hget
  cases hget
  rw [hagent] at hsame
  have hequal : (1 : Int64) = 2 := hsame
  exact absurd hequal (by decide)

end Telemetry.Agent
