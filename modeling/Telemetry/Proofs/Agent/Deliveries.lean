import Telemetry.Agent.Pipeline
import Telemetry.Proofs.Service.Separate
import Telemetry.Proofs.Store.Order

/-!
# One report, sent in two ways

A report is what an agent has stored, one sample for each name. It reaches the server in one batch, or
sample by sample as the workers of a pool come to it. The server treats each request as a whole, so
what the workers do comes down to an order of the samples and a time for each. Whatever the order,
each sample is answered as it would have been answered first, and the server ends up with the same
records; and the batch is taken exactly when every sample is, and leaves these records as well. Where
the store can be written this follows from its contents, and where it can only be read from the fact
that nothing is taken but a batch of nothing.
-/

namespace Telemetry.Agent

open Service (applySample applyBatch)
open Service.Update (Takes TakesAll applied)

section

variable {σ : Type} [Repository σ]

/-- Delivers samples one by one, each at its own time, and gives their outcomes. -/
def deliver : List (Nat × Sample) → World σ → List (Except Failure Sample) × World σ
  | [], server => ([], server)
  | (now, sample) :: rest, server =>
    let (outcome, after) := applySample sample (server.setTime now)
    let (outcomes, last) := deliver rest after
    (outcome :: outcomes, last)

variable {m : Medium} (faithful : Repository.Faithful σ m) {server other : World σ} {c c' : Contents}
  {sample : Sample}

/-! ### One delivery -/

theorem perform_one_eq (sample : Sample) (server : World σ) :
    (Service.Update.one sample).perform server
      = ((applySample sample server).1.map .shown, (applySample sample server).2) :=
  Action.bind_pure_apply (applySample sample) Service.Answer.shown server

theorem exists_ok_iff {α β γ : Type} {first : Except Failure α} {second : Except Failure β}
    {f : α → γ} {g : β → γ} (h : first.map f = second.map g) :
    (∃ a, first = .ok a) ↔ ∃ b, second = .ok b := by
  cases first <;> cases second <;> simp_all [Except.map]

theorem exists_ok_unit_iff {result : Except Failure Unit} :
    (∃ a, result = .ok a) ↔ result = .ok () := by
  cases result <;> simp

theorem shows_delivered (h : faithful.Shows server.store c) (sample : Sample) :
    faithful.Shows (applySample sample server).2.store (applied m c sample) := by
  obtain ⟨-, hshows⟩ := Service.Update.performs faithful h (.one sample)
  rw [perform_one_eq] at hshows
  exact hshows

theorem delivered_iff (h : faithful.Shows server.store c) (sample : Sample) :
    (∃ shown, (applySample sample server).1 = .ok shown) ↔ Takes m c sample := by
  obtain ⟨hresult, -⟩ := Service.Update.performs faithful h (.one sample)
  rw [perform_one_eq] at hresult
  rw [Takes, exists_ok_iff hresult, exists_ok_unit_iff]

theorem outcome_congr (h : faithful.Shows server.store c) (h' : faithful.Shows other.store c')
    (hsame : c sample.id = c' sample.id) :
    (applySample sample server).1 = (applySample sample other).1 := by
  obtain ⟨hresult, -⟩ := Service.Update.performs faithful h (.one sample)
  obtain ⟨hresult', -⟩ := Service.Update.performs faithful h' (.one sample)
  obtain ⟨htaken, hstored⟩ := Service.Update.effect_congr (m := m) hsame
  have hanswer : Service.Update.shown (applied m c sample) sample.id
      = Service.Update.shown (applied m c' sample) sample.id := by
    rw [Service.Update.shown, Service.Update.shown, Contents.record?, Contents.record?, hstored]
  have hshown : (applySample sample server).1.map Service.Answer.shown
      = (applySample sample other).1.map Service.Answer.shown := by
    rw [perform_one_eq] at hresult hresult'
    refine hresult.trans (Eq.trans ?_ hresult'.symm)
    rw [htaken]
    exact congrArg (fun answer => Except.map (fun _ => answer) _) hanswer
  generalize (applySample sample server).1 = left at hshown ⊢
  generalize (applySample sample other).1 = right at hshown ⊢
  cases left <;> cases right <;> simp_all [Except.map]

/-! ### All deliveries -/

variable {deliveries : List (Nat × Sample)}

theorem shows_deliver (h : faithful.Shows server.store c) (deliveries : List (Nat × Sample)) :
    faithful.Shows (deliver deliveries server).2.store
      ((deliveries.map Prod.snd).foldl (applied m) c) := by
  induction deliveries generalizing server c with
  | nil => exact h
  | cons delivery deliveries ih =>
    obtain ⟨now, sample⟩ := delivery
    have htime : faithful.Shows (server.setTime now).store c := h
    exact ih (shows_delivered faithful htime sample)

/-- Samples with different names are answered as if each was the first. -/
theorem outcomes_deliver (h : faithful.Shows server.store c) (h' : faithful.Shows other.store c')
    (hdistinct : ((deliveries.map Prod.snd).map Sample.id).Nodup)
    (hsame : ∀ delivery ∈ deliveries, c delivery.2.id = c' delivery.2.id) :
    (deliver deliveries server).1
      = deliveries.map fun delivery => (applySample delivery.2 other).1 := by
  induction deliveries generalizing server c with
  | nil => rfl
  | cons delivery deliveries ih =>
    obtain ⟨now, sample⟩ := delivery
    rw [List.map_cons, List.map_cons, List.nodup_cons] at hdistinct
    have htime : faithful.Shows (server.setTime now).store c := h
    have hfirst : (applySample sample (server.setTime now)).1 = (applySample sample other).1 :=
      outcome_congr faithful htime h' (hsame (now, sample) List.mem_cons_self)
    have hrest := ih (shows_delivered faithful htime sample) hdistinct.2 fun later hmem => by
      have hne : later.2.id ≠ sample.id := fun heq =>
        hdistinct.1 (heq ▸ List.mem_map_of_mem (List.mem_map_of_mem hmem))
      rw [Service.Update.applied_of_ne hne]
      exact hsame later (List.mem_cons_of_mem _ hmem)
    exact congrArg₂ List.cons hfirst hrest

/-! ### The batch -/

theorem perform_batch_eq (samples : List Sample) (server : World σ) :
    (Service.Update.batch samples).perform server
      = ((applyBatch samples server).1.map fun _ => .done, (applyBatch samples server).2) :=
  Action.bind_pure_apply (applyBatch samples) (fun _ => Service.Answer.done) server

theorem applyBatch_iff (h : faithful.Shows server.store c) (samples : List Sample) :
    (applyBatch samples server).1 = .ok () ↔ TakesAll m c samples := by
  obtain ⟨hresult, -⟩ := Service.Update.performs faithful h (.batch samples)
  rw [perform_batch_eq] at hresult
  have heffect : ((Service.Update.batch samples).effect m c).1 = .ok () ↔ TakesAll m c samples := by
    constructor
    · intro hdone
      exact (Service.Update.effect_batch_iff.1 (Prod.ext hdone rfl)).1
    · intro htakes
      rw [Service.Update.effect_batch_iff.2 ⟨htakes, rfl⟩]
  rw [← heffect, ← exists_ok_unit_iff, exists_ok_iff hresult, exists_ok_unit_iff]

theorem shows_applyBatch (h : faithful.Shows server.store c) {samples : List Sample}
    (htakes : TakesAll m c samples) :
    faithful.Shows (applyBatch samples server).2.store (samples.foldl (applied m) c) := by
  obtain ⟨-, hshows⟩ := Service.Update.performs faithful h (.batch samples)
  rw [perform_batch_eq, Service.Update.effect_batch_iff.2 ⟨htakes, rfl⟩] at hshows
  exact hshows

/-! ### A store that only reads -/

variable {store : σ}

theorem refuses_applySample (h : Repository.OnlyReads store) (sample : Sample) :
    (applySample sample : Action σ Sample).Refuses store :=
  Action.Steady.refuses ⟨_, Action.gives_ofResult _ _⟩ fun _ => (h.upsert sample).first

theorem refuses_applyBatch (h : Repository.OnlyReads store) (sample : Sample)
    (samples : List Sample) : (applyBatch (sample :: samples) : Action σ Unit).Refuses store :=
  Action.Steady.refuses ⟨_, Action.gives_ofResult _ _⟩ fun _ => (h.batch sample samples).first

theorem gives_applyBatch_nil (h : Repository.OnlyReads store) :
    (applyBatch [] : Action σ Unit).Gives store (.ok ()) :=
  (Action.gives_ofResult (.ok ()) store).bind
    (h.batch_nil.bind (Action.gives_ofResult (.ok ()) store))

/-- Nothing is taken, and so each delivery finds what the first has found. -/
theorem deliver_onlyReads (h : Repository.OnlyReads store) (host : Host)
    (deliveries : List (Nat × Sample)) (hserver : server.store = store) :
    (deliver deliveries server).1
        = deliveries.map (fun delivery => (applySample delivery.2 ⟨store, host⟩).1) ∧
      (deliver deliveries server).2.store = store := by
  induction deliveries generalizing server with
  | nil => exact ⟨rfl, hserver⟩
  | cons delivery deliveries ih =>
    obtain ⟨now, sample⟩ := delivery
    obtain ⟨failure, hfailure⟩ := refuses_applySample h sample
    obtain ⟨hresult, hafter⟩ := hfailure (server.setTime now).host
    rw [← hserver] at hresult hafter
    have hstays : (applySample sample (server.setTime now)).2.store = store := hafter.trans hserver
    obtain ⟨houtcomes, hstore⟩ := ih hstays
    exact ⟨congrArg₂ List.cons (hresult.trans (hfailure host).1.symm) houtcomes, hstore⟩

end

/-! ### The two ways -/

theorem ids_snapshot (agent : MemoryStore) :
    (snapshot agent).map Sample.id = agent.records.map Record.name := by
  rw [snapshot, List.map_map]
  apply List.map_congr_left
  intro record _
  obtain ⟨name, value⟩ := record
  cases value <;> rfl

/-- Samples that are delivered in either of two orders, or in a batch at some time, are answered alike
and leave the same. -/
structure Agree (server : World Store) (deliveries deliveries' : List (Nat × Sample))
    (batch : List Sample) (now : Nat) : Prop where
  outcomes : (deliver deliveries server).1
    = deliveries.map fun delivery => (applySample delivery.2 server).1
  orders : (deliver deliveries server).2.store.Alike (deliver deliveries' server).2.store
  taken : (applyBatch batch (server.setTime now)).1 = .ok () ↔
    ∀ outcome ∈ (deliver deliveries server).1, ∃ shown, outcome = .ok shown
  batched : (applyBatch batch (server.setTime now)).1 = .ok () →
    (applyBatch batch (server.setTime now)).2.store.Alike (deliver deliveries server).2.store

section

variable {server : World Store} {deliveries deliveries' : List (Nat × Sample)} {batch : List Sample}

theorem agree_of_shows {m : Medium} {c : Contents} (faithful : Repository.Faithful Store m)
    (hshows : faithful.Shows server.store c)
    (halike : ∀ left right c, faithful.Shows left c → faithful.Shows right c → left.Alike right)
    {samples : List Sample} (hdistinct : (samples.map Sample.id).Nodup)
    (hall : (deliveries.map Prod.snd).Perm samples)
    (hall' : (deliveries'.map Prod.snd).Perm samples) (hbatch : batch.Perm samples) (now : Nat) :
    Agree server deliveries deliveries' batch now := by
  have hnodup {order : List Sample} (hperm : order.Perm samples) : (order.map Sample.id).Nodup :=
    (hperm.map Sample.id).nodup_iff.2 hdistinct
  have hfinal {order : List Sample} (hperm : order.Perm samples) :
      order.foldl (applied m) c = samples.foldl (applied m) c :=
    Service.Update.foldl_applied_perm hperm (hnodup hperm) c
  have hdelivered {deliveries : List (Nat × Sample)}
      (hall : (deliveries.map Prod.snd).Perm samples) :
      faithful.Shows (deliver deliveries server).2.store (samples.foldl (applied m) c) := by
    rw [← hfinal hall]
    exact shows_deliver faithful hshows deliveries
  have houtcomes := outcomes_deliver faithful hshows hshows (hnodup hall) fun _ _ => rfl
  have htime : faithful.Shows (server.setTime now).store c := hshows
  refine ⟨houtcomes, halike _ _ _ (hdelivered hall) (hdelivered hall'), ?_, fun hdone => ?_⟩
  · rw [applyBatch_iff faithful htime, Service.Update.takesAll_iff (hnodup hbatch), houtcomes,
      List.forall_mem_map]
    simp only [delivered_iff faithful hshows, hbatch.mem_iff, ← hall.mem_iff, List.forall_mem_map]
  · have hafter := shows_applyBatch faithful htime ((applyBatch_iff faithful htime batch).1 hdone)
    rw [hfinal hbatch] at hafter
    exact halike _ _ _ hafter (hdelivered hall)

theorem agree_of_onlyReads (hreads : Repository.OnlyReads server.store)
    (halike : server.store.Alike server.store) {samples : List Sample}
    (hall : (deliveries.map Prod.snd).Perm samples) (hbatch : batch.Perm samples) (now : Nat) :
    Agree server deliveries deliveries' batch now := by
  obtain ⟨houtcomes, hstore⟩ := deliver_onlyReads hreads server.host deliveries rfl
  obtain ⟨-, hstore'⟩ := deliver_onlyReads hreads server.host deliveries' rfl
  have hsame : (deliver deliveries server).2.store.Alike (deliver deliveries' server).2.store := by
    rw [hstore, hstore']
    exact halike
  cases batch with
  | nil =>
    obtain ⟨hdone, hafter⟩ := gives_applyBatch_nil hreads (server.setTime now).host
    have hkept : (applyBatch [] (server.setTime now)).2.store = server.store := hafter
    obtain rfl : deliveries = [] := List.map_eq_nil_iff.1 (hall.trans hbatch.symm).eq_nil
    refine ⟨houtcomes, hsame, ⟨fun _ _ hmem => ?_, fun _ => hdone⟩, fun _ => ?_⟩
    · cases hmem
    · rw [hkept, hstore]
      exact halike
  | cons sample rest =>
    obtain ⟨failure, hfailure⟩ := refuses_applyBatch hreads sample rest
    have hrefused : (applyBatch (sample :: rest) (server.setTime now)).1 = .error failure :=
      (hfailure (server.setTime now).host).1
    have hsent : sample ∈ deliveries.map Prod.snd :=
      (hall.trans hbatch.symm).mem_iff.2 List.mem_cons_self
    obtain ⟨delivery, hmem, rfl⟩ := List.mem_map.1 hsent
    obtain ⟨reason, hreason⟩ := refuses_applySample hreads delivery.2
    have hlost : .error reason ∈ (deliver deliveries server).1 := by
      rw [houtcomes]
      exact List.mem_map.2 ⟨delivery, hmem, (hreason server.host).1⟩
    refine ⟨houtcomes, hsame, ⟨fun hdone => ?_, fun hall => ?_⟩, fun hdone => ?_⟩
    · rw [hrefused] at hdone
      cases hdone
    · obtain ⟨shown, hshown⟩ := hall _ hlost
      cases hshown
    · rw [hrefused] at hdone
      cases hdone

end

/-- **A batch and a pool deliver the same report.** Of the samples of an agent, each is answered alike
in every order and at all times, and the server has the same records afterwards; a batch of them, in
any order, is done exactly when each is taken, and the server then has these records too. -/
theorem batch_and_pool_agree {agent : MemoryStore} {server : World Store}
    (hagent : (agent.records.map Record.name).Nodup) (hserver : server.store.InOrder)
    {deliveries deliveries' : List (Nat × Sample)} {batch : List Sample}
    (hall : (deliveries.map Prod.snd).Perm (snapshot agent))
    (hall' : (deliveries'.map Prod.snd).Perm (snapshot agent)) (hbatch : batch.Perm (snapshot agent))
    (now : Nat) : Agree server deliveries deliveries' batch now := by
  cases hreadOnly : server.store.isReadOnly with
  | true =>
    obtain ⟨hreads, halike⟩ := hserver.onlyReads hreadOnly
    exact agree_of_onlyReads hreads halike hall hbatch now
  | false =>
    obtain ⟨m, faithful, c, hshows, halike⟩ := hserver.shows hreadOnly
    have hdistinct : ((snapshot agent).map Sample.id).Nodup := by
      rw [ids_snapshot]
      exact hagent
    exact agree_of_shows faithful hshows halike hdistinct hall hall' hbatch now

/-- One counter is added to and another is new, one by one in either order or in a batch. -/
theorem batch_and_pool_agree_two :
    let agent : MemoryStore := ⟨[⟨"a", .counter 2⟩, ⟨"b", .counter 5⟩]⟩
    let server : World Store :=
      ⟨.sql ⟨⟨some [⟨"a", .counter, none, .integer 1⟩], none⟩, none, false, true⟩,
        ⟨[], Counters.empty, 0⟩⟩
    let first : Sample := Sample.counter "a" 2
    let second : Sample := Sample.counter "b" 5
    snapshot agent = [first, second] ∧
      (deliver [(1, first), (4, second)] server).1
        = [.ok (Sample.counter "a" 3), .ok (Sample.counter "b" 5)] ∧
      (deliver [(1, first), (4, second)] server).2.store.Alike
        (deliver [(2, second), (3, first)] server).2.store ∧
      (applyBatch [second, first] (server.setTime 9)).1 = .ok () ∧
      (applyBatch [second, first] (server.setTime 9)).2.store.Alike
        (deliver [(1, first), (4, second)] server).2.store := by
  intro agent server first second
  have hagent : (agent.records.map Record.name).Nodup := by decide
  have hserver : server.store.InOrder := by
    refine ⟨rfl, [⟨"a", .counter 1⟩], rfl, by decide, fun record hmem => ?_⟩
    rw [List.mem_singleton.1 hmem]
    decide
  have hall : ([(1, first), (4, second)].map Prod.snd).Perm (snapshot agent) := .refl _
  have hall' : ([(2, second), (3, first)].map Prod.snd).Perm (snapshot agent) := .swap _ _ _
  have hbatch : [second, first].Perm (snapshot agent) := .swap _ _ _
  have houtcomes : (deliver [(1, first), (4, second)] server).1
      = [.ok (Sample.counter "a" 3), .ok (Sample.counter "b" 5)] := by
    decide +kernel
  have hagree := batch_and_pool_agree hagent hserver hall hall' hbatch 9
  have hdone : (applyBatch [second, first] (server.setTime 9)).1 = .ok () := by
    rw [hagree.taken, houtcomes]
    simp
  exact ⟨rfl, houtcomes, hagree.orders, hdone, hagree.batched hdone⟩

end Telemetry.Agent
