import Telemetry.Proofs.Agent.Dealings
import Mathlib.Data.List.Nodup

/-!
# Every event of a pool is accounted for

The history of a pool is the list of its deeds. Four things are kept along a run: each event that
was accepted is in one place, and the deeds about it are as its place says; no attempt begins after
cancellation; nothing is closed, left or abandoned before it; and the metrics that were reported are
the events that were accepted, in order, and those still offered. Together they say what has become
of every event when the pool has nothing more to do.
-/

namespace Telemetry.Agent

variable {schedule : Schedule} {worker : Nat} {history deeds : List Deed} {parcel : Parcel}
  {fate : Fate} {cancelled : Bool}

namespace Pool

variable {pool after : Pool} {move : Move}

/-- The deeds of a history are about events that were accepted; each of these is in one place, and
the deeds about it are as its place says. -/
structure Accounted (schedule : Schedule) (pool : Pool) (history : List Deed) : Prop where
  places : (pool.whereabouts.map Prod.fst).Perm (acceptedIn history)
  tickets : (acceptedIn history).map Parcel.ticket = List.range pool.accepted
  known : ∀ deed ∈ history, ∀ parcel, deed.parcel? = some parcel → parcel ∈ acceptedIn history
  fits : ∀ parcel status, (parcel, status) ∈ pool.whereabouts →
    status.Fits schedule (dealings parcel history)

theorem Accounted.nodup (h : Accounted schedule pool history) :
    (pool.whereabouts.map Prod.fst).Nodup := by
  rw [h.places.nodup_iff]
  apply List.Nodup.of_map Parcel.ticket
  rw [h.tickets]
  exact List.nodup_range

theorem Accounted.mem_iff (h : Accounted schedule pool history) :
    .accepted parcel ∈ history ↔ ∃ status, (parcel, status) ∈ pool.whereabouts := by
  rw [← mem_acceptedIn, ← h.places.mem_iff, List.mem_map]
  constructor
  · rintro ⟨⟨_, status⟩, hmem, rfl⟩
    exact ⟨status, hmem⟩
  · rintro ⟨status, hmem⟩
    exact ⟨_, hmem, rfl⟩

theorem Accounted.ticket_lt (h : Accounted schedule pool history)
    (hparcel : parcel ∈ acceptedIn history) : parcel.ticket < pool.accepted := by
  rw [← List.mem_range, ← h.tickets]
  exact List.mem_map_of_mem hparcel

theorem Accounted.still (h : Accounted schedule pool history)
    (haccepted : after.accepted = pool.accepted) (hplaces : after.whereabouts.Perm pool.whereabouts)
    (hdeeds : ∀ deed ∈ deeds, deed.parcel? = none) :
    Accounted schedule after (history ++ deeds) := by
  have hnone : acceptedIn (history ++ deeds) = acceptedIn history := by
    rw [acceptedIn_append, acceptedIn_eq_nil hdeeds, List.append_nil]
  refine ⟨?_, ?_, ?_, ?_⟩
  · rw [hnone]
    exact (hplaces.map _).trans h.places
  · rw [hnone, haccepted]
    exact h.tickets
  · rw [hnone]
    intro deed hdeed parcel hparcel
    obtain hpast | hnew := List.mem_append.1 hdeed
    · exact h.known deed hpast parcel hparcel
    · rw [hdeeds deed hnew] at hparcel
      cases hparcel
  · intro parcel status hmem
    have hother : ∀ deed ∈ deeds, deed.parcel? ≠ some parcel := by
      intro deed hdeed hsame
      rw [hdeeds deed hdeed] at hsame
      cases hsame
    rw [dealings_append_of_ne hother]
    exact h.fits parcel status (hplaces.mem_iff.1 hmem)

theorem Accounted.entered (h : Accounted schedule pool history) {event : Sample}
    (haccepted : after.accepted = pool.accepted + 1)
    (hplaces : after.whereabouts.Perm ((⟨pool.accepted, event⟩, .queued) :: pool.whereabouts)) :
    Accounted schedule after (history ++ [.accepted ⟨pool.accepted, event⟩]) := by
  have hone : acceptedIn (history ++ [.accepted ⟨pool.accepted, event⟩]) =
      acceptedIn history ++ [⟨pool.accepted, event⟩] := acceptedIn_append
  have hnew : ∀ parcel ∈ acceptedIn history, parcel ≠ ⟨pool.accepted, event⟩ := by
    rintro parcel hparcel rfl
    exact Nat.lt_irrefl _ (h.ticket_lt hparcel)
  refine ⟨?_, ?_, ?_, ?_⟩
  · rw [hone]
    apply (hplaces.map _).trans
    exact (h.places.cons _).trans (List.perm_append_singleton _ _).symm
  · rw [hone, List.map_append, h.tickets, haccepted, List.range_succ]
    rfl
  · rw [hone]
    intro deed hdeed parcel hparcel
    rw [List.mem_append] at hdeed ⊢
    obtain hpast | hlast := hdeed
    · exact .inl (h.known deed hpast parcel hparcel)
    · rw [List.mem_singleton.1 hlast] at hparcel
      exact .inr (List.mem_singleton.2 (Option.some.inj hparcel).symm)
  · intro parcel status hmem
    obtain hhead | hrest := List.mem_cons.1 (hplaces.mem_iff.1 hmem)
    · cases hhead
      have huntouched : dealings ⟨pool.accepted, event⟩ history = [] := by
        apply dealings_eq_nil
        intro deed hdeed hsame
        exact hnew _ (h.known deed hdeed _ hsame) rfl
      rw [dealings_append_self (List.forall_mem_singleton.2 rfl), huntouched]
      exact ⟨rfl, rfl, rfl⟩
    · have hold := mem_acceptedIn.2 (h.mem_iff.2 ⟨status, hrest⟩)
      rw [dealings_append_of_ne]
      · exact h.fits parcel status hrest
      · rw [List.forall_mem_singleton]
        intro hsame
        exact hnew parcel hold (Option.some.inj hsame).symm

theorem Accounted.moved (h : Accounted schedule pool history) {old new : Status}
    {rest : List (Parcel × Status)} (haccepted : after.accepted = pool.accepted)
    (hbefore : pool.whereabouts.Perm ((parcel, old) :: rest))
    (hafter : after.whereabouts.Perm ((parcel, new) :: rest))
    (hnext : old.Next schedule cancelled parcel deeds new) :
    Accounted schedule after (history ++ deeds) := by
  obtain ⟨hnone, hdeeds⟩ := hnext.concerns
  have hsame : acceptedIn (history ++ deeds) = acceptedIn history := by
    rw [acceptedIn_append, hnone, List.append_nil]
  have hold : (parcel, old) ∈ pool.whereabouts := hbefore.mem_iff.2 List.mem_cons_self
  refine ⟨?_, ?_, ?_, ?_⟩
  · rw [hsame]
    exact (hafter.map _).trans ((hbefore.map _).symm.trans h.places)
  · rw [hsame, haccepted]
    exact h.tickets
  · rw [hsame]
    intro deed hdeed other hother
    obtain hpast | hlast := List.mem_append.1 hdeed
    · exact h.known deed hpast other hother
    · rw [hdeeds deed hlast] at hother
      cases hother
      exact mem_acceptedIn.2 (h.mem_iff.2 ⟨old, hold⟩)
  · intro other status hmem
    obtain hhead | hrest := List.mem_cons.1 (hafter.mem_iff.1 hmem)
    · cases hhead
      rw [dealings_append_self hdeeds]
      exact hnext.fits (h.fits parcel old hold)
    · rw [dealings_append_of_ne]
      · exact h.fits other status (hbefore.mem_iff.2 (List.mem_cons_of_mem _ hrest))
      · intro deed hdeed hconcerns
        rw [hdeeds deed hdeed] at hconcerns
        cases hconcerns
        -- The event that moved would have had a second place before it did.
        have hnodup := (hbefore.map Prod.fst).nodup_iff.1 h.nodup
        exact (List.nodup_cons.1 hnodup).1 (List.mem_map.2 ⟨_, hrest, rfl⟩)

theorem Accounted.step (h : Accounted schedule pool history)
    (hstep : Step schedule pool move deeds after) :
    Accounted schedule after (history ++ deeds) := by
  cases hstep.shift with
  | still haccepted hplaces hdeeds => exact h.still haccepted hplaces hdeeds
  | entered event haccepted hplaces hdeeds =>
    rw [hdeeds]
    exact h.entered haccepted hplaces
  | moved haccepted hbefore hafter hnext => exact h.moved haccepted hbefore hafter hnext

/-! ### Cancellation -/

/-- Cancellation is in the history when the pool is stopping, and no attempt begins after it. -/
structure Cancels (pool : Pool) (history : List Deed) : Prop where
  stopping : pool.stopping = true ↔ .cancelled ∈ history
  silent : history.Pairwise fun earlier later =>
    earlier = .cancelled → ∀ worker parcel, later ≠ .called worker parcel

theorem Step.stopping (h : Step schedule pool move deeds after) :
    after.stopping = true ↔ pool.stopping = true ∨ .cancelled ∈ deeds := by
  cases h with
  | stop => simp
  | take => simp [carry_stopping]
  | proceed _ _ hnext =>
    rw [carry_stopping]
    cases hnext <;> simp
  | _ => simp [assign]

theorem Step.called (h : Step schedule pool move deeds after)
    (hcalled : .called worker parcel ∈ deeds) :
    deeds = [.called worker parcel] ∧ pool.stopping = false := by
  cases h with
  | proceed _ _ hnext =>
    cases hnext with
    | called hcancelled =>
      cases List.mem_singleton.1 hcalled
      exact ⟨rfl, hcancelled⟩
    | _ => simp at hcalled
  | _ => simp at hcalled

theorem Cancels.step (h : Cancels pool history) (hstep : Step schedule pool move deeds after) :
    Cancels after (history ++ deeds) where
  stopping := by rw [hstep.stopping, h.stopping, List.mem_append]
  silent := by
    rw [List.pairwise_append]
    refine ⟨h.silent, ?_, ?_⟩
    · apply List.pairwise_of_forall_mem_list
      rintro earlier hearlier later hlater rfl worker parcel rfl
      rw [(hstep.called hlater).1, List.mem_singleton] at hearlier
      cases hearlier
    · rintro earlier hearlier later hlater rfl worker parcel rfl
      have hstopping := (hstep.called hlater).2
      rw [h.stopping.2 hearlier] at hstopping
      cases hstopping

/-- A pool is closed only when it is stopping, a worker leaves only a pool that is closed and whose
queue is empty, and no event is abandoned unless the pool is stopping. -/
structure Closes (pool : Pool) : Prop where
  closed : pool.closed = true → pool.stopping = true ∧ pool.offered = []
  gone : .gone ∈ pool.workers → pool.closed = true ∧ pool.queue = []
  abandoned : ∀ parcel, (parcel, .abandoned) ∈ pool.finished → pool.stopping = true

theorem of_ne_abandoned (result : Except Failure Unit) : Fate.of result ≠ .abandoned := by
  cases result <;> exact nofun

theorem Closes.carry (h : Closes pool) {parcel : Parcel} {progress : Progress}
    (hprogress : progress = .ended .abandoned → pool.stopping = true) :
    Closes (pool.carry worker parcel progress) := by
  have hgone {work : Worker} (hwork : .gone ≠ work) (hmem : .gone ∈ pool.workers.set worker work) :
      pool.closed = true ∧ pool.queue = [] :=
    h.gone ((List.mem_or_eq_of_mem_set hmem).resolve_right hwork)
  cases progress with
  | on stage => exact ⟨h.closed, hgone nofun, h.abandoned⟩
  | ended fate =>
    refine ⟨h.closed, hgone nofun, ?_⟩
    intro other hother
    obtain hhead | hrest := List.mem_cons.1 hother
    · cases hhead
      exact hprogress rfl
    · exact h.abandoned other hrest

theorem Closes.step (h : Closes pool) (hstep : Step schedule pool move deeds after) :
    Closes after := by
  cases hstep with
  | report hclosed =>
    refine ⟨?_, h.gone, h.abandoned⟩
    intro hafter
    rw [hclosed] at hafter
    cases hafter
  | accept hoffered =>
    have hopen : pool.closed ≠ true := by
      intro hclosed
      rw [(h.closed hclosed).2] at hoffered
      cases hoffered
    exact ⟨fun hclosed => absurd hclosed hopen, fun hgone => absurd (h.gone hgone).1 hopen,
      h.abandoned⟩
  | stop => exact ⟨fun hclosed => ⟨rfl, (h.closed hclosed).2⟩, h.gone, fun _ _ => rfl⟩
  | close hstopping =>
    exact ⟨fun _ => ⟨hstopping, rfl⟩, fun hgone => ⟨rfl, (h.gone hgone).2⟩, h.abandoned⟩
  | lock =>
    refine ⟨h.closed, ?_, h.abandoned⟩
    intro hgone
    exact h.gone ((List.mem_or_eq_of_mem_set hgone).resolve_right nofun)
  | @take _ _ queue hworker hqueue =>
    have hshorter : Closes { pool with queue } := by
      refine ⟨h.closed, ?_, h.abandoned⟩
      intro hgone
      rw [(h.gone hgone).2] at hqueue
      cases hqueue
    exact hshorter.carry nofun
  | leave _ hclosed hqueue => exact ⟨h.closed, fun _ => ⟨hclosed, hqueue⟩, h.abandoned⟩
  | proceed _ _ hnext =>
    apply h.carry
    intro hprogress
    cases hnext with
    | refused hcancelled => exact hcancelled
    | gaveUp hcancelled => exact hcancelled
    | decided => exact absurd (Progress.ended.inj hprogress) (of_ne_abandoned _)
    | _ => cases hprogress

/-! ### Reports -/

/-- Until the pool is closed, the metrics that were reported are the events that were accepted and
those that are still offered; and a report comes only when nothing of the one before is offered. -/
structure Reports (pool : Pool) (history : List Deed) : Prop where
  events : pool.closed = false →
    reportedIn history = (acceptedIn history).map Parcel.event ++ pool.offered
  complete : ∀ before metrics later, history = before ++ .reported metrics :: later →
    (reportedIn before).length ≤ (acceptedIn history).length

theorem Step.offered (h : Step schedule pool move deeds after) (hopen : after.closed = false) :
    pool.closed = false ∧
      pool.offered ++ reportedIn deeds = (acceptedIn deeds).map Parcel.event ++ after.offered := by
  cases h with
  | report hclosed hoffered =>
    rw [hoffered]
    exact ⟨hclosed, List.append_nil _⟩
  | accept hoffered =>
    rw [hoffered]
    exact ⟨hopen, List.append_nil _⟩
  | close => cases hopen
  | take =>
    rw [carry_offered]
    exact ⟨by rwa [carry_closed] at hopen, List.append_nil _⟩
  | proceed _ _ hnext =>
    rw [carry_closed] at hopen
    rw [carry_offered]
    refine ⟨hopen, ?_⟩
    cases hnext <;> exact List.append_nil _
  | _ => exact ⟨hopen, List.append_nil _⟩

theorem Step.reported {metrics : List Sample} (h : Step schedule pool move deeds after)
    (hreported : .reported metrics ∈ deeds) :
    deeds = [.reported metrics] ∧ pool.closed = false ∧ pool.offered = [] := by
  cases h with
  | report hclosed hoffered =>
    cases List.mem_singleton.1 hreported
    exact ⟨rfl, hclosed, hoffered⟩
  | proceed _ _ hnext => cases hnext <;> simp at hreported
  | _ => simp at hreported

theorem Reports.step (h : Reports pool history) (hstep : Step schedule pool move deeds after) :
    Reports after (history ++ deeds) where
  events := by
    intro hopen
    obtain ⟨hclosed, hoffered⟩ := hstep.offered hopen
    rw [reportedIn_append, h.events hclosed, List.append_assoc, hoffered, acceptedIn_append,
      List.map_append, List.append_assoc]
  complete := by
    intro before metrics later hsplit
    have hmore : (acceptedIn history).length ≤ (acceptedIn (history ++ deeds)).length := by
      rw [acceptedIn_append, List.length_append]
      exact Nat.le_add_right _ _
    apply Nat.le_trans ?_ hmore
    have hall (hreported : .reported metrics ∈ deeds) :
        (reportedIn history).length = (acceptedIn history).length := by
      obtain ⟨-, hclosed, hoffered⟩ := hstep.reported hreported
      rw [h.events hclosed, hoffered, List.append_nil, List.length_map]
    -- The report is either the step itself or one of those before it.
    obtain ⟨front, rfl, hdeeds⟩ | ⟨back, rfl, hlater⟩ := List.append_eq_append_iff.1 hsplit
    · have hreported : .reported metrics ∈ deeds := by simp [hdeeds]
      have hlength := congrArg List.length ((hstep.reported hreported).1.symm.trans hdeeds)
      rw [List.length_singleton, List.length_append, List.length_cons] at hlength
      rw [List.eq_nil_of_length_eq_zero (l := front) (by omega), List.append_nil]
      exact Nat.le_of_eq (hall hreported)
    · cases back with
      | nil =>
        rw [List.append_nil] at hall ⊢
        rw [List.nil_append] at hlater
        exact Nat.le_of_eq (hall (hlater ▸ List.mem_cons_self))
      | cons deed back =>
        cases hlater
        exact h.complete before metrics back rfl

/-- An event is accepted for each metric of a report once all of it or a later one is. -/
theorem Reports.accepted (h : Reports pool history) (haccounted : Accounted schedule pool history)
    (hopen : pool.closed = false) {before later : List Deed} {metrics : List Sample}
    (hsplit : history = before ++ .reported metrics :: later)
    (hcomplete : pool.offered = [] ∨ ∃ more, .reported more ∈ later) {i : Nat} {metric : Sample}
    (hmetric : metrics[i]? = some metric) :
    .accepted ⟨(reportedIn before).length + i, metric⟩ ∈ history := by
  have hevents := h.events hopen
  have hreported : reportedIn history = reportedIn before ++ (metrics ++ reportedIn later) := by
    rw [hsplit, reportedIn_append]
    rfl
  have hi : i < metrics.length := (List.getElem?_eq_some_iff.1 hmetric).1
  -- Tickets are given in the order of the metrics, so only their number has to be large enough.
  have hlt : (reportedIn before).length + i < (acceptedIn history).length := by
    obtain hoffered | ⟨more, hmore⟩ := hcomplete
    · have hlength := congrArg List.length (hevents.symm.trans hreported)
      simp only [hoffered, List.append_nil, List.length_map, List.length_append] at hlength
      omega
    · obtain ⟨front, back, rfl⟩ := List.append_of_mem hmore
      rw [← List.cons_append, ← List.append_assoc] at hsplit
      have hcomplete := h.complete _ _ _ hsplit
      have hfront : reportedIn (before ++ .reported metrics :: front) =
          reportedIn before ++ (metrics ++ reportedIn front) := reportedIn_append
      simp only [hfront, List.length_append] at hcomplete
      omega
  obtain ⟨parcel, hparcel⟩ : ∃ parcel,
      (acceptedIn history)[(reportedIn before).length + i]? = some parcel :=
    ⟨_, List.getElem?_eq_getElem hlt⟩
  have hticket : parcel.ticket = (reportedIn before).length + i := by
    have hcount := congrArg List.length haccounted.tickets
    rw [List.length_map, List.length_range] at hcount
    have hnumber : ((acceptedIn history).map Parcel.ticket)[(reportedIn before).length + i]? =
        some parcel.ticket := by rw [List.getElem?_map, hparcel, Option.map_some]
    rw [haccounted.tickets, List.getElem?_range (hcount ▸ hlt)] at hnumber
    exact (Option.some.inj hnumber).symm
  have hevent : parcel.event = metric := by
    have hsame : (reportedIn history)[(reportedIn before).length + i]? = some parcel.event := by
      rw [hevents, List.getElem?_append_left (by rwa [List.length_map]), List.getElem?_map, hparcel,
        Option.map_some]
    rw [hreported, List.getElem?_append_right (Nat.le_add_right _ _), Nat.add_sub_cancel_left,
      List.getElem?_append_left hi, hmetric] at hsame
    exact (Option.some.inj hsame).symm
  rw [← mem_acceptedIn, ← hticket, ← hevent]
  exact List.mem_of_getElem? hparcel

/-! ### Runs -/

theorem Step.length (h : Step schedule pool move deeds after) :
    after.workers.length = pool.workers.length := by
  cases h with
  | lock => exact List.length_set
  | take => exact List.length_set
  | leave => exact List.length_set
  | proceed => rw [carry_workers, List.length_set]
  | _ => rfl

/-- What a run of a pool from its start keeps. -/
structure Kept (schedule : Schedule) (workers : Nat) (pool : Pool) (history : List Deed) :
    Prop where
  accounted : Accounted schedule pool history
  cancels : Cancels pool history
  closes : Closes pool
  reports : Reports pool history
  length : pool.workers.length = workers

theorem whereabouts_start (workers : Nat) : (start workers).whereabouts = [] := by
  have hheld : held (List.replicate workers .idle) = [] := by
    rw [List.eq_nil_iff_forall_not_mem]
    intro entry hentry
    obtain ⟨worker, work, hwork, hheld⟩ := mem_held.1 hentry
    rw [List.eq_of_mem_replicate (List.mem_of_getElem? hwork)] at hheld
    cases hheld
  rw [whereabouts, start, hheld]
  rfl

theorem Kept.start (schedule : Schedule) (workers : Nat) :
    Kept schedule workers (Pool.start workers) [] where
  accounted := by
    have hnowhere := whereabouts_start workers
    refine ⟨by rw [hnowhere]; rfl, rfl, by simp, ?_⟩
    intro parcel status hmem
    rw [hnowhere] at hmem
    cases hmem
  cancels := ⟨by simp [Pool.start], List.Pairwise.nil⟩
  closes := by
    refine ⟨by simp [Pool.start], ?_, by simp [Pool.start]⟩
    intro hgone
    cases List.eq_of_mem_replicate hgone
  reports := by
    refine ⟨fun _ => rfl, ?_⟩
    intro before metrics later hsplit
    simp at hsplit
  length := List.length_replicate

theorem Kept.step {workers : Nat} (h : Kept schedule workers pool history)
    (hstep : Step schedule pool move deeds after) :
    Kept schedule workers after (history ++ deeds) where
  accounted := h.accounted.step hstep
  cancels := h.cancels.step hstep
  closes := h.closes.step hstep
  reports := h.reports.step hstep
  length := hstep.length.trans h.length

theorem kept {workers : Nat} {moves : List Move}
    (hrun : (start workers).follow? schedule moves = some (pool, history)) :
    Kept schedule workers pool history := by
  have hkept := follow_invariant (fun _ _ _ _ _ => Kept.step) (Kept.start schedule workers) hrun
  rwa [List.nil_append] at hkept

/-- The pool has returned: it accepts no more and all its workers are gone. -/
def Returned (pool : Pool) : Prop := pool.closed = true ∧ ∀ work ∈ pool.workers, work = .gone

theorem Accounted.fate_iff (h : Accounted schedule pool history)
    (hfate : (parcel, fate) ∈ pool.finished) (other : Fate) :
    (parcel, other) ∈ pool.finished ↔ other = fate := by
  constructor
  · intro hother
    have hsame := List.inj_on_of_nodup_map h.nodup (mem_whereabouts_settled.2 hother)
      (mem_whereabouts_settled.2 hfate) rfl
    cases hsame
    rfl
  · rintro rfl
    exact hfate

theorem Kept.settled {workers : Nat} (h : Kept schedule workers pool history)
    (hqueue : pool.queue = [])
    (hidle : ∀ work ∈ pool.workers, ∀ job, work ≠ .sending job)
    (hparcel : .accepted parcel ∈ history) :
    ∃ fate, (parcel, fate) ∈ pool.finished := by
  obtain ⟨status, hmem⟩ := h.accounted.mem_iff.1 hparcel
  cases status with
  | queued =>
    rw [mem_whereabouts_queued, hqueue] at hmem
    cases hmem
  | held worker stage =>
    have hsending := List.mem_of_getElem? (mem_whereabouts_held.1 hmem)
    exact absurd rfl (hidle _ hsending _)
  | settled fate => exact ⟨fate, mem_whereabouts_settled.1 hmem⟩

theorem Kept.sender {workers : Nat} (h : Kept schedule workers pool history)
    (hparcel : .accepted parcel ∈ history) :
    let past := dealings parcel history
    (parcel ∈ pool.queue ∧ takers past = [] ∧ callers past = [] ∨ parcel ∉ pool.queue ∧
      ∃ worker, takers past = [worker] ∧ ∀ caller ∈ callers past, caller = worker) ∧
    (callers past).length ≤ schedule.attempts ∧ (outcomes past).count (.ok ()) ≤ 1 := by
  intro past
  obtain ⟨status, hmem⟩ := h.accounted.mem_iff.1 hparcel
  have hfits := h.accounted.fits parcel status hmem
  have hnot (hworker : takers past ≠ []) : parcel ∉ pool.queue := by
    intro hqueue
    exact hworker (h.accounted.fits parcel .queued (mem_whereabouts_queued.2 hqueue)).1
  cases status with
  | queued =>
    obtain ⟨htakers, hcallers, houtcomes⟩ := hfits
    refine ⟨.inl ⟨mem_whereabouts_queued.1 hmem, htakers, hcallers⟩, ?_, ?_⟩
    · simp [past, hcallers]
    · simp [past, houtcomes]
  | held worker stage =>
    refine ⟨.inr ⟨hnot (by simp [past, hfits.taken]), worker, hfits.taken, ?_⟩, ?_, ?_⟩
    · intro caller hcaller
      rw [hfits.called] at hcaller
      exact List.eq_of_mem_replicate hcaller
    · rw [hfits.called, List.length_replicate, ← hfits.attempts]
      exact Nat.le_add_right _ _
    · rw [List.count_eq_zero.2 hfits.refused]
      exact Nat.zero_le 1
  | settled fate =>
    obtain ⟨worker, htakers, hcallers⟩ := hfits.sender
    refine ⟨.inr ⟨hnot (by simp [past, htakers]), worker, htakers, ?_⟩, ?_, hfits.once⟩
    · intro caller hcaller
      rw [hcallers] at hcaller
      exact List.eq_of_mem_replicate hcaller
    · rw [hcallers, List.length_replicate]
      exact hfits.attempts

theorem Kept.exists_fate {workers : Nat} (h : Kept schedule workers pool history)
    (hqueue : pool.queue = []) (hidle : ∀ work ∈ pool.workers, ∀ job, work ≠ .sending job)
    (hparcel : .accepted parcel ∈ history) :
    ∃ fate, (∀ other, (parcel, other) ∈ pool.finished ↔ other = fate) ∧
      Sent schedule fate (dealings parcel history) ∧
      (fate = .abandoned → .cancelled ∈ history) := by
  obtain ⟨fate, hfate⟩ := h.settled hqueue hidle hparcel
  refine ⟨fate, h.accounted.fate_iff hfate, ?_, ?_⟩
  · exact h.accounted.fits parcel _ (mem_whereabouts_settled.2 hfate)
  · rintro rfl
    exact h.cancels.stopping.1 (h.closes.abandoned parcel hfate)

theorem Cancels.not_called (h : Cancels pool history) {before later : List Deed}
    (hsplit : history = before ++ .cancelled :: later) (worker : Nat) (parcel : Parcel) :
    .called worker parcel ∉ later := by
  intro hcalled
  have hsilent := h.silent
  rw [hsplit, List.pairwise_append, List.pairwise_cons] at hsilent
  exact hsilent.2.1.1 _ hcalled rfl worker parcel rfl

/-- **What a pool does with its events.** Every event that the queue accepted is in the queue, or
was taken by exactly one worker; only that worker makes attempts for it, no more than the schedule
has, and at most one succeeds. Nothing is done with an event that was not accepted. After
cancellation no attempt begins. Without cancellation, once the queue is empty and no worker sends,
every metric of every report that is complete was delivered or has failed by its own run under the
schedule. And when the pool has returned the queue is empty and every event has exactly one fate,
which is to be abandoned only after cancellation. -/
theorem every_event_accounted_for {workers : Nat} (hworkers : 0 < workers) {moves : List Move}
    (hrun : (start workers).follow? schedule moves = some (pool, history)) :
    (∀ parcel, .accepted parcel ∈ history →
      let past := dealings parcel history
      (parcel ∈ pool.queue ∧ takers past = [] ∧ callers past = [] ∨ parcel ∉ pool.queue ∧
        ∃ worker, takers past = [worker] ∧ ∀ caller ∈ callers past, caller = worker) ∧
      (callers past).length ≤ schedule.attempts ∧ (outcomes past).count (.ok ()) ≤ 1) ∧
    (∀ deed ∈ history, ∀ parcel, deed.parcel? = some parcel → .accepted parcel ∈ history) ∧
    (∀ before later, history = before ++ .cancelled :: later →
      ∀ worker parcel, .called worker parcel ∉ later) ∧
    (.cancelled ∉ history → pool.queue = [] →
      (∀ work ∈ pool.workers, ∀ job, work ≠ .sending job) →
      ∀ before metrics later, history = before ++ .reported metrics :: later →
        (pool.offered = [] ∨ ∃ more, .reported more ∈ later) →
        ∀ (i : Nat) (metric : Sample), metrics[i]? = some metric →
          let parcel : Parcel := ⟨(reportedIn before).length + i, metric⟩
          ∃ fate, fate ≠ .abandoned ∧ (∀ other, (parcel, other) ∈ pool.finished ↔ other = fate) ∧
            Sent schedule fate (dealings parcel history)) ∧
    (pool.Returned → pool.queue = [] ∧ ∀ parcel, .accepted parcel ∈ history →
      ∃ fate, (∀ other, (parcel, other) ∈ pool.finished ↔ other = fate) ∧
        Sent schedule fate (dealings parcel history) ∧
        (fate = .abandoned → .cancelled ∈ history)) := by
  have hkept := kept hrun
  refine ⟨fun parcel => hkept.sender, ?_, fun before later => hkept.cancels.not_called, ?_, ?_⟩
  · intro deed hdeed parcel hparcel
    exact mem_acceptedIn.1 (hkept.accounted.known deed hdeed parcel hparcel)
  · intro hcancelled hqueue hidle before metrics later hsplit hcomplete i metric hmetric parcel
    have hopen : pool.closed = false := by
      rw [← Bool.not_eq_true]
      intro hclosed
      exact hcancelled (hkept.cancels.stopping.1 (hkept.closes.closed hclosed).1)
    have hparcel := hkept.reports.accepted hkept.accounted hopen hsplit hcomplete hmetric
    obtain ⟨fate, hfate, hsent, habandoned⟩ := hkept.exists_fate hqueue hidle hparcel
    exact ⟨fate, fun h => hcancelled (habandoned h), hfate, hsent⟩
  · rintro ⟨-, hgone⟩
    have hsome : .gone ∈ pool.workers := by
      rw [← hkept.length] at hworkers
      have hfirst := List.getElem_mem hworkers
      rwa [hgone _ hfirst] at hfirst
    have hqueue := (hkept.closes.gone hsome).2
    refine ⟨hqueue, ?_⟩
    intro parcel hparcel
    apply hkept.exists_fate hqueue ?_ hparcel
    intro work hwork job hsending
    rw [hgone work hwork] at hsending
    cases hsending

/-- Two workers and two events, the first of which is delivered. If all goes on, the second is
refused for good; if the pool is stopped, it is abandoned. -/
theorem every_event_accounted_for_two :
    let a : Parcel := ⟨0, .counter "a" 1⟩
    let b : Parcel := ⟨1, .counter "b" 2⟩
    let moves : List Move := [.report [a.event, b.event], .accept, .accept, .lock 0, .take 0,
      .call 0, .answer 0 0 (.ok ())]
    let history : List Deed := [.reported [a.event, b.event], .accepted a, .accepted b, .taken 0 a,
      .called 0 a, .answered a (.ok ())]
    let going : Pool :=
      ⟨[], 2, [], [.idle, .idle], [(b, .failed (.rejected 400)), (a, .delivered)], false, false⟩
    let stopped : Pool :=
      ⟨[], 2, [], [.gone, .gone], [(b, .abandoned), (a, .delivered)], true, true⟩
    0 < 2 ∧
    (start 2).follow? .standard
        (moves ++ [.lock 1, .take 1, .call 1, .answer 1 0 (.error (.rejected 400))]) =
      some (going, history ++ [.taken 1 b, .called 1 b, .answered b (.error (.rejected 400))]) ∧
    (∃ fate, fate ≠ .abandoned ∧ ∀ other, (b, other) ∈ going.finished ↔ other = fate) ∧
    (start 2).follow? .standard (moves ++
        [.stop, .lock 1, .take 1, .call 1, .close, .lock 1, .leave 1, .lock 0, .leave 0]) =
      some (stopped, history ++ [.cancelled, .taken 1 b]) ∧
    stopped.Returned ∧
    ∃ fate, (∀ other, (b, other) ∈ stopped.finished ↔ other = fate) ∧
      Sent .standard fate (dealings b (history ++ [.cancelled, .taken 1 b])) := by
  intro a b moves history going stopped
  have hgoing : (start 2).follow? .standard
      (moves ++ [.lock 1, .take 1, .call 1, .answer 1 0 (.error (.rejected 400))]) =
      some (going, history ++ [.taken 1 b, .called 1 b, .answered b (.error (.rejected 400))]) := by
    decide +kernel
  have hstopped : (start 2).follow? .standard (moves ++
      [.stop, .lock 1, .take 1, .call 1, .close, .lock 1, .leave 1, .lock 0, .leave 0]) =
      some (stopped, history ++ [.cancelled, .taken 1 b]) := by
    decide +kernel
  have hreturned : stopped.Returned := ⟨rfl, by decide⟩
  obtain ⟨_, _, _, hquiet, _⟩ := every_event_accounted_for (by decide) hgoing
  obtain ⟨_, _, _, _, hdone⟩ := every_event_accounted_for (by decide) hstopped
  refine ⟨by decide, hgoing, ?_, hstopped, hreturned, ?_⟩
  · have hidle : ∀ work ∈ going.workers, ∀ job, work ≠ .sending job := by simp [going]
    obtain ⟨fate, hfate, hiff, _⟩ :=
      hquiet (by decide) rfl hidle [] _ _ rfl (.inl rfl) 1 b.event rfl
    exact ⟨fate, hfate, hiff⟩
  · obtain ⟨fate, hiff, hsent, _⟩ := (hdone hreturned).2 b (by decide)
    exact ⟨fate, hiff, hsent⟩

end Pool

end Telemetry.Agent
