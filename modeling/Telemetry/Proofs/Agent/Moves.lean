import Telemetry.Agent.Pool
import Mathlib.Data.List.Basic

/-!
# The moves of a pool

Every event that a pool accepted is in one place: in the queue, in the hands of a worker, or among
the finished ones. A move takes at most one event from one place to another, or adds one, and leaves
the others where they are. `Step` says all that a move can do, together with the deeds that it is:
what was reported, what was done with which event and by whom, and whether the pool was cancelled.
Everything that is later said of a pool is proved of a `Step` and carried along a run by
`follow_invariant`.
-/

namespace Telemetry.Agent

inductive Status where
  | queued
  | held (worker : Nat) (stage : Stage)
  | settled (fate : Fate)

inductive Deed where
  | reported (metrics : List Sample)
  | cancelled
  | accepted (parcel : Parcel)
  | taken (worker : Nat) (parcel : Parcel)
  | called (worker : Nat) (parcel : Parcel)
  | answered (parcel : Parcel) (outcome : Except Failure Unit)
deriving DecidableEq

def Deed.parcel? : Deed → Option Parcel
  | .reported _ => none
  | .cancelled => none
  | .accepted parcel => some parcel
  | .taken _ parcel => some parcel
  | .called _ parcel => some parcel
  | .answered parcel _ => some parcel

/-- Whether a move is one of the work that there is, and not a report or part of the shutdown. -/
def Move.works : Move → Bool
  | .report _ => false
  | .stop => false
  | .close => false
  | _ => true

def Progress.status (worker : Nat) : Progress → Status
  | .on stage => .held worker stage
  | .ended fate => .settled fate

def Progress.work (parcel : Parcel) : Progress → Worker
  | .on stage => .sending ⟨parcel, stage⟩
  | .ended _ => .idle

/-- The event in the hands of a worker, and its place. -/
def Worker.held? (work : Worker) (worker : Nat) : Option (Parcel × Status) :=
  match work with
  | .sending job => some (job.parcel, .held worker job.stage)
  | _ => none

namespace Stage

/-- All that can happen to an event in the hands of a worker. -/
inductive Next (cancelled : Bool) (worker : Nat) (parcel : Parcel) :
    Stage → List Deed → Progress → Prop
  | exhausted (last : Failure) :
    Next cancelled worker parcel (.ready last []) [] (.ended (.failed last))
  | refused (hcancelled : cancelled = true) (last : Failure) (delay : Nat) (delays : List Nat) :
    Next cancelled worker parcel (.ready last (delay :: delays)) [] (.ended .abandoned)
  | called (hcancelled : cancelled = false) (last : Failure) (delay : Nat) (delays : List Nat) :
    Next cancelled worker parcel (.ready last (delay :: delays)) [.called worker parcel]
      (.on (.calling delay delays))
  | decided {delay : Nat} {outcome result : Except Failure Unit}
    (hverdict : Verdict.of delay outcome = .stop result) (delays : List Nat) :
    Next cancelled worker parcel (.calling delay delays) [.answered parcel outcome]
      (.ended (.of result))
  | failed {delay after : Nat} {outcome : Except Failure Unit} {failure : Failure} {stage : Stage}
    (hverdict : Verdict.of delay outcome = .again after failure) (delays : List Nat)
    (hstage : stage = .ready failure delays ∨ ∃ wake, stage = .waiting wake failure delays) :
    Next cancelled worker parcel (.calling delay delays) [.answered parcel outcome] (.on stage)
  | woken (wake : Nat) (last : Failure) (delays : List Nat) :
    Next cancelled worker parcel (.waiting wake last delays) [] (.on (.ready last delays))
  | gaveUp (hcancelled : cancelled = true) (wake : Nat) (last : Failure) (delays : List Nat) :
    Next cancelled worker parcel (.waiting wake last delays) [] (.ended .abandoned)

end Stage

/-- All that can happen to an event that was accepted. -/
inductive Status.Next (schedule : Schedule) (cancelled : Bool) (parcel : Parcel) :
    Status → List Deed → Status → Prop
  | taken (worker : Nat) : Next schedule cancelled parcel .queued [.taken worker parcel]
      (.held worker (.ready .cancelled schedule.delays))
  | moved {worker : Nat} {stage : Stage} {deeds : List Deed} {progress : Progress}
    (h : stage.Next cancelled worker parcel deeds progress) :
    Next schedule cancelled parcel (.held worker stage) deeds (progress.status worker)

namespace Pool

/-! ### Where the events are -/

def held (workers : List Worker) : List (Parcel × Status) :=
  workers.zipIdx.filterMap fun entry => entry.1.held? entry.2

/-- All events that a pool accepted, with their places. -/
def whereabouts (pool : Pool) : List (Parcel × Status) :=
  pool.queue.map (·, .queued) ++ held pool.workers ++
    pool.finished.map fun entry => (entry.1, .settled entry.2)

variable {pool : Pool} {worker : Nat} {work : Worker} {parcel : Parcel}

theorem mem_held {entry : Parcel × Status} {workers : List Worker} :
    entry ∈ held workers ↔ ∃ worker, ∃ work : Worker,
      workers[worker]? = some work ∧ work.held? worker = some entry := by
  rw [held, List.mem_filterMap]
  constructor
  · rintro ⟨⟨work, worker⟩, hwork, hentry⟩
    exact ⟨worker, work, List.mem_zipIdx_iff_getElem?.1 hwork, hentry⟩
  · rintro ⟨worker, work, hwork, hentry⟩
    exact ⟨(work, worker), List.mem_zipIdx_iff_getElem?.2 hwork, hentry⟩

theorem held?_eq_some_iff {entry : Parcel × Status} :
    work.held? worker = some entry ↔
      ∃ job, work = .sending job ∧ entry = (job.parcel, .held worker job.stage) := by
  cases work <;> simp [Worker.held?, eq_comm]

theorem mem_whereabouts_queued : (parcel, .queued) ∈ pool.whereabouts ↔ parcel ∈ pool.queue := by
  simp [whereabouts, mem_held, held?_eq_some_iff]

theorem mem_whereabouts_settled {fate : Fate} :
    (parcel, .settled fate) ∈ pool.whereabouts ↔ (parcel, fate) ∈ pool.finished := by
  simp [whereabouts, mem_held, held?_eq_some_iff]

theorem mem_whereabouts_held {stage : Stage} : (parcel, .held worker stage) ∈ pool.whereabouts ↔
    pool.workers[worker]? = some (.sending ⟨parcel, stage⟩) := by
  have hheld : (parcel, .held worker stage) ∈ pool.whereabouts ↔
      (parcel, .held worker stage) ∈ held pool.workers := by simp [whereabouts]
  rw [hheld, mem_held]
  constructor
  · rintro ⟨other, work, hwork, hentry⟩
    obtain ⟨job, rfl, hjob⟩ := held?_eq_some_iff.1 hentry
    cases hjob
    exact hwork
  · intro hwork
    exact ⟨worker, _, hwork, rfl⟩

theorem held_append (front back : List Worker) : held (front ++ work :: back) =
    held front ++ ((work.held? front.length).toList ++
      (back.zipIdx (front.length + 1)).filterMap fun entry => entry.1.held? entry.2) := by
  rw [held, List.zipIdx_append, List.filterMap_append, Nat.zero_add, List.zipIdx_cons,
    List.filterMap_cons]
  cases work.held? front.length <;> rfl

theorem exists_eq_append {workers : List Worker} (h : workers[worker]? = some work) :
    ∃ front back, front.length = worker ∧ workers = front ++ work :: back ∧
      ∀ next, workers.set worker next = front ++ next :: back := by
  obtain ⟨hlt, hwork⟩ := List.getElem?_eq_some_iff.1 h
  obtain ⟨front, back, hworkers, hlength, -⟩ := @List.exists_of_set _ worker work workers hlt
  rw [hwork] at hworkers
  refine ⟨front, back, hlength, hworkers, ?_⟩
  intro next
  rw [hworkers, ← hlength, List.set_append_right _ _ (Nat.le_refl _), Nat.sub_self,
    List.set_cons_zero]

theorem held_set {workers : List Worker} (h : workers[worker]? = some work) :
    ∃ rest, (held workers).Perm ((work.held? worker).toList ++ rest) ∧
      ∀ next : Worker, (held (workers.set worker next)).Perm
        ((next.held? worker).toList ++ rest) := by
  obtain ⟨front, back, rfl, hworkers, hset⟩ := exists_eq_append h
  refine ⟨held front ++ (back.zipIdx (front.length + 1)).filterMap
    fun entry => entry.1.held? entry.2, ?_, ?_⟩
  · rw [hworkers, held_append]
    exact List.perm_append_comm_assoc _ _ _
  · intro next
    rw [hset, held_append]
    exact List.perm_append_comm_assoc _ _ _

section

variable (pool worker parcel) (progress : Progress)

theorem carry_accepted : (pool.carry worker parcel progress).accepted = pool.accepted := by
  cases progress <;> rfl

theorem carry_offered : (pool.carry worker parcel progress).offered = pool.offered := by
  cases progress <;> rfl

theorem carry_queue : (pool.carry worker parcel progress).queue = pool.queue := by
  cases progress <;> rfl

theorem carry_stopping : (pool.carry worker parcel progress).stopping = pool.stopping := by
  cases progress <;> rfl

theorem carry_closed : (pool.carry worker parcel progress).closed = pool.closed := by
  cases progress <;> rfl

theorem carry_workers : (pool.carry worker parcel progress).workers =
    pool.workers.set worker (progress.work parcel) := by
  cases progress <;> rfl

end

theorem whereabouts_carry (h : pool.workers[worker]? = some work) :
    ∃ rest, pool.whereabouts.Perm ((work.held? worker).toList ++ rest) ∧
      ∀ parcel progress, (pool.carry worker parcel progress).whereabouts.Perm
        ((parcel, progress.status worker) :: rest) := by
  obtain ⟨others, hbefore, hafter⟩ := held_set h
  refine ⟨pool.queue.map (·, .queued) ++ others ++
    pool.finished.map fun entry => (entry.1, .settled entry.2), ?_, ?_⟩
  · apply ((hbefore.append_left _).append_right _).trans
    rw [List.append_assoc, List.append_assoc, List.append_assoc]
    exact List.perm_append_comm_assoc _ _ _
  · intro parcel progress
    cases progress with
    | on stage =>
      apply (((hafter _).append_left _).append_right _).trans
      rw [List.append_assoc, List.append_assoc, List.append_assoc]
      exact List.perm_middle
    | ended fate =>
      apply (((hafter .idle).append_left _).append_right _).trans
      exact List.perm_middle

theorem whereabouts_assign (h : pool.workers[worker]? = some work)
    (hwork : work.held? worker = none) {next : Worker} (hnext : next.held? worker = none) :
    (pool.assign worker next).whereabouts.Perm pool.whereabouts := by
  obtain ⟨others, hbefore, hafter⟩ := held_set h
  rw [hwork] at hbefore
  have hsame := hafter next
  rw [hnext] at hsame
  exact ((hsame.trans hbefore.symm).append_left _).append_right _

/-! ### What a move can do -/

inductive Step (schedule : Schedule) (pool : Pool) : Move → List Deed → Pool → Prop
  | report (hclosed : pool.closed = false) (hoffered : pool.offered = []) (metrics : List Sample) :
    Step schedule pool (.report metrics) [.reported metrics] { pool with offered := metrics }
  | accept {event : Sample} {offered : List Sample} (hoffered : pool.offered = event :: offered)
    (hroom : pool.queue.length < queueCapacity) :
    Step schedule pool .accept [.accepted ⟨pool.accepted, event⟩] { pool with
      offered
      accepted := pool.accepted + 1
      queue := pool.queue ++ [⟨pool.accepted, event⟩] }
  | stop : Step schedule pool .stop [.cancelled] { pool with stopping := true }
  | close (hstopping : pool.stopping = true) :
    Step schedule pool .close [] { pool with offered := [], closed := true }
  | lock {worker : Nat} (hworker : pool.workers[worker]? = some .idle)
    (hfree : .receiving ∉ pool.workers) :
    Step schedule pool (.lock worker) [] (pool.assign worker .receiving)
  | take {worker : Nat} {parcel : Parcel} {queue : List Parcel}
    (hworker : pool.workers[worker]? = some .receiving) (hqueue : pool.queue = parcel :: queue) :
    Step schedule pool (.take worker) [.taken worker parcel]
      ({ pool with queue }.carry worker parcel (.on (.ready .cancelled schedule.delays)))
  | leave {worker : Nat} (hworker : pool.workers[worker]? = some .receiving)
    (hclosed : pool.closed = true) (hqueue : pool.queue = []) :
    Step schedule pool (.leave worker) [] (pool.assign worker .gone)
  | proceed {move : Move} {worker : Nat} {parcel : Parcel} {stage : Stage} {deeds : List Deed}
    {progress : Progress} (hmove : move.works = true)
    (hworker : pool.workers[worker]? = some (.sending ⟨parcel, stage⟩))
    (hnext : stage.Next pool.stopping worker parcel deeds progress) :
    Step schedule pool move deeds (pool.carry worker parcel progress)

def deeds (pool : Pool) : Move → List Deed
  | .report metrics => [.reported metrics]
  | .accept => (pool.offered.head?.map fun event => .accepted ⟨pool.accepted, event⟩).toList
  | .stop => [.cancelled]
  | .take worker => (pool.queue.head?.map (.taken worker)).toList
  | .call worker => match pool.workers[worker]? with
    | some (.sending ⟨parcel, .ready _ (_ :: _)⟩) =>
      if pool.stopping then [] else [.called worker parcel]
    | _ => []
  | .answer worker _ outcome => match pool.workers[worker]? with
    | some (.sending job) => [.answered job.parcel outcome]
    | _ => []
  | _ => []

variable {schedule : Schedule} {after : Pool} {move : Move} {deeds : List Deed}

theorem step_of_proceed {next : Stage → Option Progress}
    (h : pool.proceed? worker next = some after) (hmove : move.works = true)
    (hnext : ∀ job progress, pool.workers[worker]? = some (.sending job) →
      next job.stage = some progress →
        job.stage.Next pool.stopping worker job.parcel deeds progress) :
    Step schedule pool move deeds after := by
  unfold proceed? at h
  split at h
  next job hworker =>
    obtain ⟨progress, hprogress, rfl⟩ := Option.map_eq_some_iff.1 h
    exact .proceed hmove hworker (hnext job progress hworker hprogress)
  next => cases h

theorem step_of_call (h : pool.proceed? worker (Stage.call? pool.stopping) = some after) :
    Step schedule pool (.call worker) (pool.deeds (.call worker)) after := by
  apply step_of_proceed h rfl
  rintro ⟨parcel, stage⟩ progress hworker hprogress
  simp only [deeds, hworker]
  cases stage with
  | ready last delays =>
    cases delays with
    | nil =>
      cases hprogress
      exact .exhausted last
    | cons delay delays =>
      cases hprogress
      dsimp only
      by_cases hstopping : pool.stopping = true
      · rw [if_pos hstopping, if_pos hstopping]
        exact .refused hstopping last delay delays
      · rw [if_neg hstopping, if_neg hstopping]
        exact .called (Bool.not_eq_true _ ▸ hstopping) last delay delays
  | calling => cases hprogress
  | waiting => cases hprogress

theorem step_of_answer {now : Nat} {outcome : Except Failure Unit}
    (h : pool.proceed? worker (Stage.answer? now outcome) = some after) :
    Step schedule pool (.answer worker now outcome) (pool.deeds (.answer worker now outcome))
      after := by
  apply step_of_proceed h rfl
  rintro ⟨parcel, stage⟩ progress hworker hprogress
  simp only [deeds, hworker]
  cases stage with
  | ready => cases hprogress
  | calling delay delays =>
    cases hprogress
    split
    next result hverdict => exact .decided hverdict delays
    next after failure hverdict =>
      apply Stage.Next.failed hverdict delays
      split
      · exact .inl rfl
      · exact .inr ⟨_, rfl⟩
  | waiting => cases hprogress

theorem step_of_move (h : pool.move? schedule move = some after) :
    Step schedule pool move (pool.deeds move) after := by
  cases move with
  | report metrics =>
    obtain ⟨hopen, hafter⟩ := Option.ite_none_left_eq_some.1 h
    cases hafter
    simp only [Bool.or_eq_true, Bool.not_eq_true', not_or, Bool.not_eq_true, Bool.not_eq_false,
      List.isEmpty_iff] at hopen
    exact .report hopen.1 hopen.2 metrics
  | accept =>
    simp only [move?, accept?] at h
    split at h
    next => cases h
    next event offered hoffered =>
      obtain ⟨hroom, hafter⟩ := Option.ite_none_right_eq_some.1 h
      cases hafter
      simp only [deeds, hoffered]
      exact .accept hoffered hroom
  | stop =>
    cases h
    exact .stop
  | close =>
    obtain ⟨hstopping, hafter⟩ := Option.ite_none_right_eq_some.1 h
    cases hafter
    exact .close hstopping
  | lock worker =>
    simp only [move?, lock?] at h
    split at h
    next hworker =>
      obtain ⟨hfree, hafter⟩ := Option.ite_none_left_eq_some.1 h
      cases hafter
      exact .lock hworker hfree
    next => cases h
  | take worker =>
    simp only [move?, take?] at h
    split at h
    next parcel queue hworker hqueue =>
      cases h
      simp only [deeds, hqueue]
      exact .take hworker hqueue
    next => cases h
  | leave worker =>
    simp only [move?, leave?] at h
    split at h
    next hworker hqueue =>
      obtain ⟨hclosed, hafter⟩ := Option.ite_none_right_eq_some.1 h
      cases hafter
      exact .leave hworker hclosed hqueue
    next => cases h
  | call worker => exact step_of_call h
  | answer worker now outcome => exact step_of_answer h
  | wake worker =>
    apply step_of_proceed h rfl
    rintro ⟨parcel, stage⟩ progress - hprogress
    cases stage with
    | ready => cases hprogress
    | calling => cases hprogress
    | waiting wake last delays =>
      cases hprogress
      exact .woken wake last delays
  | giveUp worker =>
    apply step_of_proceed h rfl
    rintro ⟨parcel, stage⟩ progress - hprogress
    cases stage with
    | ready => cases hprogress
    | calling => cases hprogress
    | waiting wake last delays =>
      obtain ⟨hstopping, hfate⟩ := Option.ite_none_right_eq_some.1 hprogress
      cases hfate
      exact .gaveUp hstopping wake last delays

/-- What a move does to the places of the events. -/
inductive Shift (schedule : Schedule) (pool : Pool) (deeds : List Deed) (after : Pool) : Prop
  | still (haccepted : after.accepted = pool.accepted)
    (hplaces : after.whereabouts.Perm pool.whereabouts)
    (hdeeds : ∀ deed ∈ deeds, deed.parcel? = none)
  | entered (event : Sample) (haccepted : after.accepted = pool.accepted + 1)
    (hplaces : after.whereabouts.Perm ((⟨pool.accepted, event⟩, .queued) :: pool.whereabouts))
    (hdeeds : deeds = [.accepted ⟨pool.accepted, event⟩])
  | moved {parcel : Parcel} {old new : Status} {rest : List (Parcel × Status)}
    (haccepted : after.accepted = pool.accepted)
    (hbefore : pool.whereabouts.Perm ((parcel, old) :: rest))
    (hafter : after.whereabouts.Perm ((parcel, new) :: rest))
    (hnext : old.Next schedule pool.stopping parcel deeds new)

theorem Step.shift (h : Step schedule pool move deeds after) :
    Shift schedule pool deeds after := by
  cases h with
  | report | stop | close => exact .still rfl (List.Perm.refl _) (by simp [Deed.parcel?])
  | @accept event =>
    refine .entered event rfl ?_ rfl
    rw [whereabouts, List.map_append, List.append_assoc, List.append_assoc]
    apply List.perm_middle.trans
    rw [whereabouts, List.append_assoc]
    rfl
  | lock hworker => exact .still rfl (whereabouts_assign hworker rfl rfl) (by simp)
  | @take worker parcel queue hworker hqueue =>
    obtain ⟨rest, hbefore, hafter⟩ := @whereabouts_carry { pool with queue } _ _ hworker
    refine .moved rfl ?_ (hafter parcel _) (.taken worker)
    rw [whereabouts, hqueue]
    exact hbefore.cons _
  | leave hworker => exact .still rfl (whereabouts_assign hworker rfl rfl) (by simp)
  | proceed _ hworker hnext =>
    obtain ⟨rest, hbefore, hafter⟩ := whereabouts_carry hworker
    exact .moved (carry_accepted ..) hbefore (hafter _ _) (.moved hnext)

/-! ### Runs -/

/-- The pool after moves, with all their deeds, if each move is possible when it comes. -/
def follow? (schedule : Schedule) (pool : Pool) : List Move → Option (Pool × List Deed)
  | [] => some (pool, [])
  | move :: moves => (pool.move? schedule move).bind fun next =>
    (follow? schedule next moves).map fun (last, history) => (last, pool.deeds move ++ history)

theorem follow_invariant {P : Pool → List Deed → Prop}
    (hstep : ∀ pool seen move deeds after, P pool seen → Step schedule pool move deeds after →
      P after (seen ++ deeds))
    {moves : List Move} {seen history : List Deed} (h : P pool seen)
    (hrun : pool.follow? schedule moves = some (after, history)) : P after (seen ++ history) := by
  induction moves generalizing pool seen history with
  | nil =>
    cases hrun
    rw [List.append_nil]
    exact h
  | cons move moves ih =>
    obtain ⟨next, hnext, hrest⟩ := Option.bind_eq_some_iff.1 hrun
    obtain ⟨⟨last, later⟩, hlater, hlast⟩ := Option.map_eq_some_iff.1 hrest
    cases hlast
    rw [← List.append_assoc]
    exact ih (hstep _ _ _ _ _ h (step_of_move hnext)) hlater

end Pool

end Telemetry.Agent
