import Telemetry.Agent.Collector
import Telemetry.Agent.Sender

/-!
# Reports by a pool of senders

At every tick of the reports the stored metrics are put, one by one, into a queue of bounded length,
and a number of workers take them from there and send each under the retry schedule. All that can
happen to a pool is a move; in which order moves come is up to the clock and to the answers of the
server. `Pool.run` is the order in which everything happens as soon as it can.
-/

namespace Telemetry.Agent

variable {σ : Type}

/-- An event that the queue accepted. No two have the same ticket. -/
structure Parcel where
  ticket : Nat
  event : Sample
deriving DecidableEq

/-- How far the sending of an event has come: before an attempt, in one, or in the wait after one.
The failure is that of the last attempt. -/
inductive Stage where
  | ready (last : Failure) (delays : List Nat)
  | calling (delay : Nat) (delays : List Nat)
  | waiting (wake : Nat) (last : Failure) (delays : List Nat)
deriving DecidableEq

structure Job where
  parcel : Parcel
  stage : Stage
deriving DecidableEq

inductive Fate where
  | delivered
  | failed (failure : Failure)
  | abandoned
deriving DecidableEq

/-- What the result of its run makes of an event. -/
def Fate.of : Except Failure Unit → Fate
  | .ok () => .delivered
  | .error failure => .failed failure

/-- How the sending of an event goes on, or that it is over. -/
inductive Progress where
  | on (stage : Stage)
  | ended (fate : Fate)

namespace Stage

/-- Begins the next attempt, unless there is none or the run is cancelled. -/
def call? (cancelled : Bool) : Stage → Option Progress
  | .ready last [] => some (.ended (.of (.error last)))
  | .ready _ (delay :: delays) =>
    some (if cancelled then .ended .abandoned else .on (.calling delay delays))
  | _ => none

def answer? (now : Nat) (outcome : Except Failure Unit) : Stage → Option Progress
  | .calling delay delays => some (match Verdict.of delay outcome with
    | .stop result => .ended (.of result)
    | .again delay failure =>
      .on (if delay = 0 then .ready failure delays else .waiting (now + delay) failure delays))
  | _ => none

/-- Ends a wait that has lasted its time. -/
def wake? : Stage → Option Progress
  | .waiting _ last delays => some (.on (.ready last delays))
  | _ => none

/-- Ends a wait because the run is cancelled. -/
def giveUp? (cancelled : Bool) : Stage → Option Progress
  | .waiting _ _ _ => if cancelled then some (.ended .abandoned) else none
  | _ => none

end Stage

/-- What a worker does: nothing, wait at the queue that it has to itself, or send an event. One
that found the queue closed and empty is gone. -/
inductive Worker where
  | idle
  | receiving
  | sending (job : Job)
  | gone
deriving DecidableEq

/-- A bound on the moves of a worker until it is gone, if it takes no more events. -/
def Worker.movesLeft : Worker → Nat
  | .idle => 2
  | .receiving => 1
  | .sending ⟨_, .ready _ delays⟩ => 3 * delays.length + 3
  | .sending ⟨_, .calling _ delays⟩ => 3 * delays.length + 5
  | .sending ⟨_, .waiting _ _ delays⟩ => 3 * delays.length + 4
  | .gone => 0

/-- The same for all workers together. -/
def Worker.allMovesLeft : List Worker → Nat
  | [] => 0
  | work :: workers => work.movesLeft + allMovesLeft workers

/-- A pool. Metrics of the current report that are not yet in the queue are offered; the events
that are finished stand in reverse order. A pool that is stopping is cancelled; one that is closed
accepts no more. -/
structure Pool where
  offered : List Sample
  accepted : Nat
  queue : List Parcel
  workers : List Worker
  finished : List (Parcel × Fate)
  stopping : Bool
  closed : Bool
deriving DecidableEq

inductive Move where
  | report (metrics : List Sample)
  | accept
  | stop
  | close
  | lock (worker : Nat)
  | take (worker : Nat)
  | leave (worker : Nat)
  | call (worker : Nat)
  | answer (worker now : Nat) (outcome : Except Failure Unit)
  | wake (worker : Nat)
  | giveUp (worker : Nat)

namespace Pool

def start (workers : Nat) : Pool := ⟨[], 0, [], List.replicate workers .idle, [], false, false⟩

/-- The pool where a worker does something else. -/
def assign (pool : Pool) (worker : Nat) (work : Worker) : Pool :=
  { pool with workers := pool.workers.set worker work }

/-- The pool where the sending of an event goes on, or is over and its worker idle. -/
def carry (pool : Pool) (worker : Nat) (parcel : Parcel) : Progress → Pool
  | .on stage => pool.assign worker (.sending ⟨parcel, stage⟩)
  | .ended fate => { pool.assign worker .idle with finished := (parcel, fate) :: pool.finished }

/-- Begins to report metrics. Cancellation does not hinder a report until the pool is closed. -/
def report? (pool : Pool) (metrics : List Sample) : Option Pool :=
  if pool.closed || !pool.offered.isEmpty then none else some { pool with offered := metrics }

/-- Puts the next metric of the report into the queue if there is room. -/
def accept? (pool : Pool) : Option Pool :=
  match pool.offered with
  | [] => none
  | event :: offered =>
    if pool.queue.length < queueCapacity then some { pool with
      offered
      accepted := pool.accepted + 1
      queue := pool.queue ++ [⟨pool.accepted, event⟩] }
    else none

/-- Ends the reports of a pool that is stopping; what is still offered is dropped. -/
def close? (pool : Pool) : Option Pool :=
  if pool.stopping then some { pool with offered := [], closed := true } else none

/-- Gives the queue to an idle worker if no other has it. -/
def lock? (pool : Pool) (worker : Nat) : Option Pool :=
  match pool.workers[worker]? with
  | some .idle => if .receiving ∈ pool.workers then none else some (pool.assign worker .receiving)
  | _ => none

/-- Gives the first event in the queue to the worker that has the queue. -/
def take? (schedule : Schedule) (pool : Pool) (worker : Nat) : Option Pool :=
  match pool.workers[worker]?, pool.queue with
  | some .receiving, parcel :: queue =>
    some ({ pool with queue }.carry worker parcel (.on (.ready .cancelled schedule.delays)))
  | _, _ => none

/-- Lets the worker that has the queue go when the queue is closed and empty. -/
def leave? (pool : Pool) (worker : Nat) : Option Pool :=
  match pool.workers[worker]?, pool.queue with
  | some .receiving, [] => if pool.closed then some (pool.assign worker .gone) else none
  | _, _ => none

/-- Moves the event that a worker is sending on. -/
def proceed? (pool : Pool) (worker : Nat) (next : Stage → Option Progress) : Option Pool :=
  match pool.workers[worker]? with
  | some (.sending job) => (next job.stage).map (pool.carry worker job.parcel)
  | _ => none

def move? (schedule : Schedule) (pool : Pool) : Move → Option Pool
  | .report metrics => pool.report? metrics
  | .accept => pool.accept?
  | .stop => some { pool with stopping := true }
  | .close => pool.close?
  | .lock worker => pool.lock? worker
  | .take worker => pool.take? schedule worker
  | .leave worker => pool.leave? worker
  | .call worker => pool.proceed? worker (Stage.call? pool.stopping)
  | .answer worker now outcome => pool.proceed? worker (Stage.answer? now outcome)
  | .wake worker => pool.proceed? worker Stage.wake?
  | .giveUp worker => pool.proceed? worker (Stage.giveUp? pool.stopping)

def canProceed (pool : Pool) (now : Nat) : Worker → Bool
  | .receiving => !pool.queue.isEmpty || pool.closed
  | .sending ⟨_, .waiting wake _ _⟩ => pool.stopping || wake ≤ now
  | .sending _ => true
  | _ => false

def wakes (pool : Pool) : List Nat :=
  pool.workers.filterMap fun work => match work with
    | .sending ⟨_, .waiting wake _ _⟩ => some wake
    | _ => none

/-- What a worker does that can proceed. An attempt ends with the answer of the server. -/
def turn (sender : Sender σ) (now worker : Nat) (pool : Pool) (world : World σ) :
    Worker → Move × World σ
  | .sending ⟨parcel, .calling _ _⟩ =>
    let (outcome, after) := sender.transport.sendOne parcel.event (world.setTime now)
    (.answer worker now outcome, after)
  | .sending ⟨_, .waiting _ _ _⟩ => (if pool.stopping then .giveUp worker else .wake worker, world)
  | .sending ⟨_, .ready _ _⟩ => (.call worker, world)
  | _ => (if pool.queue.isEmpty then .leave worker else .take worker, world)

/-- What happens when no worker can proceed: one goes to the queue, or an event comes into it. -/
def pause (pool : Pool) : Move :=
  match pool.workers.findIdx? (· = .idle) with
  | some worker => if pool.queue.isEmpty && !pool.closed then .accept else .lock worker
  | none => .accept

def next (sender : Sender σ) (now : Nat) (pool : Pool) (world : World σ) : Move × World σ :=
  match pool.workers.findIdx? (pool.canProceed now) with
  | some worker => pool.turn sender now worker world (pool.workers.getD worker .gone)
  | none => (pool.pause, world)

/-- The next thing that can happen at a time. -/
def step? (sender : Sender σ) (now : Nat) (pool : Pool) (world : World σ) :
    Option (Pool × World σ) :=
  let (move, after) := pool.next sender now world
  (pool.move? sender.schedule move).map fun pool => (pool, after)

/-- A bound on the number of things that can happen before the next report. -/
def movesLeft (schedule : Schedule) (pool : Pool) : Nat :=
  pool.offered.length * (3 * schedule.attempts + 4) +
    pool.queue.length * (3 * schedule.attempts + 3) + Worker.allMovesLeft pool.workers

/-- Does up to a number of things that can happen at a time. -/
def settleFor (sender : Sender σ) (now : Nat) : Nat → Pool → World σ → Pool × World σ
  | 0, pool, world => (pool, world)
  | steps + 1, pool, world => match pool.step? sender now world with
    | some (pool, world) => settleFor sender now steps pool world
    | none => (pool, world)

/-- Does all that can happen at a time. -/
def settle (sender : Sender σ) (now : Nat) (pool : Pool) (world : World σ) : Pool × World σ :=
  settleFor sender now (pool.movesLeft sender.schedule) pool world

def nextTime (pool : Pool) (ticker : Ticker) (stop : Nat) : Nat :=
  let ticks := if pool.offered.isEmpty then [ticker.due] else []
  (ticks ++ pool.wakes).foldl min stop

/-- Runs a pool from a time until it is to stop. -/
def runFrom (sender : Sender σ) (now : Nat) (ticker : Ticker) (pool : Pool) (world : World σ) :
    Pool × World σ :=
  let (pool, world) := pool.settle sender now world
  if pool.offered = [] ∧ ticker.due ≤ now then
    let reported := (pool.move? sender.schedule (.report (sender.stored now))).getD pool
    runFrom sender now (ticker.fire now) reported world
  else
    let next := pool.nextTime ticker sender.stop
    if now < next ∧ next < sender.stop then runFrom sender next ticker pool world
    else (pool, world)
termination_by (sender.stop - now, now + 1 - ticker.due)
decreasing_by
  · apply Prod.Lex.right
    have late := ticker.due_lt_fire now
    omega
  · apply Prod.Lex.left
    omega

/-- Stops a pool, which is closed at once. -/
def halt (sender : Sender σ) (pool : Pool) (world : World σ) : Pool × World σ :=
  let stopped := (pool.move? sender.schedule .stop).getD pool
  let closed := (stopped.move? sender.schedule .close).getD stopped
  closed.settle sender sender.stop world

/-- Counts what became of an event. A run that ends as cancelled counts for nothing. -/
def countFate (world : World σ) : Fate → World σ
  | .delivered => world.count (.sent .pool) 1
  | .failed .cancelled => world
  | .failed _ => world.count (.sendFailed .pool) 1
  | .abandoned => world

/-- Runs a pool of workers until it is to stop, and counts what became of the events. -/
def run (sender : Sender σ) (workers : Nat) (ticker : Ticker) (world : World σ) :
    Pool × World σ :=
  let (pool, world) := (start workers).runFrom sender world.host.now ticker world
  let (pool, world) := pool.halt sender world
  let counted := pool.finished.foldl (fun world p => countFate world p.2) world
  (pool, counted.setTime (max world.host.now sender.stop))

end Pool

end Telemetry.Agent
