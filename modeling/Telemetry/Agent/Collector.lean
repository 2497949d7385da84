import Telemetry.Agent.Ticker
import Telemetry.Agent.Statistics
import Telemetry.Retry

/-!
# Collectors

A collector reads a source at every tick and puts what it read into a queue of bounded length. While
the queue is full it waits, and its ticks wait with it. A source that cannot be read is skipped for
one tick. When it is cancelled the collector closes its queue; what is in the queue can still be
taken, what is not yet in it is dropped.
-/

namespace Telemetry.Agent

open Telemetry.Number

def queueCapacity : Nat := 20

def pollCount : String := "PollCount"

def randomValue : String := "RandomValue"

/-- What a collector reads. The reading of each tick may fail; a source that marks the cycle also
gives the counter of the ticks and the random gauge, whether or not it can be read. -/
structure Source where
  read : Nat → Except Failure (List Sample)
  cycle : Option (Nat → Binary64)

namespace Source

/-- The events that mark the cycle. -/
def cycleEvents (source : Source) (tick : Nat) : List Sample :=
  match source.cycle with
  | none => []
  | some random => [.counter pollCount 1, .gauge randomValue (random tick)]

def events (source : Source) (tick : Nat) : List Sample :=
  (source.read tick).toOption.getD [] ++ source.cycleEvents tick

def eventsUpTo (source : Source) (ticks : Nat) : List Sample :=
  (List.range ticks).flatMap source.events

end Source

/-- A collector at work. Events of the current tick that do not fit into the queue are pending; the
collector has been free to go on since the time when the last of them was taken over. -/
structure Collector where
  ticker : Ticker
  ticks : Nat
  free : Nat
  pending : List Sample
  queue : List Sample
  isOpen : Bool

namespace Collector

def start (ticker : Ticker) : Collector := ⟨ticker, 0, 0, [], [], true⟩

/-- Moves pending events into the queue while there is room. -/
def fill (collector : Collector) : Collector :=
  let room := queueCapacity - collector.queue.length
  { collector with
    pending := collector.pending.drop room
    queue := collector.queue ++ collector.pending.take room }

/-- Reads the source. -/
def tick (source : Source) (now : Nat) (collector : Collector) : Collector :=
  { collector with
    ticker := collector.ticker.fire now
    ticks := collector.ticks + 1
    pending := source.events collector.ticks }

/-- Closes the queue. -/
def stop (collector : Collector) : Collector := { collector with isOpen := false, pending := [] }

/-- The time of the next tick if nothing is pending. -/
def nextTick (collector : Collector) : Nat := max collector.free collector.ticker.due

/-- What the collector does up to a time while nothing is taken from its queue. -/
def advance (source : Source) (cancel : Cancellation) (target : Nat) (collector : Collector) :
    Collector :=
  let filled := collector.fill
  if !filled.isOpen then filled
  else if filled.pending = [] ∧ filled.nextTick ≤ target ∧ ¬ cancel.reached filled.nextTick then
    advance source cancel target (filled.tick source filled.nextTick)
  else if cancel.reached target then filled.stop
  else filled
termination_by target + 1 - collector.ticker.due
decreasing_by
  rename_i _ step
  have late := collector.ticker.due_lt_fire collector.fill.nextTick
  have bound : collector.ticker.due ≤ target :=
    Nat.le_trans (Nat.le_max_right collector.free _) step.2.1
  show target + 1 - (collector.ticker.fire collector.fill.nextTick).due < _
  omega

/-- The collector after the first event in the queue was taken. -/
def take (collector : Collector) (now : Nat) (rest : List Sample) : Collector :=
  { collector with queue := rest, free := now }

/-- The next time at which an open collector with an empty queue does something. -/
def wake (cancel : Cancellation) (collector : Collector) : Nat :=
  match cancel with
  | some moment => min moment collector.nextTick
  | none => collector.nextTick

end Collector

/-- What a reader of a queue gets. -/
inductive Received where
  | event (sample : Sample)
  | closed
deriving DecidableEq

/-- When a queue is read: from one time to another, up to a number of events. -/
structure Window where
  first : Nat
  last : Nat
  limit : Nat

/-- Takes events from the queue of a collector until a time, and gives what was received and when,
the time after that, and the collector then. -/
def receive (source : Source) (cancel : Cancellation) (last : Nat) (limit now : Nat)
    (collector : Collector) : List (Nat × Received) × Nat × Collector :=
  if 0 < limit then
    let current := collector.advance source cancel now
    match current.queue with
    | sample :: rest =>
      let (received, after) := receive source cancel last (limit - 1) now (current.take now rest)
      ((now, .event sample) :: received, after)
    | [] =>
      let wake := current.wake cancel
      if !current.isOpen then ([(now, .closed)], now, current)
      else if now < wake ∧ wake ≤ last then receive source cancel last limit wake current
      else ([], max now last, current)
  else ([], now, collector)
termination_by (limit, last - now)
decreasing_by
  · apply Prod.Lex.left
    omega
  · apply Prod.Lex.right
    rename_i step
    exact Nat.sub_lt_sub_left (Nat.lt_of_lt_of_le step.1 step.2) step.1

def endsClosed (received : List (Nat × Received)) : Bool :=
  received.any fun p => p.2 == .closed

/-- Reads the queue of a collector in windows. -/
def readWindows (source : Source) (cancel : Cancellation) : Nat → Collector → List Window →
    List (Nat × Received)
  | _, _, [] => []
  | now, collector, window :: windows =>
    let (received, after, collector) :=
      receive source cancel window.last window.limit (max now window.first) collector
    if endsClosed received then received
    else received ++ readWindows source cancel after collector windows

end Telemetry.Agent
