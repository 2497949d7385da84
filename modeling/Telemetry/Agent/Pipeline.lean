import Telemetry.Agent.Aggregation
import Telemetry.Agent.Pool
import Telemetry.Settings.Agent
import Telemetry.Store.Memory

/-!
# The agent

Collectors feed the repository of the agent, and a sender reports what is in it. The collectors poll
together. Their queues are emptied as soon as something is in them, so that they never wait; a report
at the moment of a poll comes before what is polled.
-/

namespace Telemetry.Agent

variable {σ : Type}

def pollsBefore (poll time : Nat) : Nat := (time - 1) / poll

/-- The events of the first polls of all sources. -/
def eventsOf (sources : List Source) (polls : Nat) : List Sample :=
  (List.range polls).flatMap fun tick => sources.flatMap fun source => source.events tick

def storedBefore (sources : List Source) (poll : Nat) (host : Host) (time : Nat) : MemoryStore :=
  (aggregate (eventsOf sources (pollsBefore poll time)) ⟨MemoryStore.empty, host⟩).2.store

def snapshot (store : MemoryStore) : List Sample := store.records.map Sample.ofRecord

/-- Runs an agent until it is to stop, and gives what is stored then. -/
def run (plan : AgentPlan) (sources : List Source) (transport : Transport σ) (schedule : Schedule)
    (stop : Nat) (world : World σ) : MemoryStore × World σ :=
  let stored := storedBefore sources plan.poll world.host
  let sender : Sender σ := ⟨transport, schedule, fun now => snapshot (stored now), stop⟩
  let ticker := Ticker.start plan.report plan.report_pos world.host.now
  let after :=
    if plan.workers = 0 then sender.runBatches ticker world
    else (Pool.run sender plan.workers ticker world).2
  (stored stop, after.setTime (max after.host.now stop))

end Telemetry.Agent
