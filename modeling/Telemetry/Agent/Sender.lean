import Telemetry.Agent.Ticker
import Telemetry.Metric.Sample
import Telemetry.Retry

/-!
# Reports in batches

At every tick of the reports the metrics that the agent has stored are sent in one request, under
the retry schedule. A report of no metrics is not sent and counts as delivered. Cancellation ends the
sender, whether it comes between the reports or within one.
-/

namespace Telemetry.Agent

variable {σ : Type}

/-- The way to the server; every call is one attempt. -/
structure Transport (σ : Type) where
  sendOne : Sample → Action σ Unit
  sendAll : List Sample → Action σ Unit

def sendReport (transport : Transport σ) (schedule : Schedule) (cancel : Cancellation)
    (metrics : List Sample) : Action σ Nat :=
  if metrics.isEmpty then pure 0
  else do
    schedule.run cancel (transport.sendAll metrics)
    pure metrics.length

/-- What a sender works with: the metrics that are stored at each time, and when it is to stop. -/
structure Sender (σ : Type) where
  transport : Transport σ
  schedule : Schedule
  stored : Nat → List Sample
  stop : Nat

/-- Sends a report at every tick until the time to stop. -/
def Sender.runBatches (sender : Sender σ) (ticker : Ticker) (world : World σ) : World σ :=
  let now := max world.host.now ticker.due
  if now < sender.stop then
    match sendReport sender.transport sender.schedule (some sender.stop) (sender.stored now)
        (world.setTime now) with
    | (.ok sent, after) =>
      sender.runBatches (ticker.fire now) (after.count (.sent .batch) (UInt64.ofNat sent))
    | (.error .cancelled, after) => after
    | (.error _, after) => sender.runBatches (ticker.fire now) (after.count (.sendFailed .batch) 1)
  else world.setTime (max world.host.now sender.stop)
termination_by sender.stop - ticker.due
decreasing_by
  all_goals
    have late := ticker.due_lt_fire (max world.host.now ticker.due)
    omega

end Telemetry.Agent
