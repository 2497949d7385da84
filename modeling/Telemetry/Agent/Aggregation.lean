import Telemetry.Store.Repository

/-!
# Aggregation

The events of all queues are applied to the repository of the agent. An event that is refused is
dropped, and the ones after it are applied all the same.
-/

namespace Telemetry.Agent

variable {σ : Type} [Repository σ]

def accepts (event : Sample) : Action σ Bool := fun world =>
  match Repository.upsert event world with
  | (.ok (), after) => (.ok true, after)
  | (.error _, after) => (.ok false, after)

/-- Applies events and gives the number of those that were accepted. -/
def aggregate : List Sample → Action σ Nat
  | [] => pure 0
  | event :: events => do
    let accepted ← accepts event
    let rest ← aggregate events
    pure (if accepted then rest + 1 else rest)

end Telemetry.Agent
