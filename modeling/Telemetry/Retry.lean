import Telemetry.World

/-!
# Retries

A schedule is a list of delays, one for each attempt that may be made. An attempt that fails for a
transient reason is followed by its delay and the next attempt; any other outcome ends the run. Once
the run is cancelled no attempt starts, and a wait ends at the moment of cancellation. A delay of
zero is no wait, so that cancellation is first noticed at the next attempt.
-/

namespace Telemetry

/-- The delays, in milliseconds, that follow the attempts of a run. -/
structure Schedule where
  delays : List Nat
deriving DecidableEq, Repr

namespace Schedule

/-- Four attempts, with one, three and five seconds between them. -/
def standard : Schedule := ⟨[1000, 3000, 5000, 0]⟩

def attempts (schedule : Schedule) : Nat := schedule.delays.length

end Schedule

abbrev Cancellation := Option Nat

def Cancellation.reached (cancel : Cancellation) (now : Nat) : Bool :=
  match cancel with
  | some at_ => at_ ≤ now
  | none => false

/-- The end of a wait that starts now, and whether cancellation ends it. -/
def Cancellation.wait (cancel : Cancellation) (now delay : Nat) : Nat × Bool :=
  match cancel with
  | some moment => if moment < now + delay then (max now moment, true) else (now + delay, false)
  | none => (now + delay, false)

inductive Verdict (α : Type) where
  | stop (result : Except Failure α)
  | again (delay : Nat) (failure : Failure)

/-- Whether the outcome of an attempt ends the run, or its delay and another attempt follow. -/
def Verdict.of {α : Type} (delay : Nat) : Except Failure α → Verdict α
  | .ok a => .stop (.ok a)
  | .error failure => if failure.isTransient then .again delay failure else .stop (.error failure)

namespace Schedule

variable {σ α : Type}

/-- Makes the attempts that the remaining delays allow; `last` is the failure of the attempt
before. -/
def runFrom (cancel : Cancellation) (attempt : Action σ α) (last : Failure) :
    List Nat → Action σ α
  | [], world => (.error last, world)
  | delay :: delays, world =>
    if cancel.reached world.host.now then (.error .cancelled, world)
    else
      let (outcome, after) := attempt world
      match Verdict.of delay outcome with
      | .stop result => (result, after)
      | .again delay failure =>
        if delay = 0 then runFrom cancel attempt failure delays after
        else
          let (now, cancelled) := cancel.wait after.host.now delay
          let waited := { after with host := { after.host with now } }
          if cancelled then (.error .cancelled, waited)
          else runFrom cancel attempt failure delays waited

/-- Runs an attempt until it succeeds, fails for good, or no attempt is left. -/
def run (schedule : Schedule) (cancel : Cancellation) (attempt : Action σ α) : Action σ α :=
  runFrom cancel attempt .cancelled schedule.delays

end Schedule

end Telemetry
