import Telemetry.Counters
import Telemetry.Disk

/-!
# Actions

An action works on the state of a component and on its surroundings: the files, the operational
counters and the clock. It gives a value or a failure, and what it changed before a failure stays
changed.
-/

namespace Telemetry

/-- What surrounds a component. The clock counts milliseconds. -/
structure Host where
  disk : Disk
  counters : Counters
  now : Nat
deriving DecidableEq

/-- The state of a component and its surroundings. -/
structure World (σ : Type) where
  store : σ
  host : Host

namespace World

variable {σ : Type}

def setTime (world : World σ) (now : Nat) : World σ :=
  { world with host := { world.host with now } }

def count (world : World σ) (event : Event) (n : UInt64) : World σ :=
  { world with host := { world.host with counters := world.host.counters.add event n } }

end World

/-- A step on a world that gives a value or a failure. -/
def Action (σ α : Type) : Type := World σ → Except Failure α × World σ

namespace Action

variable {σ τ α β : Type}

instance : Monad (Action σ) where
  pure a world := (.ok a, world)
  bind action next world := match action world with
    | (.ok a, after) => next a after
    | (.error failure, after) => (.error failure, after)

def fail (failure : Failure) : Action σ α := fun world => (.error failure, world)

/-- The action that gives a result that is known already. -/
def ofResult (result : Except Failure α) : Action σ α := fun world => (result, world)

def count (event : Event) (n : UInt64) : Action σ Unit := fun world =>
  (.ok (), world.count event n)

@[simp] theorem pure_apply (a : α) (world : World σ) : (pure a : Action σ α) world = (.ok a, world) :=
  rfl

theorem bind_apply (action : Action σ α) (next : α → Action σ β) (world : World σ) :
    (action >>= next) world = match action world with
      | (.ok a, after) => next a after
      | (.error failure, after) => (.error failure, after) := rfl

@[simp] theorem fail_apply (failure : Failure) (world : World σ) :
    (fail failure : Action σ α) world = (.error failure, world) := rfl

@[simp] theorem ofResult_apply (result : Except Failure α) (world : World σ) :
    ofResult result world = (result, world) := rfl

/-- An action on a component as an action on a whole that holds the component. -/
def onPart (set : τ → σ) (part : τ) (action : Action τ α) : Action σ α := fun world =>
  match action ⟨part, world.host⟩ with
  | (result, after) => (result, ⟨set after.store, after.host⟩)

end Action

end Telemetry
