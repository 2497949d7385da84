/-!
# Tickers

A ticker is due once in every period. A tick that comes late by more than the tolerance moves the
ones after it: the next comes a whole period later than it did.
-/

namespace Telemetry.Agent

/-- A ticker; times are in milliseconds. -/
structure Ticker where
  period : Nat
  due : Nat
  period_pos : 0 < period

namespace Ticker

/-- How late a tick may come without moving the ones after it. -/
def tolerance : Nat := 5

/-- A ticker whose first tick is one period from now. -/
def start (period : Nat) (period_pos : 0 < period) (now : Nat) : Ticker :=
  ⟨period, now + period, period_pos⟩

/-- The ticker after a tick that came at a time. -/
def fire (ticker : Ticker) (now : Nat) : Ticker :=
  { ticker with
    due := if ticker.due + tolerance < now then now + ticker.period
      else ticker.due + ticker.period }

theorem due_lt_fire (ticker : Ticker) (now : Nat) : ticker.due < (ticker.fire now).due := by
  have := ticker.period_pos
  unfold fire
  dsimp only
  split <;> omega

end Ticker

end Telemetry.Agent
