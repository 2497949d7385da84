/-!
# Kinds of metrics

A gauge shows the last value written to it; a counter adds up what it is given.
-/

namespace Telemetry

/-- The kind of a metric, fixed when the metric is created. -/
inductive Kind where
  | gauge
  | counter
deriving DecidableEq, Repr

namespace Kind

/-- The name of a kind, in requests, documents and messages. -/
def name : Kind → String
  | .gauge => "gauge"
  | .counter => "counter"

def ofName? (s : String) : Option Kind :=
  if s = "gauge" then some .gauge else if s = "counter" then some .counter else none

theorem ofName?_name (kind : Kind) : ofName? kind.name = some kind := by
  cases kind <;> simp [ofName?, name]

end Kind

end Telemetry
