/-!
# The loading gauge

The number of guards that hold the gauge, which tells the operator that the console is busy. A
request takes a guard when it starts, and its guard lets go of the gauge once.
-/

namespace FleetConsole

/-- How many guards hold the gauge. -/
structure Gauge where
  inFlight : Nat := 0
  deriving DecidableEq, Repr, Inhabited

namespace Gauge

def start (gauge : Gauge) : Gauge := ⟨gauge.inFlight + 1⟩

def finish (gauge : Gauge) : Gauge := ⟨gauge.inFlight - 1⟩

def isLoading (gauge : Gauge) : Bool := 0 < gauge.inFlight

end Gauge

end FleetConsole
