/-! # Consumer pacing

The downstream stage asks for a word on every multiple of its period, and stalls during the last cycles of every
stall window.
-/
namespace FetchStage

structure Consumer where
  period : Nat := 1
  stallEvery : Nat := 0
  stallLength : Nat := 0
  deriving DecidableEq

structure Drive where
  consume : Bool
  stall : Bool
  deriving DecidableEq

namespace Consumer

def consumes (c : Consumer) (cycle : Nat) : Bool := c.period != 0 && cycle % c.period == 0

/-- A window longer than its spacing stalls throughout. -/
def stalls (c : Consumer) (cycle : Nat) : Bool :=
  c.stallEvery != 0 && c.stallLength != 0 && decide (c.stallEvery - c.stallLength ≤ cycle % c.stallEvery)

def drive (c : Consumer) (cycle : Nat) : Drive := ⟨c.consumes cycle, c.stalls cycle⟩

end Consumer

end FetchStage
