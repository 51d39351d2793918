import FetchStage.Word

/-! # Signals of one fetch cycle

The bundles of wires between the fetch engine and what surrounds it. A field of a bundle may carry any value
while its strobe is low, so the strobes are plain booleans beside the data.
-/
namespace FetchStage

structure Request where
  address : Address := 0
  readEnable : Bool := false
  deriving DecidableEq, Inhabited

structure Response where
  data : Word := 0
  ready : Bool := false
  deriving DecidableEq, Inhabited

/-- A branch outcome reported by a later stage; `resolved` is the strobe. -/
structure Resolution where
  resolved : Bool := false
  taken : Bool := false
  branchAddress : Address := 0
  target : Address := 0
  deriving DecidableEq, Inhabited

def Resolution.idle : Resolution := {}

structure Prediction where
  valid : Bool := false
  taken : Bool := false
  target : Address := 0
  deriving DecidableEq, Inhabited

namespace Prediction

def miss : Prediction := {}

def redirects (p : Prediction) : Bool := p.valid && p.taken

/-- A resolved branch disagrees with the lookup. On a hit the direction differs, or a taken branch goes
elsewhere; on a miss the branch is taken. -/
def refutedBy (p : Prediction) (r : Resolution) : Bool :=
  r.resolved &&
    if p.valid then r.taken != p.taken || (r.taken && r.target != p.target) else r.taken

end Prediction

structure Inputs where
  reset : Bool := false
  memory : Response := {}
  consume : Bool := false
  stall : Bool := false
  resolution : Resolution := {}
  deriving DecidableEq, Inhabited

structure FetchState where
  currentAddress : Address := 0
  requestPending : Bool := false
  deriving DecidableEq, Inhabited

/-- Everything the engine drives or decides in one cycle. The buffer's flags and occupancy are those at the
start of the cycle. -/
structure Outputs where
  request : Request := {}
  instruction : Word := 0
  pc : Address := 0
  valid : Bool := false
  prediction : Prediction := {}
  mispredicted : Bool := false
  flush : Bool := false
  nextAddress : Address := 0
  wrote : Bool := false
  dropped : Bool := false
  bufferFull : Bool := false
  bufferEmpty : Bool := false
  occupancy : Nat := 0
  nextState : FetchState := {}
  deriving DecidableEq, Inhabited

structure CycleRecord where
  cycle : Nat := 0
  inputs : Inputs := {}
  outputs : Outputs := {}
  deriving DecidableEq, Inhabited

/-- Something that is shown every cycle and acts on nothing but itself. -/
class Observer (ω : Type) where
  observe : ω → CycleRecord → ω

instance {α β : Type} [Observer α] [Observer β] : Observer (α ⊕ β) where
  observe w r := w.map (Observer.observe · r) (Observer.observe · r)

end FetchStage
