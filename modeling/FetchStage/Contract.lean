import FetchStage.Signals
import FetchStage.Log.Event
import FetchStage.Text.Digits

/-! # External contract

What must hold of every cycle's outputs: asserted requests and redirect targets are word aligned, the occupancy
stays within the depth, the buffer is not full and empty at once, and nothing is stored while it is full.
-/
namespace FetchStage
open Text

inductive Breach where
  | misalignedRequest (address : Address)
  | misalignedRedirect (target : Address)
  | fullAndEmpty
  | occupancyOutOfRange (occupancy : Nat)
  | writeWhileFull
  deriving DecidableEq

structure Violation where
  cycle : Nat
  breach : Breach
  deriving DecidableEq

namespace Violation

def kind (v : Violation) : String :=
  match v.breach with
  | .misalignedRequest _ => "MisalignedRequest"
  | .misalignedRedirect _ => "MisalignedRedirect"
  | .fullAndEmpty => "FullAndEmpty"
  | .occupancyOutOfRange _ => "OccupancyOutOfRange"
  | .writeWhileFull => "WriteWhileFull"

def message (v : Violation) : String :=
  s!"cycle {v.cycle}: " ++
    match v.breach with
    | .misalignedRequest a => s!"memory request at misaligned address {addressText a}"
    | .misalignedRedirect t => s!"redirect to misaligned target {addressText t}"
    | .fullAndEmpty => "prefetch buffer reports both full and empty"
    | .occupancyOutOfRange n => s!"prefetch buffer occupancy {n} exceeds depth {bufferDepth}"
    | .writeWhileFull => "buffer accepted a write while full"

def event (v : Violation) : Event := .warn v.message

end Violation

/-- The breaches in a cycle's outputs, in a fixed order. -/
def Outputs.breaches (o : Outputs) : List Breach :=
  (if o.request.readEnable && !o.request.address.aligned then [.misalignedRequest o.request.address] else []) ++
  (if o.flush && !o.nextState.currentAddress.aligned then [.misalignedRedirect o.nextState.currentAddress] else []) ++
  (if o.bufferFull && o.bufferEmpty then [.fullAndEmpty] else []) ++
  (if bufferDepth < o.occupancy then [.occupancyOutOfRange o.occupancy] else []) ++
  (if o.wrote && o.bufferFull then [.writeWhileFull] else [])

def CycleRecord.violations (r : CycleRecord) : List Violation := r.outputs.breaches.map (⟨r.cycle, ·⟩)

/-- Every violation seen so far, in the order observed. -/
structure Checker where
  violations : Array Violation := #[]

namespace Checker

def observe (c : Checker) (r : CycleRecord) : Checker := ⟨c.violations ++ r.violations⟩

instance : Observer Checker := ⟨observe⟩

def isClean (c : Checker) : Bool := c.violations.isEmpty

end Checker

end FetchStage
