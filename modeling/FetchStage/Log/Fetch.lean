import FetchStage.Signals
import FetchStage.Log.Event
import FetchStage.Text.Digits

/-! # Log of a fetch cycle

The events of one engine cycle, read off the cycle's record and the buffer's occupancy after it. A reset cycle is
silent.
-/
namespace FetchStage.CycleRecord
open Text

private def flag (b : Bool) : String := if b then "true" else "false"

def flushEvents (r : CycleRecord) : List Event :=
  let o := r.outputs
  if o.flush then
    [{ level := .debug
       message :=
        s!"misprediction at {addressText r.inputs.resolution.branchAddress}: " ++
          s!"redirecting to {addressText r.inputs.resolution.target}"
       fields :=
        [("cycle", toString r.cycle), ("predicted_hit", flag o.prediction.valid),
          ("predicted_taken", flag o.prediction.taken), ("discarded", toString o.occupancy)] }]
  else []

/-- A full buffer withdraws a pending request, unless a flush goes first. -/
def fullEvents (r : CycleRecord) : List Event :=
  let o := r.outputs
  if !o.flush && o.bufferFull && o.request.readEnable then
    [{ level := .debug
       message := "prefetch buffer full: request de-asserted"
       fields := [("cycle", toString r.cycle)] }]
  else []

def fetchEvents (r : CycleRecord) (occupancyAfter : Nat) : List Event :=
  let o := r.outputs
  if r.inputs.reset then []
  else
    r.flushEvents ++ r.fullEvents ++
      [{ level := .trace
         message := s!"fetch {addressText o.request.address} -> {addressText o.nextState.currentAddress}"
         fields :=
          [("cycle", toString r.cycle), ("req", flag o.request.readEnable), ("occupancy", toString occupancyAfter),
            ("hit", flag o.prediction.valid), ("flush", flag o.flush)] }]

end FetchStage.CycleRecord
