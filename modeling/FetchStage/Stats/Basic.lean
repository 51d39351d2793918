import FetchStage.Count
import FetchStage.Signals
import FetchStage.Predictor.Counter

/-! # Fetch statistics

Totals gathered by observing every cycle, a histogram of the buffer's occupancy, and the counter transitions that
training caused. Every total is refused as soon as it would leave its range.
-/
namespace FetchStage

abbrev levelCount : Nat := bufferDepth + 1

abbrev stateCount : Nat := 4

structure Stats where
  cycles : Nat := 0
  /-- Cycles with the memory request asserted. -/
  requests : Nat := 0
  wordsBuffered : Nat := 0
  wordsDelivered : Nat := 0
  droppedResponses : Nat := 0
  predictorLookups : Nat := 0
  predictorHits : Nat := 0
  /-- Lookups that redirected to a predicted target. -/
  predictedTaken : Nat := 0
  resolutions : Nat := 0
  mispredictions : Nat := 0
  flushes : Nat := 0
  stallCycles : Nat := 0
  /-- Cycles that start with a full buffer. -/
  fullCycles : Nat := 0
  /-- Cycles that start with an empty buffer. -/
  emptyCycles : Nat := 0
  /-- Cycles that start at each occupancy. -/
  occupancy : Vector Nat levelCount := Vector.replicate levelCount 0
  /-- Training events by the state before and the state after. -/
  transitions : Vector (Vector Nat stateCount) stateCount := Vector.replicate stateCount (Vector.replicate stateCount 0)
  deriving DecidableEq

namespace Stats

/-- The histogram level of an occupancy; what exceeds the depth counts as full. -/
def level (occupancy : Nat) : Fin levelCount :=
  ⟨min occupancy bufferDepth, Nat.lt_succ_of_le (Nat.min_le_right _ _)⟩

def observe (s : Stats) (r : CycleRecord) : Except Overflow Stats := do
  let o := r.outputs
  let cycles ← Count.succ s.cycles
  let requests ← Count.tally s.requests o.request.readEnable
  let predictorLookups ← Count.tally s.predictorLookups o.request.readEnable
  let predictorHits ← Count.tally s.predictorHits o.prediction.valid
  let predictedTaken ← Count.tally s.predictedTaken o.prediction.redirects
  let resolutions ← Count.tally s.resolutions r.inputs.resolution.resolved
  let mispredictions ← Count.tally s.mispredictions o.mispredicted
  let flushes ← Count.tally s.flushes o.flush
  let wordsBuffered ← Count.tally s.wordsBuffered o.wrote
  let wordsDelivered ← Count.tally s.wordsDelivered o.valid
  let droppedResponses ← Count.tally s.droppedResponses o.dropped
  let stallCycles ← Count.tally s.stallCycles r.inputs.stall
  let fullCycles ← Count.tally s.fullCycles o.bufferFull
  let emptyCycles ← Count.tally s.emptyCycles o.bufferEmpty
  let visits ← Count.succ (s.occupancy.get (level o.occupancy))
  return {
    s with
    cycles, requests, predictorLookups, predictorHits, predictedTaken, resolutions, mispredictions, flushes,
    wordsBuffered, wordsDelivered, droppedResponses, stallCycles, fullCycles, emptyCycles
    occupancy := overwrite s.occupancy (level o.occupancy) visits }

/-- Training events that moved a counter from one state to another. -/
def transition (s : Stats) (before after : Counter) : Nat := (s.transitions.get before.bits).get after.bits

def train (s : Stats) (before after : Counter) : Except Overflow Stats := do
  let n ← Count.succ (s.transition before after)
  let row := overwrite (s.transitions.get before.bits) after.bits n
  return { s with transitions := overwrite s.transitions before.bits row }

def transitionsCovered (s : Stats) : Nat :=
  (s.transitions.toList.flatMap (·.toList)).countP (0 < ·)

def occupancyCovered (s : Stats) : Nat := s.occupancy.toList.countP (0 < ·)

def real (n : Nat) : Float := n.toUInt64.toFloat

/-- `part / whole`, and nothing of nothing is zero. -/
def ratio (part whole : Nat) : Float := if whole = 0 then 0 else real part / real whole

def percent (part whole : Nat) : Float := ratio part whole * 100

def deliveryRate (s : Stats) : Float := ratio s.wordsDelivered s.cycles

def weightedOccupancy (s : Stats) : Except Overflow Nat :=
  s.occupancy.toList.zipIdx.foldlM (fun total (n, level) => do Count.add total (← Count.mul level n)) 0

/-- Mean occupancy; before the first cycle it is zero whatever the histogram holds. -/
def meanOccupancy (s : Stats) : Except Overflow Float :=
  if s.cycles = 0 then .ok 0 else s.weightedOccupancy.map (ratio · s.cycles)

end Stats

end FetchStage
