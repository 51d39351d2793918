import FetchStage.Stats.Basic
import FetchStage.Decimal.Fixed
import FetchStage.Text.Digits

/-! # Statistics report

Sections of labelled lines between rules. A selection of section names limits what is shown, and no selection shows
everything; the closing rule always stands.
-/
namespace FetchStage.Stats
open Decimal Text

/-- Percentages and mean values have two places. -/
def twoPlaces : Float → String := fixed 2

def fourPlaces : Float → String := fixed 4

def rule (c : Char) : String := String.ofList (List.replicate 58 c)

def share (part whole : Nat) : String := s!"{part} ({twoPlaces (percent part whole)}%)"

/-- Simulated cycles per second of host time, in thousands. -/
def kilohertz (s : Stats) (seconds : Float) : Float := if 0 < seconds then real s.cycles / seconds / 1000 else 0

def summaryLines (s : Stats) (seconds : Float) : List String :=
  ["", rule '=', "INSTRUCTION FETCH SIMULATION STATISTICS", rule '=',
    s!"host_seconds             {fourPlaces seconds} s",
    s!"sim_cycles               {s.cycles}",
    s!"sim_freq                 {twoPlaces (s.kilohertz seconds)} kHz",
    s!"sim_delivered            {s.wordsDelivered}",
    s!"sim_delivery_rate        {fourPlaces s.deliveryRate}", rule '-']

def fetchLines (s : Stats) : List String :=
  ["FETCH",
    s!"  fetch.requests         {share s.requests s.cycles}",
    s!"  fetch.buffered         {s.wordsBuffered}",
    s!"  fetch.delivered        {s.wordsDelivered}",
    s!"  fetch.dropped          {s.droppedResponses}", rule '-']

def branchLines (s : Stats) : List String :=
  ["BRANCH PREDICTION",
    s!"  bp.lookups             {s.predictorLookups}",
    s!"  bp.hits                {share s.predictorHits s.predictorLookups}",
    s!"  bp.predicted_taken     {s.predictedTaken}",
    s!"  bp.resolutions         {s.resolutions}",
    s!"  bp.mispredicts         {s.mispredictions}",
    s!"  bp.accuracy            {twoPlaces (100 - percent s.mispredictions s.resolutions)}%",
    s!"  bp.flushes             {s.flushes}", rule '-']

def levelLine (s : Stats) (level n : Nat) : String :=
  s!"  occupancy[{level}]           {padRight 10 (toString n)} ({twoPlaces (percent n s.cycles)}%)"

def bufferLines (s : Stats) : Except Overflow (List String) := do
  let mean ← s.meanOccupancy
  return ["PREFETCH BUFFER",
    s!"  buf.stall_cycles       {share s.stallCycles s.cycles}",
    s!"  buf.full_cycles        {share s.fullCycles s.cycles}",
    s!"  buf.empty_cycles       {share s.emptyCycles s.cycles}",
    s!"  buf.mean_occupancy     {twoPlaces mean}"] ++
    s.occupancy.toList.zipIdx.map (fun (n, level) => s.levelLine level n) ++ [rule '-']

/-- The transitions that occurred, by state before and state after. -/
def transitionLines (s : Stats) : List String :=
  Counter.all.flatMap fun before => Counter.all.filterMap fun after =>
    let n := s.transition before after
    if 0 < n then some s!"    {before.name} -> {after.name}: {n}" else none

def coverageLines (s : Stats) : List String :=
  ["COVERAGE",
    s!"  cov.occupancy          {s.occupancyCovered}/{levelCount}",
    s!"  cov.counter_transitions {s.transitionsCovered}/{stateCount * stateCount}"] ++ s.transitionLines

def report (s : Stats) (sections : List String) (seconds : Float) : Except Overflow (List String) := do
  let wanted (name : String) : Bool := sections.isEmpty || sections.contains name
  let buffer ← if wanted "buffer" then s.bufferLines else .ok []
  return (if wanted "summary" then s.summaryLines seconds else []) ++
    (if wanted "fetch" then s.fetchLines else []) ++
    (if wanted "branch" then s.branchLines else []) ++ buffer ++
    (if wanted "coverage" then s.coverageLines else []) ++ [rule '=']

end FetchStage.Stats
