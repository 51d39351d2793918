import FetchStage.Log.Fetch
import FetchStage.Simulator.Basic
import FetchStage.Wave

/-! # Test bench

A simulator with a log and any number of observers, which are shown each cycle in their order. The log and the observers
keep what a cycle has said before its arithmetic overflowed. Only events that the filter shows are logged.
-/
namespace FetchStage
open Text

structure Bench (σ ω : Type) where
  sim : Simulator σ
  observers : List ω := []
  filter : LogFilter := .off
  /-- Events so far, the last one first. -/
  log : List Event := []

inductive Outcome (α : Type) where
  | done (value : α)
  | stopped (violation : Violation)
  | overflow (overflow : Overflow)

private def bit (b : Bool) : String := if b then "1" else "0"

def CycleRecord.traceLine (r : CycleRecord) : String :=
  let i := r.inputs
  let o := r.outputs
  s!"[{padLeft 6 (toString r.cycle)}] req={bit o.request.readEnable} {addressText o.request.address}" ++
    s!" rdy={bit i.memory.ready} wr={bit o.wrote} rd={bit o.valid} {addressText o.pc}:{addressText o.instruction}" ++
    s!" occ={o.occupancy} hit={bit o.prediction.valid} res={bit i.resolution.resolved} flush={bit o.flush}"

def BranchRecord.deliveryEvent (b : BranchRecord) (cycle due : Nat) : Event :=
  { level := .trace
    message := s!"branch {addressText b.pc} delivered, resolves to {addressText b.target}"
    fields := [("cycle", toString cycle), ("due", toString due), ("taken", if b.taken then "true" else "false")] }

def Violation.stopMessage (v : Violation) : String := s!"contract violation: {v.message}"

namespace Bench

variable {σ ω : Type}

/-- Adds the events that are shown to the log, in their order. -/
def say (b : Bench σ ω) (events : List Event) : Bench σ ω :=
  { b with log := (events.filter b.filter.shows).reverse ++ b.log }

def events (b : Bench σ ω) : List Event := b.log.reverse

/-- What is said of a clocked cycle before its branch is scheduled. The engine says nothing above the debug level. -/
def cycleEvents (b : Bench σ ω) (r : CycleRecord) : List Event :=
  (if b.filter.admits .debug then r.fetchEvents b.sim.engine.buffer.count else []) ++ r.violations.map (·.event)

def closingEvents (s : Simulator σ) (r : CycleRecord) (delivered : Option (BranchRecord × Nat)) : List Event :=
  (delivered.map fun d => d.1.deliveryEvent r.cycle d.2).toList ++ if s.trace then [.info r.traceLine] else []

def step [MemoryPort σ] [Observer ω] (b : Bench σ ω) : Bench σ ω × Outcome Outputs :=
  match b.sim.clock with
  | .error o => (b, .overflow o)
  | .ok (sim, r) =>
    let b : Bench σ ω := { b with sim, observers := b.observers.map fun w => Observer.observe w r }
    let b := b.say (b.cycleEvents r)
    match sim.feedback r with
    | .error o => (b, .overflow o)
    | .ok (sim, delivered) =>
      let b := { b with sim }.say (closingEvents sim r delivered)
      match sim.verdict r with
      | some v => (b, .stopped v)
      | none => (b, .done r.outputs)

def finishedEvent (s : Simulator σ) (ran : Nat) : Event :=
  .info (s!"run finished after {ran} cycles: {s.stats.wordsDelivered} delivered, " ++
    s!"{s.stats.mispredictions} mispredictions, {s.scoreboard.disagreed} scoreboard mismatches")

def stoppedEvent (s : Simulator σ) (v : Violation) : Event :=
  .warn s!"run stopped at cycle {s.cycle - 1}: {v.stopMessage}"

def runFor [MemoryPort σ] [Observer ω] : Nat → Bench σ ω → Bench σ ω × Outcome Unit
  | 0, b => (b, .done ())
  | n + 1, b =>
    match b.step with
    | (b, .done _) => runFor n b
    | (b, .stopped v) => (b, .stopped v)
    | (b, .overflow o) => (b, .overflow o)

/-- Runs until `budget` cycles have been simulated in all, and counts those of this call. -/
def run [MemoryPort σ] [Observer ω] (b : Bench σ ω) (budget : Nat) : Bench σ ω × Outcome Nat :=
  let start := b.sim.cycle
  match runFor (budget - start) b with
  | (b, .done ()) =>
    let ran := b.sim.cycle - start
    (b.say [finishedEvent b.sim ran], .done ran)
  | (b, .stopped v) => (b.say [stoppedEvent b.sim v], .stopped v)
  | (b, .overflow o) => (b, .overflow o)

end Bench

end FetchStage
