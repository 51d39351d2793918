import FetchStage.Branch.Table
import FetchStage.Config.Basic
import FetchStage.Contract
import FetchStage.Engine
import FetchStage.Memory.Port
import FetchStage.Resolver
import FetchStage.Scoreboard
import FetchStage.Stats.Basic

/-! # Simulator

The engine among its collaborators. In one cycle the port answers the registered request, the consumer paces the
downstream side, the queue presents the fact that is due, the engine steps, and the observers see the cycle. Then a
delivered branch that the ground truth knows is scheduled for resolution. A request that waits on memory is presented
as a stall, so the engine holds its address and nothing is delivered meanwhile.
-/
namespace FetchStage

structure Simulator (σ : Type) where
  engine : Engine := .initial
  port : σ
  consumer : Consumer
  resolver : Resolver
  truth : BranchTable
  stats : Stats := {}
  checker : Checker := {}
  scoreboard : Scoreboard
  trace : Bool
  stopOnViolation : Bool
  maxCycles : Nat
  /-- A reset waits for the next cycle. -/
  pendingReset : Bool := false

namespace Simulator

variable {σ : Type}

/-- A fresh simulator over any port; `image` is what deliveries are compared with. -/
def withPort (c : Config) (port : σ) (image : Image) (truth : BranchTable) : Except Setting (Simulator σ) := do
  c.validate
  return {
    port
    consumer := c.consumer
    resolver := { delay := c.resolution.delay }
    truth
    scoreboard := { image }
    trace := c.general.trace
    stopOnViolation := c.general.stopOnViolation
    maxCycles := c.general.maxCycles }

def ofProgram (c : Config) (program : Array Word) (truth : BranchTable) : Except Setting (Simulator LatencyPort) :=
  let image : Image := ⟨program, c.memory.fill⟩
  withPort c { image, timing := c.memory.timing } image truth

def cycle (s : Simulator σ) : Nat := s.engine.cycle

/-- Presents a reset on the next cycle and drops queued facts. Time goes on. -/
def reset (s : Simulator σ) : Simulator σ := { s with pendingReset := true, resolver := s.resolver.clear }

/-- Queues a fact for a cycle, and names the cycle it got. -/
def schedule (s : Simulator σ) (due : Nat) (fact : Resolution) : Except Overflow (Nat × Simulator σ) := do
  let (slot, resolver) ← s.resolver.schedule due fact
  return (slot, { s with resolver })

def inputs (s : Simulator σ) (response : Response) (resolution : Resolution) : Inputs :=
  let drive := s.consumer.drive s.cycle
  { reset := s.pendingReset
    memory := response
    consume := drive.consume
    stall := drive.stall || (s.engine.request.readEnable && !response.ready)
    resolution }

def recordTraining (s : Simulator σ) (i : Inputs) (after : Engine) : Except Overflow Stats :=
  let branch := i.resolution.branchAddress
  if i.resolution.resolved && !i.reset then
    s.stats.train (s.engine.predictor.counter branch) (after.predictor.counter branch)
  else .ok s.stats

/-- One cycle as far as the observers, which have seen it. -/
def clock [MemoryPort σ] (s : Simulator σ) : Except Overflow (Simulator σ × CycleRecord) := do
  let (response, port) ← MemoryPort.respond s.port s.engine.request
  let (resolution, resolver) := s.resolver.take s.cycle
  let i := s.inputs response resolution
  let (engine, o) ← s.engine.step i
  let stats ← s.recordTraining i engine
  let record : CycleRecord := ⟨s.cycle, i, o⟩
  let stats ← stats.observe record
  let scoreboard ← s.scoreboard.observe record
  return ({ s with
    engine, port, resolver, stats, scoreboard, checker := s.checker.observe record, pendingReset := false }, record)

def deliveredBranch (s : Simulator σ) (o : Outputs) : Option BranchRecord :=
  if o.valid then s.truth.lookup o.pc else none

def feedback (s : Simulator σ) (r : CycleRecord) : Except Overflow (Simulator σ × Option (BranchRecord × Nat)) :=
  match s.deliveredBranch r.outputs with
  | some branch => do
    let (due, resolver) ← s.resolver.scheduleAfter r.cycle branch.resolution
    return ({ s with resolver }, some (branch, due))
  | none => .ok (s, none)

def step [MemoryPort σ] (s : Simulator σ) : Except Overflow (Simulator σ × CycleRecord) := do
  let (s, r) ← s.clock
  let (s, _) ← s.feedback r
  return (s, r)

def verdict (s : Simulator σ) (r : CycleRecord) : Option Violation :=
  if s.stopOnViolation then r.violations.head? else none

def runFor [MemoryPort σ] : Nat → Simulator σ → Except Overflow (Simulator σ × Option Violation)
  | 0, s => .ok (s, none)
  | n + 1, s => do
    let (s, r) ← s.step
    match s.verdict r with
    | some v => return (s, some v)
    | none => runFor n s

def run [MemoryPort σ] (s : Simulator σ) (budget : Nat) : Except Overflow (Simulator σ × Option Violation) :=
  runFor (budget - s.cycle) s

end Simulator

end FetchStage
