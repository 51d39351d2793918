import FetchStage.Signals
import FetchStage.Memory.Image
import FetchStage.Memory.Timing

/-! # Memory ports

A port samples the engine's request each cycle and answers at once. The latency port follows a single access:
it is ready on the last of as many cycles as its timing asks for, held by the same request. Changing or dropping
the request abandons the access.
-/
namespace FetchStage

class MemoryPort (σ : Type) where
  respond : σ → Request → Except Overflow (Response × σ)

structure InFlight where
  address : Address
  remaining : Nat
  deriving DecidableEq

structure LatencyPort where
  image : Image
  timing : Timing
  inFlight : Option InFlight := none
  /-- Accesses started, abandoned ones included. -/
  accesses : Nat := 0

namespace LatencyPort

def busy (p : LatencyPort) : Bool := p.inFlight.isSome

/-- Starts an access, which lasts at least one cycle. -/
def start (p : LatencyPort) (a : Address) : Except Overflow (InFlight × LatencyPort) := do
  let accesses ← Count.succ p.accesses
  let (cycles, timing) ← p.timing.access a
  return (⟨a, max cycles 1⟩, { p with accesses, timing })

/-- The access that the request continues, or a new one. -/
def current (p : LatencyPort) (a : Address) : Except Overflow (InFlight × LatencyPort) :=
  match p.inFlight with
  | some f => if f.address = a then .ok (f, p) else p.start a
  | none => p.start a

def respond (p : LatencyPort) (r : Request) : Except Overflow (Response × LatencyPort) :=
  if r.readEnable then do
    let (access, p) ← p.current r.address
    match access.remaining - 1 with
    | 0 => return (⟨p.image.read r.address, true⟩, { p with inFlight := none })
    | n + 1 => return ({}, { p with inFlight := some { access with remaining := n + 1 } })
  else .ok ({}, { p with inFlight := none })

instance : MemoryPort LatencyPort := ⟨respond⟩

end LatencyPort

/-- A port that holds one word and answers every `period`-th call, counting all calls from zero. -/
structure PeriodicPort where
  data : Word
  period : Nat
  calls : Nat := 0

namespace PeriodicPort

def respond (p : PeriodicPort) (r : Request) : Except Overflow (Response × PeriodicPort) := do
  let calls ← Count.succ p.calls
  let ready := r.readEnable && p.calls % p.period == 0
  return (⟨if ready then p.data else 0, ready⟩, { p with calls })

instance : MemoryPort PeriodicPort := ⟨respond⟩

end PeriodicPort

end FetchStage
