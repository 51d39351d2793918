import FetchStage.Count
import FetchStage.Buffer
import FetchStage.Predictor.Basic

/-! # Fetch engine

A clocked machine that owns the predictor, the prefetch buffer and the fetch registers. `outputs` gives the
signals of a cycle from the state before it and the sampled inputs; `next` gives the state after it. So a flush
or a predictor update is first seen on the following cycle. The cycle counter is simulated time: it runs on
through resets, and a step is refused only when it would leave its range.
-/
namespace FetchStage

structure Engine where
  state : FetchState
  predictor : Predictor
  buffer : Buffer
  cycle : Nat

namespace Engine

def initial : Engine := ⟨{}, .initial, .empty, 0⟩

/-- Every component as at the start, save for the cycle counter. -/
def reset (e : Engine) : Engine := { initial with cycle := e.cycle }

def request (e : Engine) : Request := ⟨e.state.currentAddress, e.state.requestPending⟩

/-- Lookup of the current address, made only while a request is pending. -/
def prediction (e : Engine) : Prediction :=
  e.predictor.predict e.state.currentAddress e.state.requestPending

def mispredicts (e : Engine) (i : Inputs) : Bool := e.prediction.refutedBy i.resolution

def nextAddress (e : Engine) (i : Inputs) : Address :=
  if e.mispredicts i then i.resolution.target
  else if e.prediction.redirects then e.prediction.target
  else e.state.currentAddress.next

def receives (e : Engine) (i : Inputs) : Bool := i.memory.ready && e.state.requestPending

def serves (i : Inputs) : Bool := i.consume && !i.stall

def delivered (e : Engine) (i : Inputs) : Option BufferEntry :=
  if serves i then e.buffer.peek else none

/-- Fetch registers after a cycle without reset. A full buffer withdraws the request; a stall alone holds
everything. -/
def nextState (e : Engine) (i : Inputs) : FetchState :=
  if e.mispredicts i then ⟨i.resolution.target, true⟩
  else if !i.stall && !e.buffer.isFull then ⟨e.nextAddress i, true⟩
  else if e.buffer.isFull then ⟨e.state.currentAddress, false⟩
  else e.state

def staged (e : Engine) (i : Inputs) : Buffer :=
  let b := e.buffer
  let b := if e.receives i then b.stageWrite ⟨e.state.currentAddress, i.memory.data⟩ else b
  let b := if serves i then b.stageRead else b
  if e.mispredicts i then b.stageFlush else b

def nextBuffer (e : Engine) (i : Inputs) : Buffer := (e.staged i).commit

def next (e : Engine) (i : Inputs) : Engine :=
  if i.reset then e.reset
  else
    { e with
      state := e.nextState i
      predictor :=
        e.predictor.update i.resolution.resolved i.resolution.branchAddress i.resolution.taken i.resolution.target
      buffer := e.nextBuffer i }

/-- Signals of the cycle. On a reset only the request and the buffer's status are driven. -/
def outputs (e : Engine) (i : Inputs) : Outputs :=
  let status : Outputs :=
    { request := e.request
      bufferFull := e.buffer.isFull
      bufferEmpty := e.buffer.isEmpty
      occupancy := e.buffer.count
      nextState := if i.reset then {} else e.nextState i }
  if i.reset then status
  else
    let wrote := e.receives i && e.buffer.acceptsWrite
    { status with
      instruction := ((e.delivered i).map (·.word)).getD 0
      pc := ((e.delivered i).map (·.address)).getD 0
      valid := (e.delivered i).isSome
      prediction := e.prediction
      mispredicted := e.mispredicts i
      flush := e.mispredicts i
      nextAddress := e.nextAddress i
      wrote := wrote
      dropped := e.receives i && !wrote }

def step (e : Engine) (i : Inputs) : Except Overflow (Engine × Outputs) := do
  let cycle ← Count.succ e.cycle
  return ({ e.next i with cycle }, e.outputs i)

def run (e : Engine) : List Inputs → Except Overflow (Engine × List Outputs)
  | [] => .ok (e, [])
  | i :: rest => do
    let (e, o) ← e.step i
    let (e, os) ← e.run rest
    return (e, o :: os)

end Engine

end FetchStage
