import FetchStage.Signals

/-! # Wave dump

One compact JSON line for every cycle, written to a sink of limited room. The sink keeps the bytes that fit; a record
that does not fit wholly is a failure, which is kept until the next flush reports it. While a failure is kept nothing
further is attempted.
-/
namespace FetchStage

/-- `"name":value`. -/
def member (name value : String) : String := "\"" ++ name ++ "\":" ++ value

def object (members : List String) : String := "\x7b" ++ String.intercalate "," members ++ "\x7d"

def flagText (b : Bool) : String := if b then "true" else "false"

def wordNumber (w : BitVec 32) : String := toString w.toNat

def Request.json (r : Request) : String :=
  object [member "address" (wordNumber r.address), member "read_enable" (flagText r.readEnable)]

def Response.json (r : Response) : String :=
  object [member "data" (wordNumber r.data), member "ready" (flagText r.ready)]

def Resolution.json (r : Resolution) : String :=
  object [member "resolved" (flagText r.resolved), member "taken" (flagText r.taken),
    member "branch_address" (wordNumber r.branchAddress), member "target" (wordNumber r.target)]

def Prediction.json (p : Prediction) : String :=
  object [member "valid" (flagText p.valid), member "taken" (flagText p.taken), member "target" (wordNumber p.target)]

def FetchState.json (s : FetchState) : String :=
  object [member "current_address" (wordNumber s.currentAddress), member "request_pending" (flagText s.requestPending)]

def Inputs.json (i : Inputs) : String :=
  object [member "reset" (flagText i.reset), member "memory" i.memory.json, member "consume" (flagText i.consume),
    member "stall" (flagText i.stall), member "resolution" i.resolution.json]

def Outputs.json (o : Outputs) : String :=
  object [member "request" o.request.json, member "instruction" (wordNumber o.instruction),
    member "pc" (wordNumber o.pc), member "valid" (flagText o.valid), member "prediction" o.prediction.json,
    member "mispredicted" (flagText o.mispredicted), member "flush" (flagText o.flush),
    member "next_address" (wordNumber o.nextAddress), member "wrote" (flagText o.wrote),
    member "dropped" (flagText o.dropped), member "buffer_full" (flagText o.bufferFull),
    member "buffer_empty" (flagText o.bufferEmpty), member "occupancy" (toString o.occupancy),
    member "next_state" o.nextState.json]

def CycleRecord.waveLine (r : CycleRecord) : String :=
  object [member "cycle" (toString r.cycle), member "inputs" r.inputs.json, member "outputs" r.outputs.json] ++ "\n"

/-- The texts stored so far, newest first, and the room left for more if there is a limit. -/
structure Sink where
  stored : List String := []
  room : Option Nat := none

namespace Sink

def text (s : Sink) : String := String.join s.stored.reverse

def fits (s : Sink) (size : Nat) : Bool :=
  match s.room with
  | some room => size ≤ room
  | none => true

/-- Stores as much of a text as there is room for. Records have a byte for each character. -/
def write (s : Sink) (text : String) : Sink :=
  match s.room with
  | some room => ⟨String.ofList (text.toList.take room) :: s.stored, some (room - text.length)⟩
  | none => ⟨text :: s.stored, none⟩

end Sink

def sinkFull : String := "disk full"

structure WaveDump where
  sink : Sink := {}
  /-- Records stored whole. -/
  lines : Nat := 0
  /-- The failure that waits for a flush. -/
  failed : Bool := false

namespace WaveDump

def observe (w : WaveDump) (r : CycleRecord) : WaveDump :=
  if w.failed then w
  else
    let line := r.waveLine
    let sink := w.sink.write line
    if w.sink.fits line.length then { sink, lines := w.lines + 1 } else { w with sink, failed := true }

instance : Observer WaveDump := ⟨observe⟩

/-- Reports the kept failure and forgets it. -/
def flush (w : WaveDump) : Option String × WaveDump :=
  (if w.failed then some sinkFull else none, { w with failed := false })

end WaveDump

end FetchStage
