import FetchStage.Word

/-! # Prefetch buffer

A ring of `bufferDepth` slots between memory and the consumer. During a cycle a write, a read and a flush are
only staged, against the state that the last cycle left; `commit` applies them together, and a staged flush
overrides the rest. A write and a read in one cycle leave the count alone while the ring advances.
-/
namespace FetchStage

structure BufferEntry where
  address : Address := 0
  word : Word := 0
  deriving DecidableEq, Inhabited

structure Staged where
  write : Option BufferEntry := none
  read : Bool := false
  flush : Bool := false
  deriving DecidableEq

structure Buffer where
  ring : Vector BufferEntry bufferDepth
  readAt : Fin bufferDepth
  writeAt : Fin bufferDepth
  count : Nat
  staged : Staged

namespace Buffer

def empty : Buffer := ⟨Vector.replicate bufferDepth {}, 0, 0, 0, {}⟩

def isFull (b : Buffer) : Bool := b.count == bufferDepth

def isEmpty (b : Buffer) : Bool := b.count == 0

def peek (b : Buffer) : Option BufferEntry :=
  if b.isEmpty then none else some (b.ring.get b.readAt)

def ringIndex (r : Fin bufferDepth) (i : Nat) : Fin bufferDepth := r + Fin.ofNat bufferDepth i

/-- Entries held, oldest first. -/
def toList (b : Buffer) : List BufferEntry := (List.range b.count).map fun i => b.ring.get (ringIndex b.readAt i)

/-- A write is legal while there is room and no other write is staged. -/
def acceptsWrite (b : Buffer) : Bool := !b.isFull && b.staged.write.isNone

/-- Stages an entry at the tail; a write that is not legal changes nothing. -/
def stageWrite (b : Buffer) (e : BufferEntry) : Buffer :=
  if b.acceptsWrite then { b with staged := { b.staged with write := some e } } else b

def stageRead (b : Buffer) : Buffer :=
  if b.isEmpty then b else { b with staged := { b.staged with read := true } }

def stageFlush (b : Buffer) : Buffer := { b with staged := { b.staged with flush := true } }

def applyWrite (b : Buffer) : Buffer :=
  match b.staged.write with
  | some e => { b with ring := overwrite b.ring b.writeAt e, writeAt := b.writeAt + 1, count := b.count + 1 }
  | none => b

def applyRead (b : Buffer) : Buffer :=
  if b.staged.read then { b with readAt := b.readAt + 1, count := b.count - 1 } else b

/-- Applies what is staged, at the end of a cycle. -/
def commit (b : Buffer) : Buffer :=
  if b.staged.flush then { b with readAt := 0, writeAt := 0, count := 0, staged := {} }
  else { b.applyWrite.applyRead with staged := {} }

end Buffer

end FetchStage
