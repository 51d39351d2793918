import FetchStage.Count
import FetchStage.Word

/-! # Access timing

How many cycles a fetch takes. A fixed model charges every access alike. A bank with a row buffer charges the
column access inside the open row, adds the activation for the first row, and adds precharge and activation
when the row changes.
-/
namespace FetchStage

abbrev rowBytes : Nat := 2048

def Address.row (a : Address) : Nat := a.toNat / rowBytes

structure Bank where
  openRow : Option Nat := none
  columnAccess : Nat
  activate : Nat
  precharge : Nat
  deriving DecidableEq

namespace Bank

/-- Cycles spent before the column access. -/
def overhead (b : Bank) (row : Nat) : Except Overflow Nat :=
  match b.openRow with
  | some r => if r = row then .ok 0 else Count.add b.precharge b.activate
  | none => .ok b.activate

def access (b : Bank) (a : Address) : Except Overflow (Nat × Bank) := do
  let before ← b.overhead a.row
  let cycles ← Count.add before b.columnAccess
  return (cycles, { b with openRow := some a.row })

end Bank

inductive Timing where
  | fixed (latency : Nat)
  | rowBuffer (bank : Bank)
  deriving DecidableEq

/-- Latency of a new access; it may change what later accesses cost. -/
def Timing.access (a : Address) : Timing → Except Overflow (Nat × Timing)
  | .fixed latency => .ok (latency, .fixed latency)
  | .rowBuffer bank => do
    let (cycles, bank) ← bank.access a
    return (cycles, .rowBuffer bank)

end FetchStage
