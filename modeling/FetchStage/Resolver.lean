import FetchStage.Count
import FetchStage.Signals

/-! # Resolution queue

Branch outcomes that wait for the cycle they are presented on, at most one for each cycle. The queue lists its
slots in increasing order of cycle.
-/
namespace FetchStage

structure Resolver where
  /-- Cycles between a delivery and its resolution. -/
  delay : Nat := 1
  queue : List (Nat × Resolution) := []

namespace Resolver

/-- Puts a fact into the first free cycle from `due` on, and names that cycle. -/
def place (fact : Resolution) (due : Nat) :
    List (Nat × Resolution) → Except Overflow (Nat × List (Nat × Resolution))
  | [] => .ok (due, [(due, fact)])
  | (cycle, held) :: rest =>
    if due < cycle then .ok (due, (due, fact) :: (cycle, held) :: rest)
    else do
      let due ← if cycle = due then Count.succ due else .ok due
      let (slot, rest) ← place fact due rest
      return (slot, (cycle, held) :: rest)

def schedule (r : Resolver) (due : Nat) (fact : Resolution) : Except Overflow (Nat × Resolver) := do
  let (slot, queue) ← place fact due r.queue
  return (slot, { r with queue })

def scheduleAfter (r : Resolver) (cycle : Nat) (fact : Resolution) : Except Overflow (Nat × Resolver) := do
  r.schedule (← Count.add cycle r.delay) fact

/-- Removes the earliest fact if it is due by `cycle`; otherwise the idle fact is presented. -/
def take (r : Resolver) (cycle : Nat) : Resolution × Resolver :=
  match r.queue with
  | (due, fact) :: rest => if due ≤ cycle then (fact, { r with queue := rest }) else (.idle, r)
  | [] => (.idle, r)

def pending (r : Resolver) : Nat := r.queue.length

def clear (r : Resolver) : Resolver := { r with queue := [] }

end Resolver

end FetchStage
