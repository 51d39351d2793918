import FetchStage.Signals
import FetchStage.Predictor.Counter
import FetchStage.Predictor.TargetCache

/-! # Branch predictor

A direction counter and a target cache slot per slot index. Every resolved branch allocates its slot, whether
it was taken or not. A lookup hits only a slot that the very address wrote last.
-/
namespace FetchStage

structure Predictor where
  directions : Vector Counter slotCount
  targets : TargetCache

namespace Predictor

/-- One slot, both tables together. -/
structure Entry where
  counter : Counter := .reset
  cached : Option Cached := none
  deriving DecidableEq

def initial : Predictor := ⟨Vector.replicate slotCount .reset, .empty⟩

def counter (p : Predictor) (a : Address) : Counter := p.directions.get a.slot

def entry (p : Predictor) (i : Nat) : Entry := ⟨p.directions.get (Slot.wrap i), p.targets.entry i⟩

def predict (p : Predictor) (a : Address) (enabled : Bool) : Prediction :=
  if enabled then
    match p.targets.lookup a with
    | some target => ⟨true, (p.counter a).predictsTaken, target⟩
    | none => .miss
  else .miss

def train (p : Predictor) (a : Address) (taken : Bool) (target : Address) : Predictor :=
  ⟨overwrite p.directions a.slot ((p.counter a).train taken), p.targets.update a target⟩

def update (p : Predictor) (enabled : Bool) (a : Address) (taken : Bool) (target : Address) : Predictor :=
  if enabled then p.train a taken target else p

/-- The slots that differ from a fresh predictor's, by index. -/
def trained (p : Predictor) : List (Nat × Entry) :=
  (List.range slotCount).filterMap fun i =>
    if p.entry i = {} then none else some (i, p.entry i)

end Predictor

end FetchStage
