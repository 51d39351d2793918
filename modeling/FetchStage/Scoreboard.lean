import FetchStage.Count
import FetchStage.Signals
import FetchStage.Memory.Image

/-! # Delivery scoreboard

Every delivered instruction is compared with the word the image holds at its address. The order of deliveries is
not judged, since redirects reorder and repeat addresses.
-/
namespace FetchStage

structure Mismatch where
  cycle : Nat
  pc : Address
  expected : Word
  actual : Word
  deriving DecidableEq

structure Scoreboard where
  image : Image
  agreed : Nat := 0
  disagreed : Nat := 0
  /-- The earliest mismatches. -/
  recorded : List Mismatch := []

namespace Scoreboard

/-- Mismatches kept for reporting. -/
abbrev recordLimit : Nat := 16

def isClean (s : Scoreboard) : Bool := s.disagreed == 0

def observe (s : Scoreboard) (r : CycleRecord) : Except Overflow Scoreboard :=
  let o := r.outputs
  let expected := s.image.read o.pc
  if !o.valid then .ok s
  else if expected = o.instruction then do
    return { s with agreed := ← Count.succ s.agreed }
  else do
    let disagreed ← Count.succ s.disagreed
    let mismatch : Mismatch := ⟨r.cycle, o.pc, expected, o.instruction⟩
    let recorded := if s.recorded.length < recordLimit then s.recorded ++ [mismatch] else s.recorded
    return { s with disagreed, recorded }

end Scoreboard

end FetchStage
