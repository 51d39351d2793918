import FetchStage.Word

/-! # Target cache

A direct-mapped cache of branch targets. A slot remembers the whole address of the branch that last wrote it,
so two branches of one slot evict each other.
-/
namespace FetchStage

structure Cached where
  tag : Address
  target : Address
  deriving DecidableEq

structure TargetCache where
  slots : Vector (Option Cached) slotCount

namespace TargetCache

def empty : TargetCache := ⟨Vector.replicate slotCount none⟩

/-- The slot's contents, with `i` counted modulo the table size. -/
def entry (c : TargetCache) (i : Nat) : Option Cached := c.slots.get (Slot.wrap i)

def lookup (c : TargetCache) (pc : Address) : Option Address :=
  match c.slots.get pc.slot with
  | some e => if e.tag = pc then some e.target else none
  | none => none

def update (c : TargetCache) (pc target : Address) : TargetCache :=
  ⟨overwrite c.slots pc.slot (some ⟨pc, target⟩)⟩

end TargetCache

end FetchStage
