import FetchStage.Branch.Record

/-! # Branch tables

The ground truth of a run: at most one record for each slot index. A later record takes the slot of an earlier one.
-/
namespace FetchStage

structure BranchTable where
  slots : Vector (Option BranchRecord) slotCount

namespace BranchTable

def empty : BranchTable := ⟨Vector.replicate slotCount none⟩

def insert (t : BranchTable) (r : BranchRecord) : BranchTable := ⟨overwrite t.slots r.pc.slot (some r)⟩

def ofRecords (rs : List BranchRecord) : BranchTable := rs.foldl insert empty

/-- The slot's record, with `i` counted modulo the table size. -/
def entry (t : BranchTable) (i : Nat) : Option BranchRecord := t.slots.get (Slot.wrap i)

def lookup (t : BranchTable) (pc : Address) : Option BranchRecord :=
  (t.slots.get pc.slot).filter fun r => r.pc == pc

def size (t : BranchTable) : Nat := t.slots.toList.countP (·.isSome)

def isEmpty (t : BranchTable) : Bool := t.slots.toList.all (·.isNone)

/-- Packed entries slot by slot; a free slot is zero. -/
def packed (t : BranchTable) : List Nat := t.slots.toList.map fun e => (e.map (·.pack)).getD 0

def toList (t : BranchTable) : List (Nat × BranchRecord) :=
  t.slots.toList.zipIdx.filterMap fun (e, i) => e.map (i, ·)

end BranchTable

end FetchStage
