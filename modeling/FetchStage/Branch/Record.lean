import FetchStage.Signals

/-! # Branch records

A known branch outcome, and its packed form of 66 bits: a valid mark, the direction, the branch's address and its
target.
-/
namespace FetchStage

structure BranchRecord where
  pc : Address
  taken : Bool
  target : Address
  deriving DecidableEq

namespace BranchRecord

abbrev entryBits : Nat := 66

def resolution (r : BranchRecord) : Resolution := ⟨true, r.taken, r.pc, r.target⟩

def pack (r : BranchRecord) : Nat :=
  Nat.pow 2 65 + r.taken.toNat * Nat.pow 2 64 + r.pc.toNat * Nat.pow 2 32 + r.target.toNat

/-- An entry whose valid mark is clear holds nothing. Bits above the mark are not looked at. -/
def unpack (bits : Nat) : Option BranchRecord :=
  if bits.testBit 65 then
    some ⟨BitVec.ofNat 32 (bits / Nat.pow 2 32), bits.testBit 64, BitVec.ofNat 32 bits⟩
  else none

end BranchRecord

end FetchStage
