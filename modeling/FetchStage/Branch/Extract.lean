import FetchStage.Branch.Record
import FetchStage.Isa.Field

/-! # Static branches

The branches of a program image placed at address zero, by opcode alone. Outcomes are assumed: a jump is taken, and a
conditional branch is taken where its word index is even.
-/
namespace FetchStage
open Isa

def branchAt (i : Nat) (w : Word) : Option BranchRecord :=
  let pc := Address.ofIndex i
  if opcode w = Opcode.branch then some ⟨pc, i % 2 == 0, pc + (branchOffset w).signExtend 32⟩
  else if opcode w = Opcode.jal then some ⟨pc, true, pc + (jumpOffset w).signExtend 32⟩
  else none

def staticBranches (program : List Word) : List BranchRecord :=
  program.zipIdx.filterMap fun (w, i) => branchAt i w

end FetchStage
