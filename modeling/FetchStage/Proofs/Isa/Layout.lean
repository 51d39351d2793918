import FetchStage.Branch.Extract
import FetchStage.Isa.Instruction
import Mathlib.Algebra.Ring.Int.Defs

/-! # Reading fields back

A layout puts each field into bits of its own, so a field is read back from the word as it was put in. The jump layouts
scatter an offset, and the readers collect it in order; the one bit that is not stored is clear in an even offset, and the
sign survives as long as the offset is within reach.
-/
namespace FetchStage.Isa

section Opcode

theorem opcode_append (fields : BitVec 25) (op : Opcode) : opcode (fields ++ op) = op := by
  rw [opcode, BitVec.extractLsb'_append_eq_of_add_le (by decide), BitVec.extractLsb'_eq_self]

theorem opcode_branchWord (offset : BitVec 13) (b a : Register) (f : Funct3) :
    opcode (branchWord offset b a f) = Opcode.branch :=
  opcode_append _ _

theorem opcode_jumpWord (offset : BitVec 21) (d : Register) : opcode (jumpWord offset d) = Opcode.jal :=
  opcode_append _ _

theorem opcode_immediateWord (imm : BitVec 12) (a : Register) (f : Funct3) (d : Register) (op : Opcode) :
    opcode (immediateWord imm a f d op) = op :=
  opcode_append _ _

theorem opcode_registerWord (g : Funct7) (b a : Register) (f : Funct3) (d : Register) :
    opcode (registerWord g b a f d) = Opcode.register :=
  opcode_append _ _

end Opcode

section Offset

/-- The bits above the lowest, followed by a clear one. -/
theorem extract_append_zero {n : Nat} {x : BitVec (n + 1)} (h : x.extractLsb' 0 1 = 0#1) :
    x.extractLsb' 1 n ++ 0#1 = x := by
  rw [← h, BitVec.extractLsb'_append_extractLsb'_eq_extractLsb' (Nat.zero_add 1).symm, BitVec.extractLsb'_eq_self]

theorem branchOffset_branchWord {offset : BitVec 13} (h : offset.extractLsb' 0 1 = 0#1) (b a : Register) (f : Funct3) :
    branchOffset (branchWord offset b a f) = offset := by
  unfold branchOffset branchWord
  simp (disch := decide) only [BitVec.extractLsb'_append_eq_of_add_le, BitVec.extractLsb'_append_eq_of_le,
    Nat.reduceSub, BitVec.extractLsb'_eq_self]
  rw [BitVec.extractLsb'_append_extractLsb'_eq_extractLsb' (rfl : 12 = 11 + 1),
    BitVec.extractLsb'_append_extractLsb'_eq_extractLsb' (rfl : 11 = 5 + 6),
    BitVec.extractLsb'_append_extractLsb'_eq_extractLsb' (rfl : 5 = 1 + 4)]
  exact extract_append_zero h

theorem jumpOffset_jumpWord {offset : BitVec 21} (h : offset.extractLsb' 0 1 = 0#1) (d : Register) :
    jumpOffset (jumpWord offset d) = offset := by
  unfold jumpOffset jumpWord
  simp (disch := decide) only [BitVec.extractLsb'_append_eq_of_add_le, BitVec.extractLsb'_append_eq_of_le,
    Nat.reduceSub, BitVec.extractLsb'_eq_self]
  rw [BitVec.extractLsb'_append_extractLsb'_eq_extractLsb' (rfl : 20 = 12 + 8),
    BitVec.extractLsb'_append_extractLsb'_eq_extractLsb' (rfl : 12 = 11 + 1),
    BitVec.extractLsb'_append_extractLsb'_eq_extractLsb' (rfl : 11 = 1 + 10)]
  exact extract_append_zero h

theorem lowBit_ofInt {n : Nat} {offset : Int} (h : offset % 2 = 0) :
    (BitVec.ofInt (n + 1) offset).extractLsb' 0 1 = 0#1 := by
  apply BitVec.eq_of_toNat_eq
  have hn : ((2 ^ (n + 1) : Nat) : Int) = 2 * (2 ^ n : Nat) := by
    rw [Nat.pow_succ]
    omega
  have hmod : offset % ((2 ^ (n + 1) : Nat) : Int) % 2 = 0 := by
    rw [hn, Int.emod_emod_of_dvd _ (Int.dvd_mul_right _ _)]
    exact h
  rw [BitVec.extractLsb'_toNat, BitVec.toNat_ofInt]
  simp only [Nat.shiftRight_zero, BitVec.toNat_ofNat]
  omega

/-- A signed number that fits keeps its value in a wider word. -/
theorem signExtend_ofInt {n : Nat} {offset : Int} (hlow : -(2 ^ n : Int) ≤ offset) (hhigh : offset < 2 ^ n) :
    (BitVec.ofInt (n + 1) offset).signExtend 32 = BitVec.ofInt 32 offset := by
  have hn : ((2 ^ (n + 1) : Nat) : Int) = 2 * 2 ^ n := by
    rw [Nat.pow_succ]
    push_cast
    omega
  have hvalue : (BitVec.ofInt (n + 1) offset).toInt = offset := by
    rw [BitVec.toInt_ofInt]
    apply Int.bmod_eq_of_le <;> rw [hn] <;> omega
  rw [BitVec.signExtend, hvalue]

end Offset

namespace Instruction

/-- Offsets that the word of an instruction can hold. -/
def Encodable : Instruction → Prop
  | .branch _ _ _ offset => offset % 2 = 0 ∧ -4096 ≤ offset ∧ offset ≤ 4094
  | .jal _ offset => offset % 2 = 0 ∧ -1048576 ≤ offset ∧ offset ≤ 1048574
  | _ => True

/-- The branch that an instruction at position `i` is. -/
def branch? (i : Nat) : Instruction → Option BranchRecord
  | .branch _ _ _ offset => some ⟨.ofIndex i, i % 2 == 0, .ofIndex i + BitVec.ofInt 32 offset⟩
  | .jal _ offset => some ⟨.ofIndex i, true, .ofIndex i + BitVec.ofInt 32 offset⟩
  | _ => none

/-- What the opcode and the offset readers find in a word is the instruction it was made from. -/
theorem branchAt_encode {ins : Instruction} (h : ins.Encodable) (i : Nat) : branchAt i ins.encode = ins.branch? i := by
  cases ins with
  | branch c a b offset =>
    obtain ⟨heven, hlow, hhigh⟩ := h
    have hoffset := branchOffset_branchWord (lowBit_ofInt heven) b a c.funct3
    have hsign : (BitVec.ofInt 13 offset).signExtend 32 = BitVec.ofInt 32 offset :=
      signExtend_ofInt (by omega) (by omega)
    simp only [branchAt, encode, opcode_branchWord, if_true, branch?, hoffset, hsign]
  | jal d offset =>
    obtain ⟨heven, hlow, hhigh⟩ := h
    have hoffset := jumpOffset_jumpWord (lowBit_ofInt heven) d
    have hsign : (BitVec.ofInt 21 offset).signExtend 32 = BitVec.ofInt 32 offset :=
      signExtend_ofInt (by omega) (by omega)
    have hop : Opcode.jal ≠ Opcode.branch := by decide
    simp only [branchAt, encode, opcode_jumpWord, hop, if_false, if_true, branch?, hoffset, hsign]
  | jalr d a imm =>
    have hop : Opcode.jalr ≠ Opcode.branch ∧ Opcode.jalr ≠ Opcode.jal := by decide
    simp only [branchAt, encode, opcode_immediateWord, hop.1, hop.2, if_false, branch?]
  | register op d a b =>
    have hop : Opcode.register ≠ Opcode.branch ∧ Opcode.register ≠ Opcode.jal := by decide
    simp only [branchAt, encode, opcode_registerWord, hop.1, hop.2, if_false, branch?]
  | immediate op d a imm =>
    have hop : Opcode.immediate ≠ Opcode.branch ∧ Opcode.immediate ≠ Opcode.jal := by decide
    simp only [branchAt, encode, opcode_immediateWord, hop.1, hop.2, if_false, branch?]

end Instruction

end FetchStage.Isa
