import FetchStage.Isa.Field
import Mathlib.Algebra.Group.Nat.Defs
import Mathlib.Algebra.Ring.Int.Defs

/-! # Layouts by shifts and masks

The jump layouts in another form: masks keep the pieces of an offset, shifts put them in place, and a constant fills the
sign of a gathered offset. Both forms give the same words and the same offsets.
-/
namespace FetchStage.Isa

/-- A conditional branch from words that hold an offset and the other fields in their low bits. -/
def shiftedBranch (imm rs2 rs1 f3 : Word) : Word :=
  (imm >>> 12 &&& 1) <<< 31 ||| (imm >>> 5 &&& 0x3F) <<< 25 ||| rs2 <<< 20 ||| rs1 <<< 15 ||| f3 <<< 12 |||
    (imm >>> 1 &&& 0xF) <<< 8 ||| (imm >>> 11 &&& 1) <<< 7 ||| 0x63

def shiftedJump (imm rd : Word) : Word :=
  (imm >>> 20 &&& 1) <<< 31 ||| (imm >>> 1 &&& 0x3FF) <<< 21 ||| (imm >>> 11 &&& 1) <<< 20 |||
    (imm >>> 12 &&& 0xFF) <<< 12 ||| rd <<< 7 ||| 0x6F

/-- The offset of a conditional branch; a set sign bit fills all bits above the offset. -/
def gatheredBranch (w : Word) : Word :=
  let offset :=
    (w >>> 31 &&& 1) <<< 12 ||| (w >>> 7 &&& 1) <<< 11 ||| (w >>> 25 &&& 0x3F) <<< 5 ||| (w >>> 8 &&& 0xF) <<< 1
  if w >>> 31 &&& 1 = 1 then offset ||| 0xFFFFE000 else offset

def gatheredJump (w : Word) : Word :=
  let offset :=
    (w >>> 31 &&& 1) <<< 20 ||| (w >>> 12 &&& 0xFF) <<< 12 ||| (w >>> 20 &&& 1) <<< 11 ||| (w >>> 21 &&& 0x3FF) <<< 1
  if w >>> 31 &&& 1 = 1 then offset ||| 0xFFE00000 else offset

section Bits
variable {n m : Nat}

/-- A mask of the lowest bits keeps a field. -/
theorem and_mask (mask : Word) (n : Nat) (h : ∀ i < 32, mask.getLsbD i = decide (i < n)) (x : Word) (start : Nat) :
    x >>> start &&& mask = (x.extractLsb' start n).setWidth 32 := by
  ext i hi
  rw [BitVec.getElem_and, BitVec.getElem_ushiftRight, ← BitVec.getLsbD_eq_getElem, h i hi, BitVec.getElem_setWidth,
    BitVec.getLsbD_extractLsb', Bool.and_comm]

theorem setWidth_append_eq_or (x : BitVec n) (y : BitVec m) :
    (x ++ y).setWidth 32 = x.setWidth 32 <<< m ||| y.setWidth 32 := by
  ext i hi
  simp only [BitVec.getElem_setWidth, BitVec.getLsbD_append, BitVec.getElem_or, BitVec.getElem_shiftLeft]
  by_cases h : i < m
  · simp [h]
  · simp [h, BitVec.getLsbD_of_ge y i (by omega)]

theorem signExtend_eq_or {sign : Word} (h : ∀ i < 32, sign.getLsbD i = decide (n ≤ i)) (x : BitVec n) :
    x.signExtend 32 = if x.msb then x.setWidth 32 ||| sign else x.setWidth 32 := by
  ext i hi
  have hsign : sign[i] = decide (n ≤ i) := h i hi
  rw [BitVec.getElem_signExtend]
  by_cases hin : i < n
  · have hout : ¬ n ≤ i := by omega
    cases x.msb <;> simp [hin, hsign, hout]
  · have hout : n ≤ i := by omega
    cases x.msb <;> simp [hin, hsign, hout]

theorem ofInt_eq_setWidth (h : n ≤ 32) (offset : Int) :
    BitVec.ofInt n offset = (BitVec.ofInt 32 offset).setWidth n := by
  have hdvd : ((2 ^ n : Nat) : Int) ∣ ((2 ^ 32 : Nat) : Int) := Int.natCast_dvd_natCast.mpr (Nat.pow_dvd_pow 2 h)
  have hmod := Int.emod_emod_of_dvd offset hdvd
  apply BitVec.eq_of_toNat_eq
  rw [BitVec.toNat_setWidth, BitVec.toNat_ofInt, BitVec.toNat_ofInt, ← hmod, Int.toNat_emod (by omega) (by omega),
    Int.toNat_natCast]

end Bits

theorem sign_eq_one_iff (w : Word) : w >>> 31 &&& 1 = 1 ↔ w.msb := by
  rw [and_mask 1 1 (by decide), BitVec.msb_eq_getLsbD_last]
  constructor
  · intro h
    simpa using congrArg (·.getLsbD 0) h
  · intro h
    have hbit : w.extractLsb' 31 1 = 1#1 := by
      ext i hi
      obtain rfl : i = 0 := by omega
      simpa using h
    rw [hbit]
    rfl

theorem branchWord_eq_shifted (offset : Int) (b a : Register) (f : Funct3) :
    branchWord (BitVec.ofInt 13 offset) b a f =
      shiftedBranch (BitVec.ofInt 32 offset) (b.setWidth 32) (a.setWidth 32) (f.setWidth 32) := by
  have hop : (0x63 : Word) = Opcode.branch.setWidth 32 := rfl
  rw [ofInt_eq_setWidth (by decide), ← BitVec.setWidth_eq (branchWord _ _ _ _), branchWord,
    setWidth_append_eq_or (n := 25) (m := 7), setWidth_append_eq_or (n := 24) (m := 1),
    setWidth_append_eq_or (n := 20) (m := 4), setWidth_append_eq_or (n := 17) (m := 3),
    setWidth_append_eq_or (n := 12) (m := 5), setWidth_append_eq_or (n := 7) (m := 5),
    setWidth_append_eq_or (n := 1) (m := 6), shiftedBranch, and_mask 1 1 (by decide), and_mask 1 1 (by decide),
    and_mask 0xF 4 (by decide), and_mask 0x3F 6 (by decide), hop]
  simp (disch := decide) only [BitVec.extractLsb'_setWidth_of_le, BitVec.shiftLeft_or_distrib, ← BitVec.shiftLeft_add,
    Nat.reduceAdd]

theorem jumpWord_eq_shifted (offset : Int) (d : Register) :
    jumpWord (BitVec.ofInt 21 offset) d = shiftedJump (BitVec.ofInt 32 offset) (d.setWidth 32) := by
  have hop : (0x6F : Word) = Opcode.jal.setWidth 32 := rfl
  rw [ofInt_eq_setWidth (by decide), ← BitVec.setWidth_eq (jumpWord _ _), jumpWord,
    setWidth_append_eq_or (n := 25) (m := 7), setWidth_append_eq_or (n := 20) (m := 5),
    setWidth_append_eq_or (n := 12) (m := 8), setWidth_append_eq_or (n := 11) (m := 1),
    setWidth_append_eq_or (n := 1) (m := 10), shiftedJump, and_mask 1 1 (by decide), and_mask 1 1 (by decide),
    and_mask 0xFF 8 (by decide), and_mask 0x3FF 10 (by decide), hop]
  simp (disch := decide) only [BitVec.extractLsb'_setWidth_of_le, BitVec.shiftLeft_or_distrib, ← BitVec.shiftLeft_add,
    Nat.reduceAdd]

theorem signExtend_branchOffset (w : Word) : (branchOffset w).signExtend 32 = gatheredBranch w := by
  have hmsb : (branchOffset w).msb = w.msb := by
    rw [branchOffset, BitVec.msb_append (w := 12) (v := 1), BitVec.msb_append (w := 8) (v := 4),
      BitVec.msb_append (w := 2) (v := 6), BitVec.msb_append (w := 1) (v := 1)]
    simp [BitVec.msb_eq_getMsbD_zero]
  have hwidth : (branchOffset w).setWidth 32 = (w >>> 31 &&& 1) <<< 12 ||| (w >>> 7 &&& 1) <<< 11 |||
      (w >>> 25 &&& 0x3F) <<< 5 ||| (w >>> 8 &&& 0xF) <<< 1 := by
    rw [branchOffset, setWidth_append_eq_or (n := 12) (m := 1), setWidth_append_eq_or (n := 8) (m := 4),
      setWidth_append_eq_or (n := 2) (m := 6), setWidth_append_eq_or (n := 1) (m := 1), and_mask 1 1 (by decide),
      and_mask 1 1 (by decide), and_mask 0xF 4 (by decide), and_mask 0x3F 6 (by decide)]
    simp only [BitVec.shiftLeft_or_distrib, ← BitVec.shiftLeft_add, Nat.reduceAdd]
    exact BitVec.or_zero
  have hsign : ∀ i < 32, (0xFFFFE000 : Word).getLsbD i = decide (13 ≤ i) := by decide
  rw [signExtend_eq_or hsign, hmsb, hwidth]
  simp only [gatheredBranch, sign_eq_one_iff]

theorem signExtend_jumpOffset (w : Word) : (jumpOffset w).signExtend 32 = gatheredJump w := by
  have hmsb : (jumpOffset w).msb = w.msb := by
    rw [jumpOffset, BitVec.msb_append (w := 20) (v := 1), BitVec.msb_append (w := 10) (v := 10),
      BitVec.msb_append (w := 9) (v := 1), BitVec.msb_append (w := 1) (v := 8)]
    simp [BitVec.msb_eq_getMsbD_zero]
  have hwidth : (jumpOffset w).setWidth 32 = (w >>> 31 &&& 1) <<< 20 ||| (w >>> 12 &&& 0xFF) <<< 12 |||
      (w >>> 20 &&& 1) <<< 11 ||| (w >>> 21 &&& 0x3FF) <<< 1 := by
    rw [jumpOffset, setWidth_append_eq_or (n := 20) (m := 1), setWidth_append_eq_or (n := 10) (m := 10),
      setWidth_append_eq_or (n := 9) (m := 1), setWidth_append_eq_or (n := 1) (m := 8), and_mask 1 1 (by decide),
      and_mask 1 1 (by decide), and_mask 0xFF 8 (by decide), and_mask 0x3FF 10 (by decide)]
    simp only [BitVec.shiftLeft_or_distrib, ← BitVec.shiftLeft_add, Nat.reduceAdd]
    exact BitVec.or_zero
  have hsign : ∀ i < 32, (0xFFE00000 : Word).getLsbD i = decide (21 ≤ i) := by decide
  rw [signExtend_eq_or hsign, hmsb, hwidth]
  simp only [gatheredJump, sign_eq_one_iff]

end FetchStage.Isa
