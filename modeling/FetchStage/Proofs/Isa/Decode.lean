import FetchStage.Proofs.Isa.Layout

/-! # Words and the instructions they hold

A layout leaves no bit of its word unused, so a branch or a jump is again the word of its own fields, and its offset is even
and within reach. Decoding reads operation codes from tables of their own; the word of an instruction decodes to that
instruction whenever the numbers in it fit their fields.
-/
namespace FetchStage.Isa

section Fields

theorem fields_registerWord (g : Funct7) (b a : Register) (f : Funct3) (d : Register) :
    funct7 (registerWord g b a f d) = g ∧ rs2 (registerWord g b a f d) = b ∧ rs1 (registerWord g b a f d) = a ∧
      funct3 (registerWord g b a f d) = f ∧ rd (registerWord g b a f d) = d := by
  unfold registerWord funct7 rs2 rs1 funct3 rd
  simp (disch := decide) only [BitVec.extractLsb'_append_eq_of_add_le, BitVec.extractLsb'_append_eq_of_le,
    Nat.reduceSub, BitVec.extractLsb'_eq_self, and_self]

def immediateField (w : Word) : BitVec 12 := w.extractLsb' 20 12

theorem fields_immediateWord (imm : BitVec 12) (a : Register) (f : Funct3) (d : Register) (op : Opcode) :
    immediateField (immediateWord imm a f d op) = imm ∧ rs1 (immediateWord imm a f d op) = a ∧
      funct3 (immediateWord imm a f d op) = f ∧ rd (immediateWord imm a f d op) = d := by
  unfold immediateWord immediateField rs1 funct3 rd
  simp (disch := decide) only [BitVec.extractLsb'_append_eq_of_add_le, BitVec.extractLsb'_append_eq_of_le,
    Nat.reduceSub, BitVec.extractLsb'_eq_self, and_self]

theorem fields_branchWord (offset : BitVec 13) (b a : Register) (f : Funct3) :
    rs2 (branchWord offset b a f) = b ∧ rs1 (branchWord offset b a f) = a ∧ funct3 (branchWord offset b a f) = f := by
  unfold branchWord rs2 rs1 funct3
  simp (disch := decide) only [BitVec.extractLsb'_append_eq_of_add_le, BitVec.extractLsb'_append_eq_of_le,
    Nat.reduceSub, BitVec.extractLsb'_eq_self, and_self]

theorem rd_jumpWord (offset : BitVec 21) (d : Register) : rd (jumpWord offset d) = d := by
  unfold jumpWord rd
  simp (disch := decide) only [BitVec.extractLsb'_append_eq_of_add_le, BitVec.extractLsb'_append_eq_of_le,
    Nat.reduceSub, BitVec.extractLsb'_eq_self]

end Fields

section Inverse
variable {w : Word}

theorem branchWord_fields (h : opcode w = Opcode.branch) :
    branchWord (branchOffset w) (rs2 w) (rs1 w) (funct3 w) = w := by
  unfold branchWord branchOffset rs2 rs1 funct3
  rw [← h, opcode]
  simp (disch := decide) only [BitVec.extractLsb'_append_eq_of_add_le, BitVec.extractLsb'_append_eq_of_le,
    Nat.reduceSub, BitVec.extractLsb'_eq_self]
  simp (disch := rfl) only [BitVec.extractLsb'_append_extractLsb'_eq_extractLsb', BitVec.extractLsb'_eq_self]

theorem jumpWord_fields (h : opcode w = Opcode.jal) : jumpWord (jumpOffset w) (rd w) = w := by
  unfold jumpWord jumpOffset rd
  rw [← h, opcode]
  simp (disch := decide) only [BitVec.extractLsb'_append_eq_of_add_le, BitVec.extractLsb'_append_eq_of_le,
    Nat.reduceSub, BitVec.extractLsb'_eq_self]
  simp (disch := rfl) only [BitVec.extractLsb'_append_extractLsb'_eq_extractLsb', BitVec.extractLsb'_eq_self]

/-- A clear lowest bit doubles the signed number above it. -/
theorem toInt_append_zero {n : Nat} (x : BitVec (n + 1)) : (x ++ 0#1).toInt = 2 * x.toInt := by
  simp [BitVec.toInt_append]

theorem branchOffset_range (w : Word) :
    (branchOffset w).toInt % 2 = 0 ∧ -4096 ≤ (branchOffset w).toInt ∧ (branchOffset w).toInt ≤ 4094 := by
  have hdouble : (branchOffset w).toInt = 2 * _ := toInt_append_zero (n := 11) _
  have hlow := BitVec.le_toInt (branchOffset w)
  have hhigh := BitVec.toInt_lt (x := branchOffset w)
  omega

theorem jumpOffset_range (w : Word) :
    (jumpOffset w).toInt % 2 = 0 ∧ -1048576 ≤ (jumpOffset w).toInt ∧ (jumpOffset w).toInt ≤ 1048574 := by
  have hdouble : (jumpOffset w).toInt = 2 * _ := toInt_append_zero (n := 19) _
  have hlow := BitVec.le_toInt (jumpOffset w)
  have hhigh := BitVec.toInt_lt (x := jumpOffset w)
  omega

theorem toInt_branchWord {offset : Int} (heven : offset % 2 = 0) (hlow : -4096 ≤ offset) (hhigh : offset ≤ 4094)
    (b a : Register) (f : Funct3) : (branchOffset (branchWord (BitVec.ofInt 13 offset) b a f)).toInt = offset := by
  rw [branchOffset_branchWord (lowBit_ofInt heven)]
  exact BitVec.toInt_ofInt_eq_self (by decide) hlow (by omega)

theorem toInt_jumpWord {offset : Int} (heven : offset % 2 = 0) (hlow : -1048576 ≤ offset) (hhigh : offset ≤ 1048574)
    (d : Register) : (jumpOffset (jumpWord (BitVec.ofInt 21 offset) d)).toInt = offset := by
  rw [jumpOffset_jumpWord (lowBit_ofInt heven)]
  exact BitVec.toInt_ofInt_eq_self (by decide) hlow (by omega)

/-- The jump layouts and the offset readers undo each other: a word is made from what is read of it, and an offset is read
as it was put in. -/
theorem layouts_inverse :
    (∀ w, opcode w = 0x63 →
      ∃ offset : Int, offset % 2 = 0 ∧ -4096 ≤ offset ∧ offset ≤ 4094 ∧
        (branchOffset w).signExtend 32 = BitVec.ofInt 32 offset ∧
        branchWord (BitVec.ofInt 13 offset) (rs2 w) (rs1 w) (funct3 w) = w) ∧
    (∀ w, opcode w = 0x6F →
      ∃ offset : Int, offset % 2 = 0 ∧ -2 ^ 20 ≤ offset ∧ offset ≤ 2 ^ 20 - 2 ∧
        (jumpOffset w).signExtend 32 = BitVec.ofInt 32 offset ∧ jumpWord (BitVec.ofInt 21 offset) (rd w) = w) ∧
    (∀ (offset : Int) (b a : Register) (f : Funct3), offset % 2 = 0 → -4096 ≤ offset → offset ≤ 4094 →
      (branchOffset (branchWord (BitVec.ofInt 13 offset) b a f)).signExtend 32 = BitVec.ofInt 32 offset) ∧
    (∀ (offset : Int) (d : Register), offset % 2 = 0 → -2 ^ 20 ≤ offset → offset ≤ 2 ^ 20 - 2 →
      (jumpOffset (jumpWord (BitVec.ofInt 21 offset) d)).signExtend 32 = BitVec.ofInt 32 offset) := by
  refine ⟨?_, ?_, ?_, ?_⟩
  · intro w hop
    obtain ⟨heven, hlow, hhigh⟩ := branchOffset_range w
    refine ⟨(branchOffset w).toInt, heven, hlow, hhigh, rfl, ?_⟩
    rw [BitVec.ofInt_toInt]
    exact branchWord_fields hop
  · intro w hop
    obtain ⟨heven, hlow, hhigh⟩ := jumpOffset_range w
    refine ⟨(jumpOffset w).toInt, heven, hlow, by omega, rfl, ?_⟩
    rw [BitVec.ofInt_toInt]
    exact jumpWord_fields hop
  · intro offset b a f heven hlow hhigh
    exact congrArg (BitVec.ofInt 32) (toInt_branchWord heven hlow hhigh b a f)
  · intro offset d heven hlow hhigh
    exact congrArg (BitVec.ofInt 32) (toInt_jumpWord heven hlow (by omega) d)

/-- A branch back into the middle of a word, on a condition that no mnemonic names, and the longest jump back. -/
theorem layouts_inverse_back :
    opcode 0xAB5C2DE3 = 0x63 ∧
    (∃ offset : Int, offset % 2 = 0 ∧ -4096 ≤ offset ∧ offset ≤ 4094 ∧
      (branchOffset 0xAB5C2DE3).signExtend 32 = BitVec.ofInt 32 offset ∧
      branchWord (BitVec.ofInt 13 offset) (rs2 0xAB5C2DE3) (rs1 0xAB5C2DE3) (funct3 0xAB5C2DE3) = 0xAB5C2DE3) ∧
    (branchOffset (branchWord (BitVec.ofInt 13 (-1350)) 21 24 2)).signExtend 32 = BitVec.ofInt 32 (-1350) ∧
    (jumpOffset (jumpWord (BitVec.ofInt 21 (-1048576)) 31)).signExtend 32 = BitVec.ofInt 32 (-1048576) :=
  ⟨by decide, layouts_inverse.1 _ (by decide), layouts_inverse.2.2.1 _ _ _ _ (by decide) (by decide) (by decide),
    layouts_inverse.2.2.2 _ _ (by decide) (by decide) (by decide)⟩

end Inverse

section Decode

/-- The conditions by their codes. -/
def conditionCodes : List (Funct3 × Condition) := [(0b000, .eq), (0b001, .ne), (0b100, .lt), (0b101, .ge)]

def registerCodes : List ((Funct7 × Funct3) × RegisterOp) :=
  [((0b0000000, 0b000), .add), ((0b0100000, 0b000), .sub), ((0b0000000, 0b100), .xor), ((0b0000000, 0b110), .or),
    ((0b0000000, 0b111), .and)]

def immediateCodes : List (Funct3 × ImmediateOp) := [(0b000, .add), (0b100, .xor), (0b110, .or), (0b111, .and)]

/-- The instruction that a word holds, if it is one of those in use. -/
def decode (w : Word) : Option Instruction :=
  if opcode w = 0b1100011 then
    (conditionCodes.lookup (funct3 w)).map fun c => .branch c (rs1 w) (rs2 w) (branchOffset w).toInt
  else if opcode w = 0b1101111 then some (.jal (rd w) (jumpOffset w).toInt)
  else if opcode w = 0b1100111 ∧ funct3 w = 0b000 then some (.jalr (rd w) (rs1 w) (immediateField w).toInt)
  else if opcode w = 0b0110011 then
    (registerCodes.lookup (funct7 w, funct3 w)).map fun op => .register op (rd w) (rs1 w) (rs2 w)
  else if opcode w = 0b0010011 then
    (immediateCodes.lookup (funct3 w)).map fun op => .immediate op (rd w) (rs1 w) (immediateField w).toInt
  else none

theorem decode_of_branch {w : Word} (h : opcode w = Opcode.branch) :
    decode w = (conditionCodes.lookup (funct3 w)).map fun c => .branch c (rs1 w) (rs2 w) (branchOffset w).toInt := by
  rw [decode, h]
  rfl

theorem decode_of_jal {w : Word} (h : opcode w = Opcode.jal) :
    decode w = some (.jal (rd w) (jumpOffset w).toInt) := by
  rw [decode, h]
  rfl

theorem decode_of_jalr {w : Word} (h : opcode w = Opcode.jalr) (hf : funct3 w = 0) :
    decode w = some (.jalr (rd w) (rs1 w) (immediateField w).toInt) := by
  rw [decode, h, hf]
  rfl

theorem decode_of_register {w : Word} (h : opcode w = Opcode.register) :
    decode w = (registerCodes.lookup (funct7 w, funct3 w)).map fun op => .register op (rd w) (rs1 w) (rs2 w) := by
  rw [decode, h]
  rfl

theorem decode_of_immediate {w : Word} (h : opcode w = Opcode.immediate) :
    decode w =
      (immediateCodes.lookup (funct3 w)).map fun op => .immediate op (rd w) (rs1 w) (immediateField w).toInt := by
  rw [decode, h]
  rfl

namespace Instruction

/-- The numbers of an instruction fit the fields of its word. -/
def Fits : Instruction → Prop
  | .jalr _ _ imm | .immediate _ _ _ imm => -2048 ≤ imm ∧ imm ≤ 2047
  | ins => ins.Encodable

theorem toInt_immediate {imm : Int} (h : -2048 ≤ imm ∧ imm ≤ 2047) : (BitVec.ofInt 12 imm).toInt = imm :=
  BitVec.toInt_ofInt_eq_self (by decide) h.1 (by omega)

theorem decode_encode {ins : Instruction} (h : ins.Fits) : decode ins.encode = some ins := by
  cases ins with
  | branch c a b offset =>
    obtain ⟨heven, hlow, hhigh⟩ := h
    obtain ⟨hb, ha, hf⟩ := fields_branchWord (BitVec.ofInt 13 offset) b a c.funct3
    have hcode : conditionCodes.lookup c.funct3 = some c := by cases c <;> rfl
    simp only [encode, decode_of_branch (opcode_branchWord _ _ _ _), hb, ha, hf, hcode, Option.map_some,
      toInt_branchWord heven hlow hhigh]
  | jal d offset =>
    obtain ⟨heven, hlow, hhigh⟩ := h
    simp only [encode, decode_of_jal (opcode_jumpWord _ _), rd_jumpWord, toInt_jumpWord heven hlow hhigh]
  | jalr d a imm =>
    obtain ⟨himm, ha, hf, hd⟩ := fields_immediateWord (BitVec.ofInt 12 imm) a 0 d Opcode.jalr
    simp only [encode, decode_of_jalr (opcode_immediateWord _ _ _ _ _) hf, himm, ha, hd, toInt_immediate h]
  | register op d a b =>
    obtain ⟨hg, hb, ha, hf, hd⟩ := fields_registerWord op.funct7 b a op.funct3 d
    have hcode : registerCodes.lookup (op.funct7, op.funct3) = some op := by cases op <;> rfl
    simp only [encode, decode_of_register (opcode_registerWord _ _ _ _ _), hg, hb, ha, hf, hd, hcode, Option.map_some]
  | immediate op d a imm =>
    obtain ⟨himm, ha, hf, hd⟩ := fields_immediateWord (BitVec.ofInt 12 imm) a op.funct3 d Opcode.immediate
    have hcode : immediateCodes.lookup op.funct3 = some op := by cases op <;> rfl
    simp only [encode, decode_of_immediate (opcode_immediateWord _ _ _ _ _), himm, ha, hf, hd, hcode, Option.map_some,
      toInt_immediate h]

end Instruction

end Decode

end FetchStage.Isa
