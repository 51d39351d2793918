import FetchStage.Isa.Field

/-! # Instructions

The instructions that fetch test programs are written in, and their words. Offsets and immediates are the signed
numbers a program states; a word keeps as many of their low bits as its layout has.
-/
namespace FetchStage.Isa

inductive Condition where
  | eq
  | ne
  | lt
  | ge
  deriving DecidableEq, Repr

def Condition.funct3 : Condition → Funct3
  | .eq => 0b000
  | .ne => 0b001
  | .lt => 0b100
  | .ge => 0b101

inductive RegisterOp where
  | add
  | sub
  | and
  | or
  | xor
  deriving DecidableEq, Repr

namespace RegisterOp

def funct3 : RegisterOp → Funct3
  | .add | .sub => 0b000
  | .and => 0b111
  | .or => 0b110
  | .xor => 0b100

def funct7 : RegisterOp → Funct7
  | .sub => 0b0100000
  | _ => 0

end RegisterOp

inductive ImmediateOp where
  | add
  | and
  | or
  | xor
  deriving DecidableEq, Repr

def ImmediateOp.funct3 : ImmediateOp → Funct3
  | .add => 0b000
  | .and => 0b111
  | .or => 0b110
  | .xor => 0b100

inductive Instruction where
  | branch (condition : Condition) (rs1 rs2 : Register) (offset : Int)
  | jal (rd : Register) (offset : Int)
  | jalr (rd rs1 : Register) (imm : Int)
  | register (op : RegisterOp) (rd rs1 rs2 : Register)
  | immediate (op : ImmediateOp) (rd rs1 : Register) (imm : Int)
  deriving DecidableEq, Repr

namespace Instruction

/-- The idle instruction. -/
def nop : Instruction := .immediate .add 0 0 0

def encode : Instruction → Word
  | .branch c rs1 rs2 offset => branchWord (BitVec.ofInt 13 offset) rs2 rs1 c.funct3
  | .jal rd offset => jumpWord (BitVec.ofInt 21 offset) rd
  | .jalr rd rs1 imm => immediateWord (BitVec.ofInt 12 imm) rs1 0 rd Opcode.jalr
  | .register op rd rs1 rs2 => registerWord op.funct7 rs2 rs1 op.funct3 rd
  | .immediate op rd rs1 imm => immediateWord (BitVec.ofInt 12 imm) rs1 op.funct3 rd Opcode.immediate

example : nop.encode = FetchStage.nop := by decide

end Instruction

end FetchStage.Isa
