import FetchStage.Word

/-! # Instruction fields

The four word layouts in use, each as a concatenation of its fields from the highest bit down. The jump layouts
scatter the bits of an even byte offset; the offset readers gather them again and extend the sign.
-/
namespace FetchStage.Isa

abbrev Opcode := BitVec 7
abbrev Register := BitVec 5
abbrev Funct3 := BitVec 3
abbrev Funct7 := BitVec 7

namespace Opcode

def branch : Opcode := 0x63
def jal : Opcode := 0x6F
def jalr : Opcode := 0x67
def register : Opcode := 0x33
def immediate : Opcode := 0x13

end Opcode

def opcode (w : Word) : Opcode := w.extractLsb' 0 7
def rd (w : Word) : Register := w.extractLsb' 7 5
def funct3 (w : Word) : Funct3 := w.extractLsb' 12 3
def rs1 (w : Word) : Register := w.extractLsb' 15 5
def rs2 (w : Word) : Register := w.extractLsb' 20 5
def funct7 (w : Word) : Funct7 := w.extractLsb' 25 7

def registerWord (f7 : Funct7) (rs2 rs1 : Register) (f3 : Funct3) (rd : Register) : Word :=
  f7 ++ rs2 ++ rs1 ++ f3 ++ rd ++ Opcode.register

def immediateWord (imm : BitVec 12) (rs1 : Register) (f3 : Funct3) (rd : Register) (op : Opcode) : Word :=
  imm ++ rs1 ++ f3 ++ rd ++ op

/-- A conditional branch; the lowest bit of the offset is not stored. -/
def branchWord (offset : BitVec 13) (rs2 rs1 : Register) (f3 : Funct3) : Word :=
  offset.extractLsb' 12 1 ++ offset.extractLsb' 5 6 ++ rs2 ++ rs1 ++ f3 ++ offset.extractLsb' 1 4 ++
    offset.extractLsb' 11 1 ++ Opcode.branch

/-- A jump with link; the lowest bit of the offset is not stored. -/
def jumpWord (offset : BitVec 21) (rd : Register) : Word :=
  offset.extractLsb' 20 1 ++ offset.extractLsb' 1 10 ++ offset.extractLsb' 11 1 ++ offset.extractLsb' 12 8 ++ rd ++
    Opcode.jal

def branchOffset (w : Word) : BitVec 13 :=
  w.extractLsb' 31 1 ++ w.extractLsb' 7 1 ++ w.extractLsb' 25 6 ++ w.extractLsb' 8 4 ++ 0#1

def jumpOffset (w : Word) : BitVec 21 :=
  w.extractLsb' 31 1 ++ w.extractLsb' 12 8 ++ w.extractLsb' 20 1 ++ w.extractLsb' 21 10 ++ 0#1

end FetchStage.Isa
