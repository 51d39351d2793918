import FetchStage.Assembly.Operand
import FetchStage.Isa.Instruction

/-! # Instruction lines

A body is a mnemonic in any letter case and operands, with commas and blanks between. Of several faults in one line
the operand count comes first, then immediates and targets, then registers from the last to the first; the link
register of a jump alone is read before its target.
-/
namespace FetchStage.Assembly
open Text Isa

inductive Mnemonic where
  | nop
  | branch (condition : Condition)
  | jal
  | jalr
  | register (op : RegisterOp)
  | immediate (op : ImmediateOp)
  deriving DecidableEq

namespace Mnemonic

def names : List (String × Mnemonic) :=
  [("nop", .nop), ("beq", .branch .eq), ("bne", .branch .ne), ("blt", .branch .lt), ("bge", .branch .ge), ("jal", .jal),
    ("jalr", .jalr), ("add", .register .add), ("sub", .register .sub), ("and", .register .and), ("or", .register .or),
    ("xor", .register .xor), ("addi", .immediate .add), ("andi", .immediate .and), ("ori", .immediate .or),
    ("xori", .immediate .xor)]

def ofName? (name : List Char) : Option Mnemonic := (names.find? fun n => n.1.toList == name).map (·.2)

end Mnemonic

/-- Mnemonic in small letters and operands as written. -/
structure Statement where
  mnemonic : List Char
  operands : List (List Char)
  deriving DecidableEq

def Statement.ofBody (body : List Char) : Statement :=
  match fieldsBy (fun c => c == ',' || isBlank c) body with
  | m :: operands => ⟨lower m, operands⟩
  | [] => ⟨[], []⟩

/-- The register that a jump links when none is named. -/
def linkRegister : Register := 1

def Statement.instruction (s : Statement) (labels : Labels) (pc : Address) : Except Refusal Instruction :=
  let miscounted (expected : String) : Except Refusal Instruction :=
    .error (.fault (.operandCount s.mnemonic expected s.operands.length))
  match Mnemonic.ofName? s.mnemonic with
  | none => .error (.fault (.unknownInstruction s.mnemonic))
  | some .nop =>
    match s.operands with
    | [] => .ok .nop
    | _ => miscounted "0"
  | some (.branch condition) =>
    match s.operands with
    | [rs1, rs2, target] => do
      let offset ← jumpOffset labels pc .branch target
      let rs2 ← register rs2
      let rs1 ← register rs1
      return .branch condition rs1 rs2 offset
    | _ => miscounted "3"
  | some .jal =>
    match s.operands with
    | [target] => do
      let offset ← jumpOffset labels pc .jump target
      return .jal linkRegister offset
    | [rd, target] => do
      let rd ← register rd
      let offset ← jumpOffset labels pc .jump target
      return .jal rd offset
    | _ => miscounted "1 or 2"
  | some .jalr =>
    match s.operands with
    | [rd, rs1] => do
      let rs1 ← register rs1
      let rd ← register rd
      return .jalr rd rs1 0
    | [rd, rs1, imm] => do
      let imm ← immediate imm
      let rs1 ← register rs1
      let rd ← register rd
      return .jalr rd rs1 imm
    | _ => miscounted "2 or 3"
  | some (.register op) =>
    match s.operands with
    | [rd, rs1, rs2] => do
      let rs2 ← register rs2
      let rs1 ← register rs1
      let rd ← register rd
      return .register op rd rs1 rs2
    | _ => miscounted "3"
  | some (.immediate op) =>
    match s.operands with
    | [rd, rs1, imm] => do
      let imm ← immediate imm
      let rs1 ← register rs1
      let rd ← register rd
      return .immediate op rd rs1 imm
    | _ => miscounted "3"

def encodeBody (labels : Labels) (pc : Address) (body : List Char) : Except Refusal Word :=
  ((Statement.ofBody body).instruction labels pc).map Instruction.encode

end FetchStage.Assembly
