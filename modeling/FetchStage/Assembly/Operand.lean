import FetchStage.Assembly.Fault
import FetchStage.Isa.Field
import FetchStage.Text.Digits
import FetchStage.Text.Lines

/-! # Operands

Registers by number or name, immediates, and jump targets. A target that is a defined label wins over its reading as
a number.
-/
namespace FetchStage.Assembly
open Text Isa

abbrev Labels := List (List Char × Address)

def registerNames : List String :=
  ["zero", "ra", "sp", "gp", "tp", "t0", "t1", "t2", "s0", "s1", "a0", "a1", "a2", "a3", "a4", "a5", "a6", "a7", "s2",
    "s3", "s4", "s5", "s6", "s7", "s8", "s9", "s10", "s11", "t3", "t4", "t5", "t6"]

example : registerNames.length = 32 := by decide

def numberedRegister? : List Char → Option Register
  | 'x' :: digits =>
    match readUnsigned 10 (Nat.pow 2 32) digits with
    | .ok n => if n < 32 then some (BitVec.ofNat 5 n) else none
    | .error _ => none
  | _ => none

/-- A register by name; `fp` is a second name of `s0`. -/
def namedRegister? (name : List Char) : Option Register :=
  if name = "fp".toList then some 8
  else (registerNames.findIdx? fun r => r.toList == name).map (BitVec.ofNat 5)

/-- A register in any letter case. -/
def register (token : List Char) : Except Refusal Register :=
  match (numberedRegister? (lower token)).or (namedRegister? (lower token)) with
  | some r => .ok r
  | none => .error (.fault (.unknownRegister token))

/-- Digits of a literal after its sign: hexadecimal ones behind their mark, where a second sign may stand, or decimal
ones. -/
def unsignedLiteral? (digits : List Char) : Option Int :=
  match afterHexMark? digits with
  | some hexed => readSigned 16 hexed
  | none => if (digits.head?.map Char.isDigit).getD false then readSigned 10 digits else none

def literal? : List Char → Except Overflow (Option Int)
  | '-' :: digits =>
    match unsignedLiteral? digits with
    | some value => (Literal.negate value).map some
    | none => .ok none
  | digits => .ok (unsignedLiteral? digits)

def literal (token : List Char) (otherwise : Fault) : Except Refusal Int :=
  match literal? token with
  | .ok (some value) => .ok value
  | .ok none => .error (.fault otherwise)
  | .error o => .error (.overflow o)

structure Reach where
  low : Int
  high : Int

namespace Reach

def immediate : Reach := ⟨-2048, 2047⟩
def branch : Reach := ⟨-4096, 4094⟩
def jump : Reach := ⟨-1048576, 1048574⟩

def admits (r : Reach) (value : Int) : Bool := r.low ≤ value && value ≤ r.high

end Reach

def immediate (token : List Char) : Except Refusal Int := do
  let value ← literal token (.invalidImmediate token)
  if Reach.immediate.admits value then return value
  else throw (.fault (.immediateRange value Reach.immediate.low Reach.immediate.high))

/-- Distance from `pc` to a label, or a literal distance. -/
def distance (labels : Labels) (pc : Address) (token : List Char) : Except Refusal Int :=
  match labels.lookup token with
  | some address => .ok ((address.toNat : Int) - pc.toNat)
  | none => literal token (.undefinedLabel token)

def jumpOffset (labels : Labels) (pc : Address) (reach : Reach) (token : List Char) : Except Refusal Int := do
  let offset ← distance labels pc token
  if offset % 2 ≠ 0 then throw (.fault (.oddOffset offset))
  else if reach.admits offset then return offset
  else throw (.fault (.offsetRange offset reach.low reach.high))

end FetchStage.Assembly
