import FetchStage.Count

/-! # Assembly faults

Why a source is refused: a fault of one line, or a literal whose value leaves the range of signed numbers while it is
negated.
-/
namespace FetchStage.Assembly

inductive Fault where
  | invalidLabel (label : List Char)
  | repeatedLabel (label : List Char)
  | unknownInstruction (mnemonic : List Char)
  | operandCount (mnemonic : List Char) (expected : String) (found : Nat)
  | unknownRegister (token : List Char)
  | invalidImmediate (token : List Char)
  | immediateRange (value low high : Int)
  | undefinedLabel (token : List Char)
  | oddOffset (offset : Int)
  | offsetRange (offset low high : Int)
  deriving DecidableEq, Repr

def Fault.message : Fault → String
  | .invalidLabel l => s!"invalid label '{String.ofList l}'"
  | .repeatedLabel l => s!"label '{String.ofList l}' defined twice"
  | .unknownInstruction m => s!"unknown instruction '{String.ofList m}'"
  | .operandCount m expected found => s!"'{String.ofList m}' takes {expected} operands, found {found}"
  | .unknownRegister t => s!"unknown register '{String.ofList t}'"
  | .invalidImmediate t => s!"invalid immediate '{String.ofList t}'"
  | .immediateRange v low high => s!"immediate {v} outside {low}..={high}"
  | .undefinedLabel t => s!"undefined label '{String.ofList t}'"
  | .oddOffset o => s!"jump offset {o} is not a multiple of 2"
  | .offsetRange o low high => s!"jump offset {o} outside {low}..={high}"

/-- Why one instruction does not encode. -/
inductive Refusal where
  | fault (fault : Fault)
  | overflow (overflow : Overflow)
  deriving DecidableEq, Repr

inductive AssemblyError where
  | atLine (line : Nat) (fault : Fault)
  | overflow (overflow : Overflow)
  deriving DecidableEq, Repr

def Refusal.atLine (line : Nat) : Refusal → AssemblyError
  | .fault f => .atLine line f
  | .overflow o => .overflow o

end FetchStage.Assembly
