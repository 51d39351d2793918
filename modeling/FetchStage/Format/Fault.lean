import FetchStage.Word
import FetchStage.Branch.Record
import FetchStage.Text.Digits

/-! # Faults of text files

Why a line of an image, a trace or a table is refused.
-/
namespace FetchStage.Format
open Text

inductive Fault where
  | badWord (token : List Char)
  | badAddress (token : List Char)
  | badFlag (token : List Char)
  | badTarget (token : List Char)
  | tooManyEntries
  | wideEntry (token : List Char)
  | badEntry (token : List Char)
  | excessBits (token : List Char)
  | misplaced (pc : Address) (found : Nat)
  deriving DecidableEq

abbrev entryDigits : Nat := 18

def Fault.message : Fault → String
  | .badWord t => s!"invalid instruction word '{String.ofList t}'"
  | .badAddress t => s!"invalid branch address '{String.ofList t}'"
  | .badFlag t => s!"invalid taken flag '{String.ofList t}'"
  | .badTarget t => s!"invalid target '{String.ofList t}'"
  | .tooManyEntries => s!"more than {slotCount} entries"
  | .wideEntry t => s!"branch entry '{String.ofList t}' is wider than {entryDigits} hex digits"
  | .badEntry t => s!"invalid branch entry '{String.ofList t}'"
  | .excessBits t => s!"branch entry '{String.ofList t}' sets bits above {BranchRecord.entryBits - 1}"
  | .misplaced pc found =>
    s!"branch at {addressText pc} belongs in entry {pc.slot.val}, found in entry {found}"

/-- A fault and the line it is in, counted from one. -/
structure LineFault where
  line : Nat
  fault : Fault
  deriving DecidableEq

def orFault {α : Type} (line : Nat) (fault : Fault) : Option α → Except LineFault α
  | some a => .ok a
  | none => .error ⟨line, fault⟩

end FetchStage.Format
