import FetchStage.Format.Fault
import FetchStage.Text.Lines

/-! # Branch traces

A line of three or more fields is a branch: its address, a decimal flag that is nonzero for a taken branch, and its
target. Shorter lines are ignored, and so are further fields.
-/
namespace FetchStage.Format
open Text

def readTraceLine (line : Nat) (fields : List (List Char)) : Except LineFault (Option BranchRecord) :=
  match fields with
  | pc :: taken :: target :: _ => do
    let pc' ← orFault line (.badAddress pc) (readWord pc)
    let flag ← orFault line (.badFlag taken) (readSigned 10 taken)
    let target' ← orFault line (.badTarget target) (readWord target)
    return some ⟨pc', flag != 0, target'⟩
  | _ => .ok none

def readTrace (text : List Char) : Except LineFault (List BranchRecord) := do
  let records ← (numbered text).mapM fun (line, content) => readTraceLine line (fields content)
  return records.filterMap id

end FetchStage.Format
