import FetchStage.Branch.Table
import FetchStage.Format.Fault
import FetchStage.Text.Lines

/-! # Branch tables as text

One packed entry on each line that has content, from slot zero on. An entry is written with eighteen capital digits,
and a free slot is zero. A valid entry must stand in the slot of its own address.
-/
namespace FetchStage.Format
open Text

def entryLines (text : List Char) : List (Nat × List Char) :=
  (numbered text).filter fun l => !l.2.isEmpty

def readEntry (line : Nat) (token : List Char) (i : Nat) : Except LineFault (Option BranchRecord) :=
  if slotCount ≤ i then .error ⟨line, .tooManyEntries⟩
  else if entryDigits < byteSize token then .error ⟨line, .wideEntry token⟩
  else
    match readUnsigned 16 (Nat.pow 2 128) token with
    | .error _ => .error ⟨line, .badEntry token⟩
    | .ok bits =>
      if Nat.pow 2 BranchRecord.entryBits ≤ bits then .error ⟨line, .excessBits token⟩
      else
        match BranchRecord.unpack bits with
        | some r => if r.pc.slot.val = i then .ok (some r) else .error ⟨line, .misplaced r.pc i⟩
        | none => .ok none

/-- A table given slot by slot; slots past the end of the list are free. -/
def tableOfEntries (entries : List (Option BranchRecord)) : BranchTable :=
  ⟨Vector.ofFn fun i => entries[i.val]?.join⟩

def readTable (text : List Char) : Except LineFault BranchTable := do
  let entries ← (entryLines text).zipIdx.mapM fun ((line, token), i) => readEntry line token i
  return tableOfEntries entries

def entryText (bits : Nat) : List Char := hexDigits true entryDigits bits

def tableText (t : BranchTable) : List Char :=
  t.packed.flatMap fun bits => entryText bits ++ ['\n']

end FetchStage.Format
