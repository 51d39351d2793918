import FetchStage.Assembly.Source
import FetchStage.Assembly.Line
import FetchStage.Log.Event

/-! # Two passes

The first pass gives every label the address of the next instruction; the second encodes every body against all
labels. Label faults anywhere come before encoding faults.
-/
namespace FetchStage.Assembly
open Text

/-- A letter, underscore or point, then also digits. -/
def isLabel : List Char → Bool
  | [] => false
  | c :: cs =>
    let begins (c : Char) : Bool := c.isAlpha || c == '_' || c == '.'
    begins c && cs.all fun c => begins c || c.isDigit

def addLabels (labels : Labels) (count : Nat) : List SourceLine → Except AssemblyError Labels
  | [] => .ok labels
  | line :: rest =>
    let count' := if line.hasBody then count + 1 else count
    match line.label with
    | none => addLabels labels count' rest
    | some label =>
      if !isLabel label then .error (.atLine line.number (.invalidLabel label))
      else if (labels.lookup label).isSome then .error (.atLine line.number (.repeatedLabel label))
      else addLabels ((label, Address.ofIndex count) :: labels) count' rest

def placedLines (lines : List SourceLine) : List (SourceLine × Nat) :=
  (lines.filter (·.hasBody)).zipIdx

def encodeLine (labels : Labels) (placed : SourceLine × Nat) : Except AssemblyError Word :=
  match encodeBody labels (Address.ofIndex placed.2) placed.1.body with
  | .ok word => .ok word
  | .error r => .error (r.atLine placed.1.number)

def assemble (text : List Char) : Except AssemblyError (List Word) := do
  let lines := sourceLines text
  let labels ← addLabels [] 0 lines
  (placedLines lines).mapM (encodeLine labels)

def lineEvent (pc : Address) (word : Word) (body : List Char) : Event :=
  { level := .debug
    message := s!"{addressText pc}: {wordText word}  {String.ofList body}" }

/-- Events of the lines encoded before the first fault. -/
def assembleEvents (text : List Char) : List Event :=
  let lines := sourceLines text
  match addLabels [] 0 lines with
  | .error _ => []
  | .ok labels =>
    let encoded := (placedLines lines).map fun p => ((encodeLine labels p).toOption, p)
    (encoded.takeWhile (·.1.isSome)).filterMap fun (word, line, i) =>
      word.map fun w => lineEvent (Address.ofIndex i) w line.body

end FetchStage.Assembly
