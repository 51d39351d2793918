import FetchStage.Text.Lines

/-! # Assembly source lines

A line without its comment is a label, a body, or both with a colon between. Only the first colon counts.
-/
namespace FetchStage.Assembly
open Text

structure SourceLine where
  /-- Counted from one. -/
  number : Nat
  label : Option (List Char)
  body : List Char
  deriving DecidableEq

namespace SourceLine

def ofContent (number : Nat) (content : List Char) : SourceLine :=
  match content.dropWhile (· != ':') with
  | _ :: rest => ⟨number, some (trim (content.takeWhile (· != ':'))), trim rest⟩
  | [] => ⟨number, none, content⟩

def hasBody (l : SourceLine) : Bool := !l.body.isEmpty

end SourceLine

def sourceLines (text : List Char) : List SourceLine :=
  (numbered text).map fun (number, content) => .ofContent number content

end FetchStage.Assembly
