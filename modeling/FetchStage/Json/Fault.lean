import FetchStage.Text.Quoted

/-! # Faults of JSON text

Why a text is not the record that was asked for. A text that ends too early is told apart from one that is malformed,
and both from one whose syntax is right but whose data is not what a field takes.
-/
namespace FetchStage.Json
open Text

inductive Found where
  | null
  | boolean (b : Bool)
  | integer (i : Int)
  /-- A number with a fraction or an exponent, or one too large for an integer, in its shortest form. -/
  | real (text : String)
  | text (cs : List Char)
  | sequence
  | map
  deriving DecidableEq

private def ticked (s : String) : String := "`" ++ s ++ "`"

def Found.description : Found → String
  | .null => "null"
  | .boolean b => "boolean " ++ ticked (if b then "true" else "false")
  | .integer i => "integer " ++ ticked (toString i)
  | .real digits => "floating point " ++ ticked digits
  | .text cs => s!"string {quoted cs}"
  | .sequence => "sequence"
  | .map => "map"

/-- Data that a field does not take. -/
inductive Misfit where
  | wrongType (found : Found) (expected : String)
  | outOfRange (value : Int) (expected : String)
  | repeatedField (name : String)
  | unknownVariant (name : List Char) (known : List String)
  deriving DecidableEq

def Misfit.message : Misfit → String
  | .wrongType found expected => s!"invalid type: {found.description}, expected {expected}"
  | .outOfRange value expected => s!"invalid value: {(Found.integer value).description}, expected {expected}"
  | .repeatedField name => s!"duplicate field {ticked name}"
  | .unknownVariant name known =>
    s!"unknown variant {ticked (String.ofList name)}, expected one of " ++ String.intercalate ", " (known.map ticked)

inductive Fault where
  /-- The text ends before the value does. -/
  | incomplete
  | malformed
  | misfit (misfit : Misfit)
  deriving DecidableEq

/-- A reader gives a value and the text after it. -/
abbrev Reader (α : Type) := List Char → Except Fault (α × List Char)

def isSpace (c : Char) : Bool := c == ' ' || c == '\t' || c == '\n' || c == '\r'

def skipSpace (cs : List Char) : List Char := cs.dropWhile isSpace

end FetchStage.Json
