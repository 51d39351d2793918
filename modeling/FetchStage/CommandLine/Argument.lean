import FetchStage.Count
import FetchStage.Text.Digits
import FetchStage.Text.Lines
import FetchStage.Text.Terminal

/-! # Arguments of a command line

What a command accepts: options by name, with or without a value, and positional values. A complaint about the line
is one of a few kinds, each with one wording.
-/
namespace FetchStage.CommandLine
open Text

inductive ValueKind where
  /-- A path, which is not empty. -/
  | path
  | count
  /-- Texts with commas between; the argument may be repeated. -/
  | texts
  deriving DecidableEq, Repr

inductive Form where
  | flag
  | value (kind : ValueKind)
  | help
  | version
  deriving DecidableEq, Repr

structure Argument where
  /-- Its name, which is also its long option unless it is positional. -/
  name : String
  /-- How complaints show it. -/
  shown : String
  short : Option Char := none
  form : Form
  deriving DecidableEq

def Argument.flagNamed (name : String) : Argument := { name, shown := "--" ++ name, form := .flag }

def Argument.valued (name placeholder : String) (kind : ValueKind) (short : Option Char) : Argument :=
  { name, shown := s!"--{name} <{placeholder}>", short, form := .value kind }

inductive Complaint where
  | unexpected (word : String)
  | unexpectedValue (value shown : String)
  | valueRequired (shown : String)
  | repeated (shown : String)
  | invalidValue (value shown : String) (fault : NumberFault)
  | conflict (shown other : String)
  | missingArguments
  | missingSubcommand
  | unknownSubcommand (word : String)
  /-- Nothing at all was asked for. -/
  | nothing
  deriving DecidableEq

def programName : String := "ifetch"

def about : String := "Cycle-accurate instruction-fetch core simulator"

def versionLine : String := programName ++ " 0.3.1"

/-- What a complaint says. Words of the command line are shown without control sequences. -/
def Complaint.message : Complaint → String
  | .unexpected word => s!"error: unexpected argument '{plain word}' found"
  | .unexpectedValue value shown => s!"error: unexpected value '{plain value}' for '{shown}' found; no more were expected"
  | .valueRequired shown => s!"error: a value is required for '{shown}' but none was supplied"
  | .repeated shown => s!"error: the argument '{shown}' cannot be used multiple times"
  | .invalidValue value shown fault => s!"error: invalid value '{plain value}' for '{shown}': {fault.message}"
  | .conflict shown other => s!"error: the argument '{shown}' cannot be used with '{other}'"
  | .missingArguments => "error: the following required arguments were not provided:"
  | .missingSubcommand => s!"error: '{programName}' requires a subcommand but one was not provided"
  | .unknownSubcommand word => s!"error: unrecognized subcommand '{plain word}'"
  | .nothing => about

def Complaint.line (c : Complaint) : String := (printedLines c.message).headD ""

/-- Why reading a command line ends before a command is known. -/
inductive Stop where
  | complaint (complaint : Complaint)
  | help
  | version
  deriving DecidableEq

def ValueKind.split : ValueKind → String → List String
  | .texts, word => (pieces (· == ',') word.toList).map String.ofList
  | _, word => [word]

def ValueKind.check (kind : ValueKind) (shown value : String) : Except Stop Unit :=
  match kind with
  | .path => if value.isEmpty then .error (.complaint (.valueRequired shown)) else .ok ()
  | .count =>
    match readUnsigned 10 Count.limit value.toList with
    | .ok _ => .ok ()
    | .error f => .error (.complaint (.invalidValue value shown f))
  | .texts => .ok ()

end FetchStage.CommandLine
