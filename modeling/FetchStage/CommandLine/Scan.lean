import FetchStage.CommandLine.Argument

/-! # Reading the words of a command

Words are read from left to right. The last argument started stays open until the next one starts or the line ends;
only then are its values checked: that there is one, that the argument is not repeated, that each value is of its kind.
A word that starts with a hyphen is never a value.
-/
namespace FetchStage.CommandLine

structure Vocabulary where
  options : List Argument
  positionals : List Argument := []
  subcommands : List String := []

structure Open where
  argument : Argument
  values : List String
  /-- The next word is its value. -/
  awaits : Bool

structure Scan where
  /-- Arguments given so far with their values, in the order they were first given. -/
  given : List (Argument × List String) := []
  opened : Option Open := none
  /-- Positional values started so far. -/
  placed : Nat := 0

inductive Shape where
  | escape
  | long (name : String) (value : Option String)
  | short (letters : List Char)
  | plain

def Shape.of (word : String) : Shape :=
  match word.toList with
  | ['-', '-'] => .escape
  | '-' :: '-' :: rest =>
    let name := String.ofList (rest.takeWhile (· != '='))
    match rest.dropWhile (· != '=') with
    | _ :: value => .long name (some (String.ofList value))
    | [] => .long name none
  | '-' :: c :: rest => .short (c :: rest)
  | _ => .plain

namespace Scan

def isGiven (s : Scan) (a : Argument) : Bool := s.given.any fun g => g.1.name == a.name

/-- Values of an argument that may be repeated join those given before. -/
def record (s : Scan) (a : Argument) (values : List String) : Scan :=
  if s.isGiven a then
    { s with given := s.given.map fun g => if g.1.name == a.name then (g.1, g.2 ++ values) else g }
  else { s with given := s.given ++ [(a, values)] }

def accept (s : Scan) (a : Argument) (kind : ValueKind) (values : List String) : Except Stop Scan := do
  if values.isEmpty then throw (.complaint (.valueRequired a.shown))
  if kind ≠ .texts ∧ s.isGiven a then throw (.complaint (.repeated a.shown))
  let values := values.flatMap kind.split
  values.forM fun v => kind.check a.shown v
  return s.record a values

def close (s : Scan) : Except Stop Scan :=
  match s.opened with
  | none => .ok s
  | some o =>
    match o.argument.form with
    | .value kind => { s with opened := none }.accept o.argument kind o.values
    | _ => .ok { s with opened := none }

def raise (s : Scan) (a : Argument) : Except Stop Scan := do
  let s ← s.close
  match a.form with
  | .help => throw .help
  | .version => throw .version
  | _ => if s.isGiven a then throw (.complaint (.repeated a.shown)) else return s.record a []

def start (s : Scan) (a : Argument) (kind : ValueKind) (attached : Option String) : Except Stop Scan := do
  let s ← s.close
  match attached with
  | some value => s.accept a kind [value]
  | none => return { s with opened := some ⟨a, [], true⟩ }

def long (v : Vocabulary) (s : Scan) (name : String) (value : Option String) : Except Stop Scan :=
  match v.options.find? fun a => a.name == name with
  | none => .error (.complaint (.unexpected ("--" ++ name)))
  | some a =>
    match a.form, value with
    | .value kind, value => s.start a kind value
    | _, some value => .error (.complaint (.unexpectedValue value a.shown))
    | _, none => s.raise a

/-- A cluster of one-letter options; the first with a value takes the rest of the word. -/
def short (v : Vocabulary) (s : Scan) : List Char → Except Stop Scan
  | [] => .ok s
  | c :: rest =>
    match v.options.find? fun a => a.short == some c with
    | none => .error (.complaint (.unexpected (String.ofList ['-', c])))
    | some a =>
      match a.form with
      | .value kind =>
        let attached := match rest with
          | [] => none
          | '=' :: value => some (String.ofList value)
          | value => some (String.ofList value)
        s.start a kind attached
      | _ => do short v (← s.raise a) rest

/-- A positional value; one too many is refused whatever is open. -/
def place (v : Vocabulary) (s : Scan) (word : String) : Except Stop Scan :=
  match v.positionals[s.placed]? with
  | some a => do
    let s ← s.close
    return { s with opened := some ⟨a, [word], false⟩, placed := s.placed + 1 }
  | none => .error (.complaint (.unexpected word))

end Scan

/-- What a level's words come to: its arguments, and a subcommand with the words after it. -/
structure Reading where
  scan : Scan
  subcommand : Option (String × List String) := none

def trailing (v : Vocabulary) (s : Scan) : List String → Except Stop Reading
  | [] => .ok { scan := s }
  | word :: rest =>
    if v.subcommands.isEmpty then do trailing v (← s.place v word) rest
    else if v.subcommands.contains word then .error (.complaint (.unexpected word))
    else .error (.complaint (.unknownSubcommand word))

def read (v : Vocabulary) (s : Scan) : List String → Except Stop Reading
  | [] => .ok { scan := s }
  | word :: rest =>
    let awaiting := s.opened.filter fun o => o.awaits
    if awaiting.isNone && v.subcommands.contains word then .ok { scan := s, subcommand := some (word, rest) }
    else
      match Shape.of word with
      | .escape => trailing v s rest
      | .long name value => do read v (← s.long v name value) rest
      | .short letters => do read v (← s.short v letters) rest
      | .plain =>
        match awaiting with
        | some o => read v { s with opened := some { o with values := o.values ++ [word], awaits := false } } rest
        | none =>
          if v.subcommands.isEmpty then do read v (← s.place v word) rest
          else .error (.complaint (.unknownSubcommand word))

end FetchStage.CommandLine
