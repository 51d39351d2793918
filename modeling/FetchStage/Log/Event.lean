import FetchStage.Text.Terminal

/-! # Log events

An event has a level, the part of the program that speaks, a message and named values. A filter decides which
events are shown.
-/
namespace FetchStage

/-- From the most severe to the most detailed. -/
inductive Level where
  | error
  | warn
  | info
  | debug
  | trace
  deriving DecidableEq, Repr

namespace Level

def rank : Level → Nat
  | .error => 1
  | .warn => 2
  | .info => 3
  | .debug => 4
  | .trace => 5

def name : Level → String
  | .error => "ERROR"
  | .warn => "WARN"
  | .info => "INFO"
  | .debug => "DEBUG"
  | .trace => "TRACE"

def all : List Level := [.error, .warn, .info, .debug, .trace]

def ofName? (s : String) : Option Level := all.find? fun l => l.name.toLower == s.toLower

end Level

inductive Speaker where
  | core
  | tool
  deriving DecidableEq, Repr

structure Event where
  level : Level
  message : String
  fields : List (String × String) := []
  speaker : Speaker := .core

namespace Event

/-- The event as a line: level, message, then the values in their order. -/
def line (e : Event) : String :=
  String.intercalate " " (e.level.name :: e.message :: e.fields.map fun f => f.1 ++ "=" ++ f.2)

def guardedLine (e : Event) : String := { e with message := Text.guarded e.message }.line

def info (message : String) : Event := ⟨.info, message, [], .core⟩

def warn (message : String) : Event := ⟨.warn, message, [], .core⟩

end Event

inductive LogFilter where
  | off
  | upTo (level : Level)
  | coreUpTo (level : Level)
  deriving DecidableEq, Repr

namespace LogFilter

def shows (f : LogFilter) (e : Event) : Bool :=
  match f with
  | .off => false
  | .upTo level => e.level.rank ≤ level.rank
  | .coreUpTo level => e.speaker == .core && e.level.rank ≤ level.rank

/-- Events of the model are shown down to this level. -/
def admits (f : LogFilter) (level : Level) : Bool := f.shows ⟨level, "", [], .core⟩

/-- Reads a filter as it stands in the environment: a level, `off`, or a level for the model alone. -/
def ofText? (s : String) : Option LogFilter :=
  if s.toLower == "off" then some .off
  else match Level.ofName? s with
    | some level => some (.upTo level)
    | none =>
      match s.splitOn "=" with
      | ["ifetch_core", level] => (Level.ofName? level).map .coreUpTo
      | _ => none

end LogFilter

end FetchStage
