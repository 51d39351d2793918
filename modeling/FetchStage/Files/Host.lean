import FetchStage.Files.Directory
import FetchStage.Log.Event

/-! # Surroundings of a command

What a command asks of the system it runs on. A session answers from files held as a value and keeps what is
printed, so that a command is a pure function of its session.
-/
namespace FetchStage
open Text

inductive Diagnostic where
  | event (event : Event)
  | remark (text : String)

def Diagnostic.text : Diagnostic → String
  | .event e => e.guardedLine
  | .remark text => text

def Diagnostic.event? : Diagnostic → Option Event
  | .event e => some e
  | .remark _ => none

class Host (m : Type → Type) where
  /-- A file's text, or why it cannot be had. -/
  readText : String → m (Except String String)
  writeText : String → String → m (Except String Unit)
  /-- A line of output. -/
  print : String → m Unit
  tell : Diagnostic → m Unit
  /-- Which events are shown. -/
  filter : m LogFilter
  follow : LogFilter → m Unit
  /-- Host time. -/
  seconds : m Float

/-- Shows an event if the filter does. -/
def say {m : Type → Type} [Monad m] [Host m] (e : Event) : m Unit := do
  if (← Host.filter).shows e then Host.tell (.event e)

structure Session where
  files : Directory := []
  filter : LogFilter := .off
  /-- What was printed so far, the last first. -/
  printed : List String := []
  /-- Diagnostics so far, the last first. -/
  diagnostics : List Diagnostic := []

namespace Session

def readText (s : Session) (path : String) : Except String String :=
  (s.files.readText path.toList).mapError Obstacle.message

def writeText (s : Session) (path text : String) : Except String Unit × Session :=
  match s.files.writeText path.toList text with
  | .ok files => (.ok (), { s with files })
  | .error o => (.error o.message, s)

def outputLines (s : Session) : List String := s.printed.reverse.flatMap printedLines

def diagnosticLines (s : Session) : List String := s.diagnostics.reverse.flatMap fun d => printedLines d.text

def events (s : Session) : List Event := s.diagnostics.reverse.filterMap Diagnostic.event?

/-- A session's clock stands still. -/
instance : Host (StateM Session) where
  readText path := do return (← get).readText path
  writeText path text := modifyGet fun s => s.writeText path text
  print line := modify fun s => { s with printed := line :: s.printed }
  tell d := modify fun s => { s with diagnostics := d :: s.diagnostics }
  filter := do return (← get).filter
  follow filter := modify fun s => { s with filter }
  seconds := return 0

end Session

end FetchStage
