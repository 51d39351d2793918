import FetchStage.CommandLine.Execute

/-! # The program

The command line against the machine's own files, standard output and standard error.
-/
namespace FetchStage

abbrev Machine := StateT LogFilter IO

/-- The system's number for an error, which may be reported with its sign changed. -/
def errorNumber (code : UInt32) : Nat := if code.toNat < Nat.pow 2 31 then code.toNat else Nat.pow 2 32 - code.toNat

def obstacle? : IO.Error → Option Obstacle
  | .noFileOrDirectory .. => some .notFound
  | .permissionDenied .. => some .denied
  | .inappropriateType _ code _ => some (if errorNumber code = 20 then .notDirectory else .isDirectory)
  | .invalidArgument _ code _ => if errorNumber code = 36 then some .nameTooLong else none
  | _ => none

def systemText (e : IO.Error) : String := ((obstacle? e).map Obstacle.message).getD (toString e)

def readMachineText (path : String) : IO (Except String String) := do
  try
    match String.fromUTF8? (← IO.FS.readBinFile path) with
    | some text => return .ok text
    | none => return .error Obstacle.notText.message
  catch e => return .error (systemText e)

def writeMachineText (path text : String) : IO (Except String Unit) := do
  try
    IO.FS.writeFile path text
    return .ok ()
  catch e => return .error (systemText e)

instance : Host Machine where
  readText path := readMachineText path
  writeText path text := writeMachineText path text
  print line := IO.println line
  tell d := IO.eprintln d.text
  filter := get
  follow := set
  seconds := do return (← IO.monoNanosNow).toFloat / 1000000000

end FetchStage

def main (words : List String) : IO UInt32 := do
  let environment ← IO.getEnv "RUST_LOG"
  let (code, _) ← (FetchStage.CommandLine.respond words environment : FetchStage.Machine Nat).run .off
  return code.toUInt32
