import FetchStage.Assembly.Example
import FetchStage.Branch.Extract
import FetchStage.CommandLine.Command
import FetchStage.Files.Load
import FetchStage.Files.Path
import FetchStage.Simulator.Bench
import FetchStage.Stats.Report

/-! # Execution of commands

Each command is a program over its host. It ends with whether all went well, or with a failure that is logged as
fatal.
-/
namespace FetchStage.CommandLine
open Text

variable {m : Type → Type} [Monad m] [Host m]

def toolEvent (level : Level) (message : String) : Event := ⟨level, message, [], .tool⟩

def report (level : Level) (message : String) : ExceptT Failure m Unit :=
  (say (toolEvent level message) : m Unit)

def printLine (line : String) : ExceptT Failure m Unit := (Host.print line : m Unit)

def orInvalid {α : Type} : Except Setting α → ExceptT Failure m α
  | .ok a => return a
  | .error s => throw (.invalid s)

def orOverflow {α : Type} : Except Overflow α → ExceptT Failure m α
  | .ok a => return a
  | .error o => throw (.overflow o)

/-- The configuration of a run: a file's or the default, then the options. -/
def runConfig (o : RunOptions) (trace : Bool) : ExceptT Failure m Config := do
  let c ← match o.config with
    | some path => loadConfig path
    | none => pure {}
  let memory ← match o.latency with
    | some latency => orInvalid (c.memory.setLatency latency)
    | none => pure c.memory
  return { c with
    memory
    general :=
      { maxCycles := o.cycles.getD c.general.maxCycles
        trace := c.general.trace || trace
        stopOnViolation := c.general.stopOnViolation && !o.keepGoing } }

/-- The outcomes that a run resolves branches with: a table's, a trace's, or the program's own. -/
def groundTruth (o : RunOptions) (program : List Word) : ExceptT Failure m BranchTable :=
  match o.branches, o.traceFile with
  | some path, _ => loadTable path
  | none, some path => do return .ofRecords (← loadTrace path)
  | none, none => return .ofRecords (staticBranches program)

def relay (b : Bench LatencyPort WaveDump) : ExceptT Failure m Unit :=
  b.events.forM fun e => (say e : m Unit)

def judge (s : Simulator LatencyPort) : ExceptT Failure m Bool := do
  if let some v := s.checker.violations[0]? then
    report .error s!"[!] {s.checker.violations.size} contract violations, first: {v.message}"
  if !s.scoreboard.isClean then
    report .error s!"[!] {s.scoreboard.disagreed} scoreboard mismatches"
    for x in s.scoreboard.recorded do
      report .warn
        s!"    cycle {x.cycle}: pc {addressText x.pc} expected {wordText x.expected} got {wordText x.actual}"
  let clean := s.checker.isClean && s.scoreboard.isClean
  if clean then
    report .info s!"{s.cycle} cycles clean: {s.stats.wordsDelivered} delivered, {s.scoreboard.agreed} matched"
  return clean

def executeRun (o : RunOptions) (trace : Bool) : ExceptT Failure m Bool := do
  let c ← runConfig o trace
  let program ← loadProgram o.program
  let truth ← groundTruth o program
  printLine s!"[*] Program: {o.program} ({program.length} words)"
  printLine s!"    Cycles: {c.general.maxCycles}  Memory: {c.memory.describe}  Ground truth: {truth.size} branches"
  let sim ← orInvalid (Simulator.ofProgram c program.toArray truth)
  if let some path := o.dump then writeFile path ""
  let started ← (Host.seconds : m Float)
  let observers : List WaveDump := if o.dump.isSome then [{}] else []
  let bench : Bench LatencyPort WaveDump := { sim, observers, filter := ← (Host.filter : m LogFilter) }
  let (b, outcome) := bench.run c.general.maxCycles
  relay b
  if let (some path, some w) := (o.dump, b.observers.head?) then writeFile path w.sink.text
  if let .overflow e := outcome then throw (.overflow e)
  if let (some path, some w) := (o.dump, b.observers.head?) then
    printLine s!"[*] Wave dump: {w.lines} cycles -> {path}"
  let lines ← orOverflow (b.sim.stats.report o.stats ((← (Host.seconds : m Float)) - started))
  lines.forM printLine
  if let .stopped v := outcome then throw (.contract v)
  judge b.sim

def executeBranches (o : BranchesOptions) : ExceptT Failure m Bool := do
  let records ← if o.fromTrace then loadTrace o.source else do pure (staticBranches (← loadProgram o.source))
  let table := BranchTable.ofRecords records
  saveTable o.output table
  report .info s!"{records.length} branches -> {table.size} table entries in {o.output}"
  return true

/-- Writes the example beside the program it will become, and assembles it. -/
def assembleExample (programOut : String) : ExceptT Failure m (List Word) := do
  let path := Path.sibling programOut "example.asm"
  writeFile path Assembly.exampleProgram
  report .info s!"wrote example program to {path}"
  assembleText path Assembly.exampleProgram.toList

def executeAssemble (o : AssembleOptions) : ExceptT Failure m Bool := do
  let program ← match o.source with
    | some path => loadAssembly path
    | none => assembleExample o.programOut
  saveProgram o.programOut program
  let records ← match o.traceFile with
    | some path => loadTrace path
    | none => pure (staticBranches program)
  saveTable o.branchOut (.ofRecords records)
  report .info s!"{program.length} instructions -> {o.programOut}, {records.length} branches -> {o.branchOut}"
  return true

def Invocation.execute (i : Invocation) : ExceptT Failure m Bool :=
  match i.command with
  | .run o => executeRun o i.trace
  | .branches o => executeBranches o
  | .assemble o => executeAssemble o

/-- The filter that the environment asks for; without one, tracing shows everything. -/
def logFilter (environment : Option String) (trace : Bool) : LogFilter :=
  match environment.bind LogFilter.ofText? with
  | some f => f
  | none => .upTo (if trace then .trace else .info)

def success : Nat := 0
def failed : Nat := 1
def misused : Nat := 2
def aborted : Nat := 101

def respond (words : List String) (environment : Option String) : m Nat := do
  match Invocation.ofWords words with
  | .error .version => do
    Host.print versionLine
    return success
  | .error .help => do
    Host.print about
    return success
  | .error (.complaint c) => do
    Host.tell (.remark c.line)
    return misused
  | .ok i => do
    Host.follow (logFilter environment i.trace)
    match ← i.execute.run with
    | .ok true => return success
    | .ok false => return failed
    | .error (.overflow o) => do
      Host.tell (.remark o.message)
      return aborted
    | .error f => do
      say (toolEvent .error s!"[!] FATAL: {f.message}")
      return failed

end FetchStage.CommandLine
