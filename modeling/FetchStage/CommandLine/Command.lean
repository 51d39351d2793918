import FetchStage.CommandLine.Scan

/-! # Commands

The three commands and their arguments: run a program, build a branch table, assemble a source.
-/
namespace FetchStage.CommandLine
open Text

structure RunOptions where
  program : String
  branches : Option String := none
  traceFile : Option String := none
  config : Option String := none
  cycles : Option Nat := none
  latency : Option Nat := none
  dump : Option String := none
  stats : List String := []
  keepGoing : Bool := false
  deriving DecidableEq

structure BranchesOptions where
  /-- Where the outcomes come from: a trace, or else a program. -/
  source : String
  fromTrace : Bool
  output : String
  deriving DecidableEq

structure AssembleOptions where
  /-- The source file; without one the example is written and assembled. -/
  source : Option String
  traceFile : Option String
  programOut : String
  branchOut : String
  deriving DecidableEq

inductive Command where
  | run (options : RunOptions)
  | branches (options : BranchesOptions)
  | assemble (options : AssembleOptions)
  deriving DecidableEq

structure Invocation where
  trace : Bool
  command : Command
  deriving DecidableEq

namespace Argument

def trace : Argument := flagNamed "trace"
def help : Argument := { name := "help", shown := "--help", short := some 'h', form := .help }
def version : Argument := { name := "version", shown := "--version", short := some 'V', form := .version }
def program : Argument := { name := "program", shown := "<PROGRAM>", form := .value .path }
def source : Argument := { name := "source", shown := "[SOURCE]", form := .value .path }
def branches : Argument := valued "branches" "BRANCHES" .path none
def traceFile (short : Option Char) : Argument := valued "trace-file" "TRACE_FILE" .path short
def config : Argument := valued "config" "CONFIG" .path (some 'c')
def cycles : Argument := valued "cycles" "CYCLES" .count (some 'n')
def latency : Argument := valued "latency" "LATENCY" .count none
def dump : Argument := valued "dump" "DUMP" .path none
def stats : Argument := valued "stats" "STATS" .texts none
def keepGoing : Argument := flagNamed "keep-going"
def programOption : Argument := valued "program" "PROGRAM" .path none
def output : Argument := valued "output" "OUTPUT" .path (some 'o')
def exampleFlag : Argument := flagNamed "example"
def programOut : Argument := valued "program-out" "PROGRAM_OUT" .path (some 'p')
def branchOut : Argument := valued "branch-out" "BRANCH_OUT" .path (some 'b')

end Argument

open Argument

/-- A command's arguments: which exclude each other, and of which sets one must be given. -/
structure Usage where
  vocabulary : Vocabulary
  exclusive : List (Argument × Argument) := []
  needed : List (List Argument) := []

namespace Usage

def top : Vocabulary := { options := [.trace, help, version], subcommands := ["run", "branches", "assemble", "help"] }

def run : Usage :=
  { vocabulary :=
      { options := [.branches, traceFile none, config, cycles, latency, dump, stats, keepGoing, .trace, help]
        positionals := [program] }
    exclusive := [(.branches, traceFile none)]
    needed := [[program]] }

def branches : Usage :=
  { vocabulary := { options := [traceFile none, programOption, output, .trace, help] }
    exclusive := [(traceFile none, programOption)]
    needed := [[traceFile none, programOption]] }

def assemble : Usage :=
  { vocabulary :=
      { options := [exampleFlag, traceFile (some 't'), programOut, branchOut, .trace, help], positionals := [source] }
    exclusive := [(source, exampleFlag)]
    needed := [[source, exampleFlag]] }

/-- The first given argument that excludes another given one, with that other. -/
def clash? (u : Usage) (s : Scan) : Option (Argument × Argument) :=
  s.given.findSome? fun g =>
    u.exclusive.findSome? fun (a, b) =>
      if g.1 = a ∧ s.isGiven b then some (a, b)
      else if g.1 = b ∧ s.isGiven a then some (b, a)
      else none

def scan (u : Usage) (words : List String) : Except Stop Scan := do
  let s ← (← read u.vocabulary {} words).scan.close
  if let some (a, b) := u.clash? s then throw (.complaint (.conflict a.shown b.shown))
  if u.needed.all fun set => set.any s.isGiven then return s else throw (.complaint .missingArguments)

end Usage

namespace Scan

def values (s : Scan) (a : Argument) : List String := ((s.given.find? fun g => g.1.name == a.name).map (·.2)).getD []

def value? (s : Scan) (a : Argument) : Option String := (s.values a).head?

def count? (s : Scan) (a : Argument) : Option Nat :=
  (s.value? a).bind fun v => (readUnsigned 10 Count.limit v.toList).toOption

end Scan

def defaultTable : String := "branches.mem"
def defaultProgram : String := "program.mem"

def runCommand (s : Scan) : Command :=
  .run
    { program := (s.value? program).getD ""
      branches := s.value? .branches
      traceFile := s.value? (traceFile none)
      config := s.value? config
      cycles := s.count? cycles
      latency := s.count? latency
      dump := s.value? dump
      stats := s.values stats
      keepGoing := s.isGiven keepGoing }

def branchesCommand (s : Scan) : Command :=
  let trace := s.value? (traceFile none)
  .branches
    { source := (trace.or (s.value? programOption)).getD ""
      fromTrace := trace.isSome
      output := (s.value? output).getD defaultTable }

def assembleCommand (s : Scan) : Command :=
  .assemble
    { source := s.value? source
      traceFile := s.value? (traceFile none)
      programOut := (s.value? programOut).getD defaultProgram
      branchOut := (s.value? branchOut).getD defaultTable }

/-- The words after `help` name a command, and commands have no commands of their own. -/
def readHelp : List String → Stop
  | [] => .help
  | word :: rest =>
    if Usage.top.subcommands.contains word then
      match rest with
      | [] => .help
      | extra :: _ => .complaint (.unknownSubcommand extra)
    else .complaint (.unknownSubcommand word)

def readSubcommand (name : String) (words : List String) : Except Stop (Scan × Command) :=
  if name = "run" then do
    let s ← Usage.run.scan words
    return (s, runCommand s)
  else if name = "branches" then do
    let s ← Usage.branches.scan words
    return (s, branchesCommand s)
  else if name = "assemble" then do
    let s ← Usage.assemble.scan words
    return (s, assembleCommand s)
  else .error (readHelp words)

def Invocation.ofWords (words : List String) : Except Stop Invocation := do
  let top ← read Usage.top {} words
  match top.subcommand with
  | some (name, rest) =>
    let (s, command) ← readSubcommand name rest
    return ⟨top.scan.isGiven .trace || s.isGiven .trace, command⟩
  | none => throw (.complaint (if top.scan.given.isEmpty then .nothing else .missingSubcommand))

end FetchStage.CommandLine
