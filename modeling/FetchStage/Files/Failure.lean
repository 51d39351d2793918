import FetchStage.Assembly.Fault
import FetchStage.Config.Text
import FetchStage.Contract
import FetchStage.Format.Fault

/-! # Failures

Why a command or a file operation ends without its result.
-/
namespace FetchStage

inductive Failure where
  | access (path reason : String)
  | format (path : String) (fault : Format.LineFault)
  | assembly (path : String) (line : Nat) (fault : Assembly.Fault)
  | emptyProgram (path : String)
  | config (fault : Json.Fault)
  | invalid (setting : Setting)
  | contract (violation : Violation)
  | overflow (overflow : Overflow)

namespace Failure

def configProblem : Json.Fault → String
  | .incomplete => "the text ends too early"
  | .malformed => "the text is malformed"
  | .misfit m => m.message

def message : Failure → String
  | .access path reason => s!"could not access '{path}': {reason}"
  | .format path f => s!"{path}:{f.line}: {f.fault.message}"
  | .assembly path line f => s!"{path}:{line}: {f.message}"
  | .emptyProgram path => s!"program image '{path}' is empty"
  | .config f => s!"invalid configuration: {configProblem f}"
  | .invalid s => s!"invalid configuration: {s.message}"
  | .contract v => s!"contract violation: {v.message}"
  | .overflow o => o.message

def ofAssembly (path : String) : Assembly.AssemblyError → Failure
  | .atLine line f => .assembly path line f
  | .overflow o => .overflow o

def ofConfig : ConfigError → Failure
  | .fault f => .config f
  | .invalid s => .invalid s

end Failure

end FetchStage
