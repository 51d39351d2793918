import FetchStage.Assembly.Program
import FetchStage.Files.Failure
import FetchStage.Files.Host
import FetchStage.Format.BranchTrace
import FetchStage.Format.ProgramImage
import FetchStage.Format.TableImage

/-! # Loading and saving

Programs, traces, tables and configurations in files. Each success but a configuration's is announced in the log.
-/
namespace FetchStage

variable {m : Type → Type} [Monad m] [Host m]

def readFile (path : String) : ExceptT Failure m (List Char) := do
  match ← (Host.readText path : m _) with
  | .ok text => return text.toList
  | .error reason => throw (.access path reason)

def writeFile (path text : String) : ExceptT Failure m Unit := do
  match ← (Host.writeText path text : m _) with
  | .ok () => return ()
  | .error reason => throw (.access path reason)

def announce (message : String) : ExceptT Failure m Unit := (say (.info message) : m Unit)

def ofFormat {α : Type} (path : String) : Except Format.LineFault α → ExceptT Failure m α
  | .ok a => return a
  | .error f => throw (.format path f)

/-- A program image; one without words is refused. -/
def loadProgram (path : String) : ExceptT Failure m (List Word) := do
  let words ← ofFormat path (Format.readProgram (← readFile path))
  if words.isEmpty then throw (.emptyProgram path)
  announce s!"loaded {words.length} instruction words from {path}"
  return words

def saveProgram (path : String) (words : List Word) : ExceptT Failure m Unit := do
  writeFile path (String.ofList (Format.programText words))
  announce s!"wrote {words.length} instruction words to {path}"

def loadTrace (path : String) : ExceptT Failure m (List BranchRecord) := do
  let records ← ofFormat path (Format.readTrace (← readFile path))
  announce s!"loaded {records.length} branch records from {path}"
  return records

def loadTable (path : String) : ExceptT Failure m BranchTable := do
  let table ← ofFormat path (Format.readTable (← readFile path))
  announce s!"loaded {table.size} ground-truth entries from {path}"
  return table

def saveTable (path : String) (table : BranchTable) : ExceptT Failure m Unit := do
  writeFile path (String.ofList (Format.tableText table))
  announce s!"wrote {table.size} ground-truth entries to {path}"

/-- Assembles a text that stands for the file `path`, with an event for each line. -/
def assembleText (path : String) (text : List Char) : ExceptT Failure m (List Word) := do
  if (← (Host.filter : m LogFilter)).admits .debug then
    for e in Assembly.assembleEvents text do
      (say e : m Unit)
  match Assembly.assemble text with
  | .ok words => return words
  | .error e => throw (.ofAssembly path e)

def loadAssembly (path : String) : ExceptT Failure m (List Word) := do
  let words ← assembleText path (← readFile path)
  announce s!"assembled {words.length} instructions from {path}"
  return words

def loadConfig (path : String) : ExceptT Failure m Config := do
  match Config.ofText (← readFile path) with
  | .ok c => return c
  | .error e => throw (.ofConfig e)

end FetchStage
