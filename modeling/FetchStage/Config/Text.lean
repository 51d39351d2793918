import FetchStage.Config.Basic
import FetchStage.Json.Record

/-! # Configuration text

The configuration is a JSON record of four sections. Everything may be left out, and unknown keys are skipped. A section
left out is the default one. A section that is given has a value of its own for each key it omits.
-/
namespace FetchStage
open Json

def countField : Reader Nat := count Count.limit "u64"

def wordField : Reader Word := fun cs => (count (Nat.pow 2 32) "u32" cs).map fun v => (BitVec.ofNat 32 v.1, v.2)

def controllerField : Reader Controller :=
  variant [("Simple", .simple), ("Dram", .dram), ("DRAM", .dram)] ["Simple", "DRAM", "Dram"]

namespace GeneralConfig

def omitted : GeneralConfig where
  maxCycles := 10000
  trace := false
  stopOnViolation := true

def fields : List (RecordField GeneralConfig) :=
  [.of "max_cycles" countField fun v c => { c with maxCycles := v },
    .of "trace" boolean fun v c => { c with trace := v },
    .of "stop_on_violation" boolean fun v c => { c with stopOnViolation := v }]

end GeneralConfig

namespace MemoryConfig

def omitted : MemoryConfig where
  controller := .simple
  latency := 1
  columnAccess := 2
  activate := 2
  precharge := 2
  fill := nop

def fields : List (RecordField MemoryConfig) :=
  [.of "controller" controllerField fun v c => { c with controller := v },
    .of "latency" countField fun v c => { c with latency := v },
    .of "t_cas" countField fun v c => { c with columnAccess := v },
    .of "t_ras" countField fun v c => { c with activate := v },
    .of "t_pre" countField fun v c => { c with precharge := v },
    .of "fill_word" wordField fun v c => { c with fill := v }]

end MemoryConfig

namespace Consumer

def omitted : Consumer where
  period := 1
  stallEvery := 0
  stallLength := 0

def fields : List (RecordField Consumer) :=
  [.of "consume_period" countField fun v c => { c with period := v },
    .of "stall_every" countField fun v c => { c with stallEvery := v },
    .of "stall_length" countField fun v c => { c with stallLength := v }]

end Consumer

namespace ResolutionConfig

def omitted : ResolutionConfig where
  delay := 1

def fields : List (RecordField ResolutionConfig) :=
  [.of "delay" countField fun v c => { c with delay := v }]

end ResolutionConfig

inductive ConfigError where
  | fault (fault : Json.Fault)
  | invalid (setting : Setting)
  deriving DecidableEq

namespace Config

def fields : List (RecordField Config) :=
  [.of "general" (record "struct GeneralConfig" GeneralConfig.fields .omitted) fun v c => { c with general := v },
    .of "memory" (record "struct MemoryConfig" MemoryConfig.fields .omitted) fun v c => { c with memory := v },
    .of "consumer" (record "struct ConsumerConfig" Consumer.fields .omitted) fun v c => { c with consumer := v },
    .of "resolution" (record "struct ResolutionConfig" ResolutionConfig.fields .omitted) fun v c =>
      { c with resolution := v }]

/-- The settings a text gives, in range or not. -/
def read (text : List Char) : Except Json.Fault Config := whole (record "struct Config" fields {}) text

/-- A configuration that a run can have. -/
def ofText (text : List Char) : Except ConfigError Config :=
  match read text with
  | .error f => .error (.fault f)
  | .ok c =>
    match c.validate with
    | .error s => .error (.invalid s)
    | .ok () => .ok c

end Config

end FetchStage
