import FetchStage.Consumer
import FetchStage.Memory.Image
import FetchStage.Memory.Timing

/-! # Configuration

Settings of a run and of what surrounds the fetch engine, with their defaults, the conditions they must meet, and the
memory model they select.
-/
namespace FetchStage

inductive Controller where
  | simple
  | dram
  deriving DecidableEq, Repr

def Controller.name : Controller → String
  | .simple => "Simple"
  | .dram => "Dram"

structure GeneralConfig where
  /-- Cycle budget of a run. -/
  maxCycles : Nat := 10000
  /-- Log a line for every cycle. -/
  trace : Bool := false
  stopOnViolation : Bool := true
  deriving DecidableEq

structure MemoryConfig where
  controller : Controller := .simple
  latency : Nat := 1
  columnAccess : Nat := 2
  activate : Nat := 2
  precharge : Nat := 2
  /-- The word read outside the program. -/
  fill : Word := nop
  deriving DecidableEq

structure ResolutionConfig where
  /-- Cycles between a delivery and its resolution. -/
  delay : Nat := 1
  deriving DecidableEq

structure Config where
  general : GeneralConfig := {}
  memory : MemoryConfig := {}
  consumer : Consumer := {}
  resolution : ResolutionConfig := {}
  deriving DecidableEq

/-- A setting that a run cannot have. -/
inductive Setting where
  | latency
  | columnAccess
  | consumePeriod
  | stallLength
  | delay
  /-- A fixed latency for a memory that has none. -/
  | latencyOfDram
  deriving DecidableEq, Repr

def Setting.message : Setting → String
  | .latency => "memory.latency must be at least 1"
  | .columnAccess => "memory.t_cas must be at least 1"
  | .consumePeriod => "consumer.consume_period must be at least 1"
  | .stallLength => "consumer.stall_length must be shorter than consumer.stall_every"
  | .delay => "resolution.delay must be at least 1"
  | .latencyOfDram => "latency applies to the Simple controller; set t_cas/t_ras/t_pre for Dram"

namespace MemoryConfig

/-- Fixed timing, or a bank with no row open. -/
def timing (m : MemoryConfig) : Timing :=
  match m.controller with
  | .simple => .fixed m.latency
  | .dram =>
    .rowBuffer { columnAccess := m.columnAccess, activate := m.activate, precharge := m.precharge }

def setLatency (m : MemoryConfig) (latency : Nat) : Except Setting MemoryConfig :=
  match m.controller with
  | .simple => .ok { m with latency }
  | .dram => .error .latencyOfDram

def describe (m : MemoryConfig) : String :=
  match m.controller with
  | .simple => s!"simple, latency {m.latency}"
  | .dram => s!"dram, tCAS {m.columnAccess} tRAS {m.activate} tPRE {m.precharge}"

end MemoryConfig

namespace Config

/-- The first setting out of range. -/
def validate (c : Config) : Except Setting Unit :=
  if c.memory.latency = 0 then .error .latency
  else if c.memory.controller = .dram ∧ c.memory.columnAccess = 0 then .error .columnAccess
  else if c.consumer.period = 0 then .error .consumePeriod
  else if c.consumer.stallEvery ≠ 0 ∧ c.consumer.stallEvery ≤ c.consumer.stallLength then .error .stallLength
  else if c.resolution.delay = 0 then .error .delay
  else .ok ()

structure Valid (c : Config) : Prop where
  latency : 0 < c.memory.latency
  columnAccess : c.memory.controller = .dram → 0 < c.memory.columnAccess
  period : 0 < c.consumer.period
  stallLength : 0 < c.consumer.stallEvery → c.consumer.stallLength < c.consumer.stallEvery
  delay : 0 < c.resolution.delay

theorem validate_eq_ok {c : Config} : c.validate = .ok () ↔ c.Valid := by
  constructor
  · intro h
    unfold validate at h
    constructor <;> grind
  · rintro ⟨hlatency, hcolumn, hperiod, hstall, hdelay⟩
    unfold validate
    grind

end Config

end FetchStage
