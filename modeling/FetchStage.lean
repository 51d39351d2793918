import FetchStage.Assembly.Example
import FetchStage.Assembly.Fault
import FetchStage.Assembly.Line
import FetchStage.Assembly.Operand
import FetchStage.Assembly.Program
import FetchStage.Assembly.Source
import FetchStage.Branch.Extract
import FetchStage.Branch.Record
import FetchStage.Branch.Table
import FetchStage.Buffer
import FetchStage.CommandLine.Argument
import FetchStage.CommandLine.Command
import FetchStage.CommandLine.Execute
import FetchStage.CommandLine.Scan
import FetchStage.Config.Basic
import FetchStage.Config.Text
import FetchStage.Consumer
import FetchStage.Contract
import FetchStage.Count
import FetchStage.Decimal.Binary
import FetchStage.Decimal.Fixed
import FetchStage.Decimal.Shortest
import FetchStage.Engine
import FetchStage.Files.Directory
import FetchStage.Files.Failure
import FetchStage.Files.Host
import FetchStage.Files.Load
import FetchStage.Files.Path
import FetchStage.Format.BranchTrace
import FetchStage.Format.Fault
import FetchStage.Format.ProgramImage
import FetchStage.Format.TableImage
import FetchStage.Isa.Field
import FetchStage.Isa.Instruction
import FetchStage.Json.Fault
import FetchStage.Json.Number
import FetchStage.Json.Quotation
import FetchStage.Json.Record
import FetchStage.Json.Skim
import FetchStage.Log.Event
import FetchStage.Log.Fetch
import FetchStage.Main
import FetchStage.Memory.Image
import FetchStage.Memory.Port
import FetchStage.Memory.Timing
import FetchStage.Predictor.Basic
import FetchStage.Predictor.Counter
import FetchStage.Predictor.TargetCache
import FetchStage.Resolver
import FetchStage.Scoreboard
import FetchStage.Signals
import FetchStage.Simulator.Basic
import FetchStage.Simulator.Bench
import FetchStage.Stats.Basic
import FetchStage.Stats.Report
import FetchStage.Text.Blank
import FetchStage.Text.Digits
import FetchStage.Text.Lines
import FetchStage.Text.Printable
import FetchStage.Text.Quoted
import FetchStage.Text.Terminal
import FetchStage.Wave
import FetchStage.Word
import FetchStage.Proofs.Buffer.Ring
import FetchStage.Proofs.Predictor.History
import FetchStage.Proofs.Engine.Cycle
import FetchStage.Proofs.Engine.Reference
import FetchStage.Proofs.Engine.Epoch
import FetchStage.Proofs.Simulator.Run
import FetchStage.Proofs.Observers
import FetchStage.Proofs.Memory.Port
import FetchStage.Proofs.Simulator.Delivery
import FetchStage.Proofs.Predictor.Learning
import FetchStage.Proofs.Resolver.Queue
import FetchStage.Proofs.Simulator.Learning
import FetchStage.Proofs.Engine.Backpressure
import FetchStage.Proofs.Engine.Contract
import FetchStage.Proofs.Simulator.Resolution
import FetchStage.Proofs.Assembly.Passes
import FetchStage.Proofs.Assembly.Branches
import FetchStage.Proofs.Simulator.Bench
import FetchStage.Proofs.Simulator.Contract
import FetchStage.Proofs.Sequence
import FetchStage.Proofs.Text.Digits
import FetchStage.Proofs.Text.Lines
import FetchStage.Proofs.Branch.Table
import FetchStage.Proofs.Format.TableImage
import FetchStage.Proofs.Buffer.Queue
import FetchStage.Proofs.Simulator.Capacity
import FetchStage.Proofs.Simulator.Restart
import FetchStage.Proofs.Simulator.Stop
import FetchStage.Proofs.Resolver.Slots
import FetchStage.Proofs.Resolver.Ledger
import FetchStage.Proofs.Resolver.Presented
import FetchStage.Proofs.Memory.Latency
import FetchStage.Proofs.Simulator.Refusal
import FetchStage.Proofs.Assembly.Negation
import FetchStage.Proofs.Memory.Accesses
import FetchStage.Proofs.Predictor.Calls
import FetchStage.Proofs.Stats.Balance
import FetchStage.Proofs.Memory.Blocks
import FetchStage.Proofs.Simulator.Wait
import FetchStage.Proofs.Simulator.Training
import FetchStage.Proofs.Simulator.Throughput
import FetchStage.Proofs.Simulator.StraightLine
import FetchStage.Proofs.Isa.Decode
import FetchStage.Proofs.Isa.Shift
import FetchStage.Proofs.Text.Numerals
import FetchStage.Proofs.Assembly.Written
import FetchStage.Proofs.Assembly.Outcome
import FetchStage.Proofs.Assembly.Relocation
import FetchStage.Proofs.Branch.Records
import FetchStage.Proofs.Text.Fields
import FetchStage.Proofs.Format.ProgramImage
import FetchStage.Proofs.Format.TableLines
import FetchStage.Proofs.Json.Grammar
import FetchStage.Proofs.Json.Skim
import FetchStage.Proofs.Json.Scalar
import FetchStage.Proofs.Json.Record
import FetchStage.Proofs.Config.Text
import FetchStage.Proofs.Wave.Line
import FetchStage.Proofs.Wave.Sink
import FetchStage.Proofs.Wave.Dump
import FetchStage.Proofs.Wave.Record
import FetchStage.Proofs.Consumer
import FetchStage.Proofs.Isa.Shift
