import Brainfuck.Instruction
import Brainfuck.Fault
import Brainfuck.Program
import Brainfuck.Tape
import Brainfuck.Input
import Brainfuck.Trace
import Brainfuck.Machine.Basic
import Brainfuck.Machine.Step
import Brainfuck.Machine.Run
import Brainfuck.Session
import Brainfuck.Recording
import Brainfuck.JsonValue
import Brainfuck.Snapshot
import Brainfuck.Config
import Brainfuck.Config.Document
import Brainfuck.Report
import Brainfuck.Highlight
import Brainfuck.Prompt
import Brainfuck.Files
import Brainfuck.Source
import Brainfuck.Editor
import Brainfuck.Text.Blank
import Brainfuck.Text.Cut
import Brainfuck.Text.Decimal
import Brainfuck.Text.Line
import Brainfuck.Text.Quoted
import Brainfuck.CommandLine.Arguments
import Brainfuck.CommandLine.Host
import Brainfuck.CommandLine.Mode
import Brainfuck.CommandLine.Repl
import Brainfuck.CommandLine.Run
import Brainfuck.CommandLine.Usage
import Brainfuck.World
import Brainfuck.Main
import Brainfuck.Proofs.Brackets
import Brainfuck.Proofs.Parse
import Brainfuck.Proofs.Cursor
import Brainfuck.Proofs.Structured
import Brainfuck.Proofs.Turn
import Brainfuck.Proofs.Refinement
import Brainfuck.Proofs.Lifetime
import Brainfuck.Proofs.Safety
import Brainfuck.Proofs.DebugMode
import Brainfuck.Proofs.Execution
import Brainfuck.Proofs.Outcome
import Brainfuck.Proofs.Delivery
import Brainfuck.Proofs.History
import Brainfuck.Proofs.TapeLength
import Brainfuck.Proofs.Correspondence
import Brainfuck.Proofs.Course
import Brainfuck.Proofs.FreshLines
import Brainfuck.Proofs.Transcript
import Brainfuck.Proofs.BareMode
import Brainfuck.Proofs.Lines
import Brainfuck.Proofs.PromptOrder
import Brainfuck.Proofs.PromptInterrupts
import Brainfuck.Proofs.Simulation
import Brainfuck.Proofs.InputOrigin
import Brainfuck.Proofs.DeadLoop
import Brainfuck.Proofs.FaultReport
import Brainfuck.Proofs.UnmatchedBracket
import Brainfuck.Proofs.FileTree
import Brainfuck.Proofs.RunCommand
import Brainfuck.Proofs.Decimal
import Brainfuck.Proofs.MachineSection
import Brainfuck.Proofs.Settings
import Brainfuck.Proofs.JsonReader
import Brainfuck.Proofs.JsonText
import Brainfuck.Proofs.Dump
import Brainfuck.Proofs.LineGrammar
import Brainfuck.Proofs.Document
import Brainfuck.Proofs.StraightLine
import Brainfuck.Proofs.TraceLayout
import Brainfuck.Proofs.TraceReader
import Brainfuck.Proofs.StyleRuns
import Brainfuck.Proofs.ConfigText
import Brainfuck.Proofs.LineWalk
import Brainfuck.Proofs.Excerpt
