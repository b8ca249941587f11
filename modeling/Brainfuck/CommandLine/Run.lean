import Brainfuck.CommandLine.Arguments
import Brainfuck.CommandLine.Host
import Brainfuck.CommandLine.Usage
import Brainfuck.Report
import Brainfuck.Source

/-!
The command that runs one program, from a file or from the command line.
-/

namespace Brainfuck.CommandLine

variable {m : Type → Type} [Monad m]

def resolveLength (option? : Option Nat) (config : Config) : Nat :=
  (option?.filter (0 < ·)).getD config.tapeLength

def makeMachine? (length? : Option Nat) (debug : Bool) (config : Config)
    : Option (Machine (max (resolveLength length? config) 1)) :=
  (Machine.make? (resolveLength length? config)).map (·.setDebug (debug || config.debug))

namespace RunArguments

inductive Origin where
  | file (path : String)
  | code (source : String)
  | nothing
  | both

def origin (a : RunArguments) : Origin :=
  match a.file?, a.code with
  | none, [] => .nothing
  | none, code => .code (String.join code)
  | some path, [] => .file path
  | some _, _ => .both

def machine? (a : RunArguments) (config : Config) : Option (Machine (max (resolveLength a.tapeLength? config) 1)) :=
  makeMachine? a.tapeLength? a.debug config

@[specialize]
def dump {n : Nat} (host : Host m) (config : Config) (a : RunArguments) (machine : Machine n) : m Bool := do
  match a.dump? with
  | none => return true
  | some path =>
    let path := if path.isEmpty then config.dumpFile else path
    match ← host.writeFile path (Text.encode (Snapshot.capture machine).text) with
    | .ok () => return true
    | .error error =>
      host.writeError (Report.banner host.errorIsTerminal (Snapshot.failureMessage path error))
      return false

/--
Run a source text and give the exit code: zero if the program finished and nothing else went wrong. The
output is completed and the snapshot is written after a fault as well, but not after an interrupt.
-/
@[specialize]
def runSource (host : Host m) (program : String) (config : Config) (budget : Nat) (a : RunArguments)
    (source : String) : m UInt32 := do
  match a.machine? config with
  | none => host.exhausted
  | some machine =>
    let (ending, machine) ← machine.execute host.console budget source (a.input?.getD "")
    if ending = .interrupted then
      return 130
    host.writeOutput (closing machine.output machine.debug)
    if let .failed fault := ending then
      host.writeError (Report.ofFault host.errorIsTerminal (some program) (stripComments source) fault)
    let dumped ← a.dump host config machine
    return if ending = .finished && dumped then 0 else 1

@[specialize]
def perform (host : Host m) (program : String) (config : Config) (budget : Nat) (a : RunArguments) :
    m UInt32 := do
  if a.help then
    host.writeError (Usage.run program)
    return 0
  match a.origin with
  | .nothing =>
    host.writeError (Usage.run program)
    return 2
  | .both =>
    host.writeError (program ++ ": cannot use positional code together with --file\n")
    host.writeError (Usage.run program)
    return 2
  | .code source => a.runSource host program config budget source
  | .file path =>
    match sourceText path (← host.readFile path) with
    | .error error =>
      host.writeError (Report.banner host.errorIsTerminal error.message)
      return 1
    | .ok source => a.runSource host program config budget source

end RunArguments

end Brainfuck.CommandLine
