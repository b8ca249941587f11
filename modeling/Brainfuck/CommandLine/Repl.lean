import Brainfuck.CommandLine.Mode
import Brainfuck.CommandLine.Run

/-!
The command that runs a session.
-/

namespace Brainfuck.CommandLine

variable {m : Type → Type} [Monad m]

namespace ReplArguments

def mode? (a : ReplArguments) : Option Mode :=
  if a.bare then some .bare else if a.editor then some .editor else none

def machine? (a : ReplArguments) (config : Config) : Option (Machine (max (resolveLength a.tapeLength? config) 1)) :=
  makeMachine? a.tapeLength? a.debug config

@[specialize]
def session (host : Host m) (mode : Mode) : Session m where
  console := host.console
  nextLine :=
    match mode with
    | .bare => host.nextLine
    | .editor => host.editLine
  write := host.writeOutput

def greeting : String :=
  "sbfi REPL (interactive editor mode)\nEnter runs the line. Ctrl+d or ctrl+c exits\n"

/--
Run a session in a mode. Neither a fault nor an interrupt makes the command itself fail.
-/
@[specialize]
def runSession (host : Host m) (config : Config) (budget : Nat) (a : ReplArguments) (mode : Mode) :
    m UInt32 := do
  match a.machine? config with
  | none => host.exhausted
  | some machine =>
    if mode = .editor && host.errorIsTerminal then
      host.writeError greeting
    let (ending, _) ← (session host mode).run budget machine
    if ending = .interrupted then
      return 0
    if mode = .editor then
      host.writeOutput "\n"
    if let .failed fault := ending then
      host.writeError (Report.banner host.errorIsTerminal fault.message)
    return 0

@[specialize]
def perform (host : Host m) (program : String) (config : Config) (budget : Nat) (a : ReplArguments) :
    m UInt32 := do
  if a.help then
    host.writeError (Usage.repl program)
    return 0
  match Mode.select a.mode? (← host.setting? Mode.variableName) host.inputIsTerminal with
  | .error error =>
    host.writeError (program ++ ": " ++ error.message ++ "\n")
    return 1
  | .ok mode => a.runSession host config budget mode

end ReplArguments

/--
Carry out what the command line asks for and give the exit code. The user's interrupt is the budget: it
comes after so many instructions, or never if the programs end before.
-/
@[specialize]
def Command.perform (host : Host m) (program : String) (budget : Nat) (command : Command) : m UInt32 := do
  match command with
  | .help =>
    host.writeError (Usage.top program)
    return 0
  | .run arguments => arguments.perform host program (← host.loadConfig) budget
  | .repl arguments => arguments.perform host program (← host.loadConfig) budget

end Brainfuck.CommandLine
