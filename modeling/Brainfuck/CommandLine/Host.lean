import Brainfuck.Files
import Brainfuck.Session
import Brainfuck.Config.Document

/-!
The system that the commands run on, as far as they can see it. It lives in a monad: the commands are the
same whether they run on a real system or on one in memory.
-/

namespace Brainfuck.CommandLine

structure Host (m : Type → Type) where
  setting? : String → m (Option String)
  inputIsTerminal : Bool
  errorIsTerminal : Bool
  writeOutput : String → m Unit
  writeError : String → m Unit
  ask : m (Option Char)
  nextLine : m (Option String)
  editLine : m (Option String)
  readFile : String → m (Except FileError Text.Bytes)
  writeFile : String → Text.Bytes → m (Except FileError Unit)
  configDirectory? : m (Option String)
  /-- End the process because memory cannot be had, and give the exit code. -/
  exhausted : m UInt32

namespace Host

variable {m : Type → Type} [Monad m]

@[specialize]
def console (host : Host m) : Console m where
  print c := host.writeOutput (.singleton c)
  trace record := host.writeOutput (record.text ++ "\n")
  ask := host.ask

/--
The settings of the configuration file. A file that is missing or no text gives none.
-/
@[specialize]
def fileLayer (host : Host m) : m Config.Layer := do
  match ← host.configDirectory? with
  | none => return {}
  | some directory =>
    match ← host.readFile (directory ++ "/sbfi.toml") with
    | .error _ => return {}
    | .ok content => return ((Text.decode? content).map Config.Layer.ofDocument).getD {}

@[specialize]
def environmentLayer (host : Host m) : m Config.Layer := do
  let length? ← host.setting? Config.lengthVariable
  let debug? ← host.setting? Config.debugVariable
  return .ofEnvironment fun name =>
    if name = Config.lengthVariable then length?
    else if name = Config.debugVariable then debug?
    else none

@[specialize]
def loadConfig (host : Host m) : m Config := do
  let file ← host.fileLayer
  let environment ← host.environmentLayer
  return (({} : Config).apply file).apply environment

end Host

end Brainfuck.CommandLine
