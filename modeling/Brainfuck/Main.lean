import Brainfuck.CommandLine.Repl
import Brainfuck.Prompt

/-!
The program itself: the commands on the real system.
-/

namespace Brainfuck.Main

open Text (Bytes)

def programName : String := "sbfi"

/--
The number of instructions after which a program would be broken off, which no program reaches.
-/
def budget : Nat := UInt64.size / 4

def fileError : IO.Error → FileError
  | .noFileOrDirectory .. => .missing
  | .inappropriateType _ _ "is a directory" => .directory
  | .inappropriateType _ _ "not a directory" => .notDirectory
  | error => .other error.toString

def writeTo (stream : IO.FS.Stream) (text : String) : IO Unit := do
  stream.putStr text
  stream.flush

partial def readBytes (stream : IO.FS.Stream) : IO Bytes :=
  go []
where
  /-- `line` holds the bytes read so far, the last one first. -/
  go (line : Bytes) : IO Bytes := do
    match (← stream.read 1).toList with
    | [] => return line.reverse
    | byte :: _ => if byte = Text.newline then return (byte :: line).reverse else go (byte :: line)

def configDirectory? : IO (Option String) := do
  match ← IO.getEnv "XDG_CONFIG_HOME" with
  | some directory => if directory.isEmpty then homeDirectory? else return some directory
  | none => homeDirectory?
where
  homeDirectory? : IO (Option String) := do
    return (← IO.getEnv "HOME").map (· ++ "/.config")

def host : IO (CommandLine.Host IO) := do
  let stdin ← IO.getStdin
  let stdout ← IO.getStdout
  let stderr ← IO.getStderr
  let nextLine : IO (Option String) := do
    return (Text.readLine (← readBytes stdin)).1
  return {
    setting? := fun name => IO.getEnv name
    inputIsTerminal := ← stdin.isTty
    errorIsTerminal := ← stderr.isTty
    writeOutput := writeTo stdout
    writeError := writeTo stderr
    ask := do
      writeTo stderr Prompt.text
      return (Text.readFirstChar (← readBytes stdin)).1
    nextLine
    editLine := do
      writeTo stderr "BF> "
      nextLine
    readFile := fun path => do
      match ← (IO.FS.readBinFile path).toBaseIO with
      | .ok content => return .ok content.toList
      | .error error => return .error (fileError error)
    writeFile := fun path content => do
      match ← (IO.FS.writeBinFile path ⟨content.toArray⟩).toBaseIO with
      | .ok () => return .ok ()
      | .error error => return .error (fileError error)
    configDirectory?
    exhausted := do
      writeTo stderr "capacity overflow\n"
      return 101 }

end Brainfuck.Main

open Brainfuck in
def main (arguments : List String) : IO UInt32 := do
  match CommandLine.Command.read arguments with
  | .error error =>
    IO.eprintln ("error: " ++ error.message)
    return 2
  | .ok command => command.perform (← Main.host) Main.programName Main.budget
