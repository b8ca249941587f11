import Brainfuck.CommandLine.Repl
import Brainfuck.Editor
import Brainfuck.Prompt

/-!
A system in memory: the files of a working directory, an environment, the standard streams, and a user
who answers prompts and types into the line editor. Commands that run on it are pure functions of its
state.
-/

namespace Brainfuck

open Text (Bytes)

structure World where
  files : FileTree := {}
  environment : List (String × String) := []
  configDirectory? : Option String := none
  stdin : Bytes := []
  stdout : String := ""
  stderr : String := ""
  prompt : Prompt := {}
  /--
  What the user does at the prompts to come: send something to the standard input, or interrupt the
  prompt. Once this list is used up, the standard input holds all that will ever come.
  -/
  reactions : List (Option Bytes) := []
  editor : Editor := {}
  keys : List Key := []

namespace World

def writeOutput (text : String) : StateM World Unit :=
  modify fun w => { w with stdout := w.stdout ++ text }

def writeError (text : String) : StateM World Unit :=
  modify fun w => { w with stderr := w.stderr ++ text }

/--
Prompt for a character. A line that came after an earlier prompt was interrupted answers at once; otherwise
the prompt is shown, the user reacts, and the reader takes the next line of the standard input.
-/
def ask : StateM World (Option Char) := do
  let w ← get
  match w.prompt.drain with
  | (some c, prompt) =>
    set { w with prompt }
    return c
  | (none, prompt) =>
    let stderr := w.stderr ++ Prompt.text
    match w.reactions with
    | none :: reactions =>
      let (c, prompt) := prompt.waitFor .interrupt
      set { w with stderr, prompt, reactions }
      return c
    | some sent :: reactions =>
      let (line, stdin) := Text.readFirstChar (w.stdin ++ sent)
      let (c, prompt) := prompt.waitFor (.line line)
      set { w with stderr, prompt, stdin, reactions }
      return c
    | [] =>
      let (line, stdin) := Text.readFirstChar w.stdin
      let (c, prompt) := prompt.waitFor (.line line)
      set { w with stderr, prompt, stdin }
      return c

def settleReader : StateM World Unit :=
  modify fun w =>
    if w.prompt.hasReader then
      let (line, stdin) := Text.readFirstChar w.stdin
      { w with stdin, prompt := w.prompt.deliver line }
    else
      w

def nextLine : StateM World (Option String) := do
  settleReader
  let w ← get
  let (line?, stdin) := Text.readLine w.stdin
  set { w with stdin }
  return line?

def editLine : StateM World (Option String) := do
  let w ← get
  let (line?, editor, keys) := w.editor.readLine w.keys
  set { w with editor, keys }
  return line?

def setting? (name : String) : StateM World (Option String) := do
  return (← get).environment.lookup name

def readFile (path : String) : StateM World (Except FileError Bytes) := do
  return (← get).files.read path

def writeFile (path : String) (content : Bytes) : StateM World (Except FileError Unit) := do
  let w ← get
  match w.files.write path content with
  | .error error => return .error error
  | .ok files =>
    set { w with files }
    return .ok ()

def exhausted : StateM World UInt32 := do
  writeError "capacity overflow\n"
  return 101

def host (inputIsTerminal errorIsTerminal : Bool) : CommandLine.Host (StateM World) where
  setting? := setting?
  inputIsTerminal := inputIsTerminal
  errorIsTerminal := errorIsTerminal
  writeOutput := writeOutput
  writeError := writeError
  ask := ask
  nextLine := nextLine
  editLine := editLine
  readFile := readFile
  writeFile := writeFile
  configDirectory? := return (← get).configDirectory?
  exhausted := exhausted

end World

end Brainfuck
