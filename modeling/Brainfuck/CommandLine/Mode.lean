import Brainfuck.Text.Blank

/-!
The two modes of a session and the choice between them: an option decides, then an environment variable,
and without both the editor is used wherever there is a terminal.
-/

namespace Brainfuck.CommandLine

inductive Mode where
  | bare
  | editor
  deriving DecidableEq, Repr

inductive ModeError where
  | noTerminalForOption
  | noTerminalForVariable
  | unknown (value : String)
  deriving DecidableEq, Repr

def ModeError.message : ModeError → String
  | noTerminalForOption =>
    "cannot start editor: stdin is not a TTY (use --bare or SBFI_REPL_MODE=bare)"
  | noTerminalForVariable => "cannot start editor: stdin is not a TTY (use SBFI_REPL_MODE=bare)"
  | unknown value => "invalid SBFI_REPL_MODE value: " ++ value ++ ", must be 'bare' or 'editor'"

namespace Mode

def variableName : String := "SBFI_REPL_MODE"

def editorOn (terminal : Bool) (otherwise : ModeError) : Except ModeError Mode :=
  if terminal then .ok .editor else .error otherwise

def ofVariable (terminal : Bool) (value : String) : Except ModeError Mode :=
  match Text.lowercase (Text.trim value) with
  | "bare" => .ok .bare
  | "editor" => editorOn terminal .noTerminalForVariable
  | _ => .error (.unknown value)

def select (option? : Option Mode) (setting? : Option String) (terminal : Bool) : Except ModeError Mode :=
  match option?, setting? with
  | some .bare, _ => .ok .bare
  | some .editor, _ => editorOn terminal .noTerminalForOption
  | none, some value => ofVariable terminal value
  | none, none => .ok (if terminal then .editor else .bare)

end Mode

end Brainfuck.CommandLine
