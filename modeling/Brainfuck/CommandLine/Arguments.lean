import Brainfuck.Text.Decimal

/-!
The arguments of the command line. Each command has a `Grammar` that says which options it knows; the
arguments are read one by one into the options that they give, and the options are then collected into
the settings of the command.
-/

namespace Brainfuck.CommandLine

inductive Opt where
  | debug
  | help
  | file
  | input
  | tapeLength
  | dump
  | bare
  | editor
  deriving DecidableEq, Repr

inductive Opt.Arity where
  | none
  | required
  /-- A value behind an equals sign, which may be left out. -/
  | attached
  deriving DecidableEq, Repr

namespace Opt

def arity : Opt → Arity
  | debug => .none
  | help => .none
  | bare => .none
  | editor => .none
  | file => .required
  | input => .required
  | tapeLength => .required
  | dump => .attached

def longName : Opt → String
  | debug => "debug"
  | help => "help"
  | file => "file"
  | input => "input"
  | tapeLength => "tape-length"
  | dump => "dump"
  | bare => "bare"
  | editor => "editor"

def letter? : Opt → Option Char
  | debug => some 'd'
  | help => some 'h'
  | file => some 'f'
  | input => some 'i'
  | tapeLength => some 't'
  | dump => .none
  | bare => .none
  | editor => .none

end Opt

inductive UsageError where
  | unexpected (argument : String)
  | repeated (option : Opt)
  | missingValue (option : Opt)
  | superfluousValue (option : Opt)
  | invalidLength (text : String)
  | conflict
  deriving DecidableEq, Repr

def UsageError.message : UsageError → String
  | unexpected argument => "unexpected argument '" ++ argument ++ "'"
  | repeated option => "the option --" ++ option.longName ++ " is given twice"
  | missingValue option => "the option --" ++ option.longName ++ " needs a value"
  | superfluousValue option => "the option --" ++ option.longName ++ " takes no value"
  | invalidLength text => "'" ++ text ++ "' is no tape length"
  | conflict => "the options --bare and --editor exclude each other"

structure Grammar where
  options : List Opt
  dashedWords : Bool

structure Given where
  option : Opt
  value : String := ""
  deriving DecidableEq, Repr

inductive Argument where
  | separator
  | word
  | options (given : List Given) (waiting : Option Opt)
  deriving DecidableEq, Repr

structure Reading where
  given : List Given
  separated : Bool := false
  words : List String := []
  deriving DecidableEq, Repr

namespace Grammar

def ofLetter? (g : Grammar) (c : Char) : Option Opt :=
  g.options.find? (·.letter? = some c)

def ofLongName? (g : Grammar) (name : String) : Option Opt :=
  g.options.find? (·.longName = name)

/--
Read a group of letters. An option that needs a value takes the rest of the group, without an equals sign
in front of it, and waits for the next argument if nothing is left.
-/
def readLetters (g : Grammar) (argument : String) (given : List Given) :
    List Char → Except UsageError Argument
  | [] => .ok (.options given .none)
  | c :: rest =>
    match g.ofLetter? c with
    | none => .error (.unexpected argument)
    | some option =>
      match option.arity with
      | .none => readLetters g argument (given ++ [⟨option, ""⟩]) rest
      | _ =>
        match rest with
        | [] => .ok (.options given (some option))
        | '=' :: value => .ok (.options (given ++ [⟨option, .ofList value⟩]) .none)
        | value => .ok (.options (given ++ [⟨option, .ofList value⟩]) .none)

def readLong (option : Opt) (value? : Option (List Char)) : Except UsageError Argument :=
  match option.arity, value? with
  | .none, none => .ok (.options [⟨option, ""⟩] .none)
  | .none, some _ => .error (.superfluousValue option)
  | _, some value => .ok (.options [⟨option, .ofList value⟩] .none)
  | .required, none => .ok (.options [] (some option))
  | .attached, none => .ok (.options [⟨option, ""⟩] .none)

def readArgument (g : Grammar) (argument : String) : Except UsageError Argument :=
  match argument.toList with
  | ['-', '-'] => .ok .separator
  | '-' :: '-' :: cs =>
    match g.ofLongName? (.ofList (cs.takeWhile (· != '='))) with
    | some option => readLong option (cs.dropWhile (· != '=')).tail?
    | none => if g.dashedWords then .ok .word else .error (.unexpected argument)
  | '-' :: c :: cs =>
    if g.dashedWords && !((c :: cs).all fun c => (g.ofLetter? c).isSome) then
      .ok .word
    else
      g.readLetters argument [] (c :: cs)
  | _ => .ok .word

/--
Read arguments up to the first word that is no option and no value. The words are the arguments from there
on; a separator in front of them is dropped.
-/
def read (g : Grammar) (arguments : List String) : Except UsageError Reading :=
  go [] none arguments
where
  go (given : List Given) (waiting : Option Opt) : List String → Except UsageError Reading
    | [] =>
      match waiting with
      | none => .ok { given }
      | some option => .error (.missingValue option)
    | argument :: rest => do
      match waiting, ← g.readArgument argument with
      | none, .separator => return { given, separated := true, words := rest }
      | none, .word => return { given, words := argument :: rest }
      | none, .options more waiting => go (given ++ more) waiting rest
      | some option, .word => go (given ++ [⟨option, argument⟩]) none rest
      | some option, _ => .error (.missingValue option)

end Grammar

def valueOf? (option : Opt) (given : List Given) : Except UsageError (Option String) :=
  match given.filter (·.option = option) with
  | [] => .ok none
  | [g] => .ok (some g.value)
  | _ => .error (.repeated option)

def isGiven (option : Opt) (given : List Given) : Except UsageError Bool := do
  return (← valueOf? option given).isSome

def givenLength? (given : List Given) : Except UsageError (Option Nat) := do
  match ← valueOf? .tapeLength given with
  | none => return none
  | some text =>
    match Text.readWord text with
    | none => .error (.invalidLength text)
    | some length => return some length

structure RunArguments where
  debug : Bool := false
  file? : Option String := none
  input? : Option String := none
  tapeLength? : Option Nat := none
  /-- Where the snapshot goes, if one is asked for; empty for the configured file. -/
  dump? : Option String := none
  code : List String := []
  help : Bool := false
  deriving DecidableEq, Repr

structure ReplArguments where
  bare : Bool := false
  editor : Bool := false
  debug : Bool := false
  tapeLength? : Option Nat := none
  help : Bool := false
  deriving DecidableEq, Repr

/--
The options of the command that runs one program. All other arguments are parts of the program, which may
well start with a dash.
-/
def runGrammar : Grammar where
  options := [.debug, .file, .input, .tapeLength, .dump, .help]
  dashedWords := true

def replGrammar : Grammar where
  options := [.bare, .editor, .debug, .tapeLength, .help]
  dashedWords := false

def topGrammar : Grammar where
  options := [.help]
  dashedWords := false

def RunArguments.read (arguments : List String) : Except UsageError RunArguments := do
  let { given, words, .. } ← runGrammar.read arguments
  return {
    debug := ← isGiven .debug given
    file? := ← valueOf? .file given
    input? := ← valueOf? .input given
    tapeLength? := ← givenLength? given
    dump? := ← valueOf? .dump given
    code := words
    help := ← isGiven .help given }

def ReplArguments.read (arguments : List String) : Except UsageError ReplArguments := do
  let { given, words, .. } ← replGrammar.read arguments
  match words with
  | word :: _ => .error (.unexpected word)
  | [] =>
    let bare ← isGiven .bare given
    let editor ← isGiven .editor given
    if bare && editor then
      .error .conflict
    else
      return {
        bare
        editor
        debug := ← isGiven .debug given
        tapeLength? := ← givenLength? given
        help := ← isGiven .help given }

inductive Command where
  | help
  | run (arguments : RunArguments)
  | repl (arguments : ReplArguments)
  deriving DecidableEq, Repr

/--
Read the command line. Without a command a session is run. Behind a separator a word is no command.
-/
def Command.read (arguments : List String) : Except UsageError Command := do
  let { given, separated, words } ← topGrammar.read arguments
  let command ←
    match separated, words with
    | _, [] => pure (.repl {})
    | false, "run" :: rest => run <$> RunArguments.read rest
    | false, "repl" :: rest => repl <$> ReplArguments.read rest
    | _, word :: _ => .error (.unexpected word)
  return if ← isGiven .help given then .help else command

end Brainfuck.CommandLine
