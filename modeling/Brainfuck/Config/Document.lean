import Brainfuck.Config
import Brainfuck.Text.Cut

/-!
The configuration file: sections with assignments, of which only those of the section `machine` count.
-/

namespace Brainfuck.Config

inductive Entry where
  /-- A blank line, a comment, or a line without an equals sign. -/
  | ignored
  | header (name : String)
  | assignment (key value : String)
  deriving DecidableEq, Repr

def unquote (value : List Char) : List Char :=
  match value with
  | '"' :: rest => if rest.getLast? = some '"' then rest.dropLast else value
  | _ => value

namespace Entry

def ofAssignment (line : List Char) : Entry :=
  match line.dropWhile (· != '=') with
  | [] => .ignored
  | _ :: value =>
    let key := line.takeWhile (· != '=')
    .assignment (.ofList (Text.trimList key)) (.ofList (unquote (Text.trimList value)))

def ofLine (line : List Char) : Entry :=
  match Text.trimList line with
  | [] => .ignored
  | '#' :: _ => .ignored
  | '[' :: rest =>
    if rest.getLast? = some ']' then .header (.ofList rest.dropLast) else ofAssignment ('[' :: rest)
  | line => ofAssignment line

end Entry

def machineAssignments (entries : List Entry) : List (String × String) :=
  go false entries
where
  go (inside : Bool) : List Entry → List (String × String)
    | [] => []
    | .ignored :: rest => go inside rest
    | .header name :: rest => go (name = "machine") rest
    | .assignment key value :: rest => if inside then (key, value) :: go inside rest else go inside rest

def lastValue? (key : String) (assignments : List (String × String)) : Option String :=
  assignments.foldl (fun last? (k, value) => if k = key then some value else last?) none

/--
The settings that a configuration file gives. The last assignment of a key counts, even where it is
invalid and an earlier one is not.
-/
def Layer.ofDocument (text : String) : Layer :=
  let assignments := machineAssignments ((Text.cut '\n' text.toList).map Entry.ofLine)
  { tapeLength? := (lastValue? "tape_length" assignments).bind readTapeLength
    debug? := (lastValue? "debug" assignments).bind readSwitch
    dumpFile? := (lastValue? "dump_file" assignments).bind readFileName }

end Brainfuck.Config
