import Brainfuck.Fault
import Brainfuck.Text.Decimal

/-!
What is shown to the user when something goes wrong.
-/

namespace Brainfuck.Report

def label (terminal : Bool) : String :=
  if terminal then "\x1b[1;91mError:\x1b[0m" else "Error:"

def banner (terminal : Bool) (message : String) : String :=
  label terminal ++ " " ++ message ++ "\n"

def radius : Nat := 32

/--
The characters of a program around a position. The end of the range is a machine word.
-/
def excerpt (code : List Char) (position : Nat) : List Char :=
  let start := position - radius
  let stop := min ((position + radius + 1) % UInt64.size) code.length
  (code.drop start).take (stop - start)

def caretLine (position : Nat) : String :=
  Text.blanks (position - (position - radius)) ++ "^"

def withContext (terminal : Bool) (title code : String) (position : Nat) : String :=
  label terminal ++ " " ++ title ++ " at position " ++ position.repr ++ "\n" ++
    "  " ++ .ofList (excerpt code.toList position) ++ "\n" ++
    "  " ++ caretLine position ++ "\n"

def title : Fault → String
  | .unmatched bracket _ => "Syntax error: unmatched bracket " ++ bracket.quoted
  | .overflow _ => "Runtime error: memory pointer overflow"
  | .underflow _ => "Runtime error: memory pointer underflow"

def ofFault (terminal : Bool) (command? : Option String) (code : String) (fault : Fault) : String :=
  let title :=
    match command? with
    | none => title fault
    | some command => command ++ ": " ++ title fault
  withContext terminal title code fault.position

end Brainfuck.Report
