import Brainfuck.Machine.Run

/-!
Sessions: one machine runs one program per line. Each line starts on a reset tape, and the first fault
ends the session.
-/

namespace Brainfuck

/--
What is still to be written once a program has ended. In debug mode its output was held back and comes
now; output that does not end with a newline gets one.
-/
def closing (output : String) (debug : Bool) : String :=
  let held := if debug then output else ""
  match output.toList.getLast? with
  | none => held
  | some '\n' => held
  | some _ => held.push '\n'

structure Session (m : Type → Type) where
  console : Console m
  nextLine : m (Option String)
  write : String → m Unit

namespace Session

variable {n : Nat} {m : Type → Type} [Monad m]

/--
Run line after line. Lines without an instruction leave the machine alone. The budget bounds the number
of lines and the instructions of each line.
-/
@[specialize]
def run (session : Session m) (budget : Nat) (machine : Machine n) : m (Ending × Machine n) :=
  match budget with
  | 0 => pure (.interrupted, machine)
  | budget + 1 => do
    match ← session.nextLine with
    | none => pure (.finished, machine)
    | some line =>
      if (stripComments line).isEmpty then
        run session budget machine
      else
        let (ending, machine) ← machine.execute session.console budget line ""
        match ending with
        | .finished =>
          session.write (closing machine.output machine.debug)
          run session budget machine
        | ending => pure (ending, machine)

end Session

end Brainfuck
