import Brainfuck.Machine.Step
import Brainfuck.Trace

/-!
Runs: the machine goes on instruction by instruction, and a `Console` answers for the outside world.
The console lives in a monad, so that one and the same run can happen in a terminal or in a pure
state. A run is given a number of instructions after which it is broken off.
-/

namespace Brainfuck

structure Console (m : Type → Type) where
  /-- Show a character that the program wrote. Not used in debug mode. -/
  print : Char → m Unit
  /-- Show the state before an instruction. Only used in debug mode. -/
  trace : TraceRecord → m Unit
  ask : m (Option Char)

inductive Ending where
  | finished
  | failed (fault : Fault)
  | interrupted
  deriving DecidableEq, Repr

namespace Machine

variable {n : Nat} {m : Type → Type} [Monad m]

@[specialize]
def traceNext (console : Console m) (p : Program) (machine : Machine n) : m Unit :=
  if machine.debug then
    match p.instruction? machine.ip with
    | none => pure ()
    | some instruction => console.trace (.capture machine.ip instruction machine.tape)
  else
    pure ()

@[specialize]
def run (console : Console m) (p : Program) (budget : Nat) (machine : Machine n) :
    m (Ending × Machine n) :=
  match budget with
  | 0 => pure (.interrupted, machine)
  | budget + 1 => do
    machine.traceNext console p
    match machine.step p with
    | .halt machine => pure (.finished, machine)
    | .fail fault machine => pure (.failed fault, machine)
    | .advance machine => run console p budget machine
    | .write c machine =>
      unless machine.debug do
        console.print c
      run console p budget machine
    | .ask resume =>
      let c ← console.ask
      run console p budget (resume c)

/--
Run a source text on a machine that is reset and given an input text. Without matching brackets nothing
is run.
-/
@[specialize]
def execute (console : Console m) (budget : Nat) (source input : String) (machine : Machine n) :
    m (Ending × Machine n) :=
  let machine := machine.reset.setInput input
  match Program.parse source with
  | .error fault => pure (.failed fault, machine)
  | .ok program => run console program budget machine

end Machine

end Brainfuck
