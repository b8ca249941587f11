import Brainfuck.Instruction
import Brainfuck.Fault

/-!
Programs: a list of instructions whose brackets are matched, together with the partner of every
bracket. `Program.parse` finds the partners in one pass over the instructions with a stack of the
brackets that are still open.
-/

namespace Brainfuck

structure Program where
  code : Array Instruction
  jumps : Array (Option Nat)
  deriving DecidableEq, Repr

namespace Program

/--
Match the brackets of a list of instructions.

A closing bracket takes the innermost bracket that is still open, and without one it is at fault. Once
all instructions are read, the outermost bracket that is still open is at fault.
-/
def matchBrackets (code : List Instruction) : Except Fault (Array (Option Nat)) :=
  go code 0 [] (.replicate code.length none)
where
  /-- `stack` holds the positions of the open brackets before `position`, innermost first. -/
  go (rest : List Instruction) (position : Nat) (stack : List Nat) (jumps : Array (Option Nat)) :
      Except Fault (Array (Option Nat)) :=
    match rest with
    | [] =>
      match stack.getLast? with
      | none => .ok jumps
      | some outermost => .error (.unmatched .opening outermost)
    | .loopOpen :: rest => go rest (position + 1) (position :: stack) jumps
    | .loopClose :: rest =>
      match stack with
      | [] => .error (.unmatched .closing position)
      | partner :: stack =>
        go rest (position + 1) stack
          ((jumps.setIfInBounds position (some partner)).setIfInBounds partner (some position))
    | _ :: rest => go rest (position + 1) stack jumps

def parse (source : String) : Except Fault Program :=
  let code := instructions source
  (matchBrackets code).map fun jumps => { code := code.toArray, jumps }

def length (p : Program) : Nat :=
  p.code.size

def isEmpty (p : Program) : Bool :=
  p.code.isEmpty

def instruction? (p : Program) (position : Nat) : Option Instruction :=
  p.code[position]?

def jump? (p : Program) (position : Nat) : Option Nat :=
  p.jumps[position]?.join

def text (p : Program) : String :=
  .ofList (p.code.toList.map Instruction.symbol)

end Program

end Brainfuck
