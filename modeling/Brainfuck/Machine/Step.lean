import Brainfuck.Program
import Brainfuck.Machine.Basic

/-!
One instruction at a time. `Machine.step` decides what the next instruction does; what it needs from
outside, a character written or a character asked for, is named in the `Transition` and left to the
caller.
-/

namespace Brainfuck

inductive Transition (n : Nat) where
  | halt (machine : Machine n)
  /-- The instruction cannot be carried out; the machine is as it was before. -/
  | fail (fault : Fault) (machine : Machine n)
  | advance (next : Machine n)
  | write (c : Char) (next : Machine n)
  /-- The input buffer is used up: the instruction needs a character, or to hear that there is none. -/
  | ask (resume : Option Char → Machine n)

namespace Machine

variable {n : Nat}

def advanceFrom (m : Machine n) (ip : Nat) : Machine n :=
  { m with ip := ip + 1 }

/--
The byte that a character read from the input leaves in a cell: the low byte of its code, and zero
for none.
-/
def byteOf : Option Char → UInt8
  | none => 0
  | some c => c.toNat.toUInt8

def charOf (value : UInt8) : Char :=
  .ofUInt8 value

def store (m : Machine n) (c : Option Char) : Machine n :=
  { m with tape := m.tape.write (byteOf c) }.advanceFrom m.ip

def perform (p : Program) (m : Machine n) : Instruction → Transition n
  | .right =>
    match m.tape.moveRight? with
    | none => .fail (.overflow m.ip) m
    | some tape => .advance ({ m with tape }.advanceFrom m.ip)
  | .left =>
    match m.tape.moveLeft? with
    | none => .fail (.underflow m.ip) m
    | some tape => .advance ({ m with tape }.advanceFrom m.ip)
  | .increment => .advance ({ m with tape := m.tape.write (m.tape.current + 1) }.advanceFrom m.ip)
  | .decrement => .advance ({ m with tape := m.tape.write (m.tape.current - 1) }.advanceFrom m.ip)
  | .output =>
    let c := charOf m.tape.current
    .write c ({ m with output := m.output.push c }.advanceFrom m.ip)
  | .input =>
    match m.input.next? with
    | some (c, input) => .advance ({ m with input }.store (some c))
    | none => .ask m.store
  | .loopOpen =>
    let target := if m.tape.current = 0 then (p.jump? m.ip).getD m.ip else m.ip
    .advance (m.advanceFrom target)
  | .loopClose =>
    let target := if m.tape.current = 0 then m.ip else (p.jump? m.ip).getD m.ip
    .advance (m.advanceFrom target)

def step (p : Program) (m : Machine n) : Transition n :=
  match p.instruction? m.ip with
  | none => .halt m
  | some instruction => m.perform p instruction

end Machine

end Brainfuck
