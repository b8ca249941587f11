import Brainfuck.Tape
import Brainfuck.Input
import Brainfuck.Text.Quoted

/-!
The machine: a tape, a place in the program, the text written so far, the input buffer and the
debug switch.
-/

namespace Brainfuck

structure Machine (n : Nat) where
  tape : Tape n
  ip : Nat
  output : String
  input : Input
  /-- In debug mode every instruction is traced and output is held back. -/
  debug : Bool

namespace Machine

variable {n : Nat}

def defaultLength : Nat := 30000

def create (length : Nat) : Machine (max length 1) where
  tape := .blank (Nat.lt_of_lt_of_le Nat.zero_lt_one (Nat.le_max_right ..))
  ip := 0
  output := ""
  input := .ofString ""
  debug := false

def maxLength : Nat :=
  UInt64.size / 2 - 1

/--
Make a new machine. There is none with a tape for which memory cannot even be asked.
-/
def make? (length : Nat) : Option (Machine (max length 1)) :=
  if max length 1 ≤ maxLength then some (create length) else none

def setInput (m : Machine n) (text : String) : Machine n :=
  { m with input := .ofString text }

def setDebug (m : Machine n) (on : Bool) : Machine n :=
  { m with debug := on }

def reset (m : Machine n) : Machine n where
  tape := m.tape.clear
  ip := 0
  output := ""
  input := .ofString ""
  debug := m.debug

def inspect (isUnseen : Char → Bool) (m : Machine n) : String :=
  "Machine \x7b tape_length: " ++ n.repr ++ ", pointer: " ++ m.tape.pointer.val.repr ++
    ", ip: " ++ m.ip.repr ++ ", output: " ++ Text.quoted isUnseen m.output ++
    ", input: " ++ Text.quoted isUnseen m.input.text ++ ", input_pos: " ++ m.input.offset.repr ++
    ", debug: " ++ (if m.debug then "true" else "false") ++ ", .. \x7d"

theorem make?_eq_some_iff {length : Nat} {m : Machine (max length 1)}
    : make? length = some m ↔ length ≤ maxLength ∧ m = create length := by
  have hpos : 1 ≤ maxLength := by decide
  unfold make?
  split
  . rw [Option.some.injEq, eq_comm]
    simp only [iff_and_self]
    omega
  . simp only [reduceCtorEq, false_iff, not_and]
    omega

theorem make?_eq_none_iff {length : Nat} : make? length = none ↔ maxLength < length := by
  simp only [Option.eq_none_iff_forall_ne_some, ne_eq, make?_eq_some_iff]
  constructor
  . intro h
    have hlength := h (create length)
    simp only [and_true] at hlength
    omega
  . intro h m hm
    omega

end Machine

end Brainfuck
