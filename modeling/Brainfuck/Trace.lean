import Brainfuck.Instruction
import Brainfuck.Tape
import Brainfuck.Text.Decimal

/-!
The trace of a run in debug mode: one record for every instruction, with the cells around the
pointer as they were before the instruction took effect.
-/

namespace Brainfuck

structure TraceRecord where
  ip : Nat
  instruction : Instruction
  pointer : Nat
  base : Nat
  window : List UInt8
  deriving DecidableEq, Repr

namespace TraceRecord

def radius : Nat := 5

def capture {n : Nat} (ip : Nat) (instruction : Instruction) (tape : Tape n) : TraceRecord :=
  let pointer := tape.pointer.val
  let base := pointer - radius
  let stop := min (pointer + radius + 1) n
  { ip, instruction, pointer, base, window := (tape.cells.toArray.extract base stop).toList }

theorem window_capture {n : Nat} (ip : Nat) (i : Instruction) (tape : Tape n)
    : (capture ip i tape).window
        =
      (tape.cells.toList.take (tape.pointer.val + radius + 1)).drop (tape.pointer.val - radius) := by
  dsimp only [capture]
  rw [Array.toList_extract, List.extract_eq_take_drop, List.drop_take, ← Vector.toList_toArray, List.take_eq_take_iff,
    List.length_drop, Array.length_toList, Vector.size_toArray]
  omega

def cursor (r : TraceRecord) : Nat :=
  r.pointer - r.base

def heading (r : TraceRecord) : String :=
  "IP: " ++ Text.rightAligned 4 r.ip ++ " | Cmd: " ++ .singleton r.instruction.symbol ++
    " | Ptr: " ++ Text.rightAligned 4 r.pointer ++ " | Memory: ["

def cellColumns (r : TraceRecord) : String :=
  " ".intercalate (r.window.map fun value => Text.rightAligned 3 value.toNat)

/--
The number of blanks before the marker. It is a machine word and wraps around.
-/
def indent (r : TraceRecord) : Nat :=
  (r.heading.length + 4 * r.cursor) % UInt64.size

def text (r : TraceRecord) : String :=
  r.heading ++ r.cellColumns ++ "]\n" ++ Text.blanks r.indent ++ "^^^"

end TraceRecord

end Brainfuck
