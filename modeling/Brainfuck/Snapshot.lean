import Brainfuck.Machine.Basic
import Brainfuck.JsonValue

/-!
Snapshots: the state of a machine as a JSON document, with every cell of the tape.
-/

namespace Brainfuck

structure Snapshot where
  memorySize : Nat
  ip : Nat
  pointer : Nat
  input : String
  output : String
  /-- The debug switch as a word, since dumps keep it as a text. -/
  debugMode : String
  cells : List (Nat × UInt8)
  deriving DecidableEq, Repr

namespace Snapshot

def defaultFile : String := "sbfi-dump.json"

def capture {n : Nat} (m : Machine n) : Snapshot where
  memorySize := n
  ip := m.ip
  pointer := m.tape.pointer.val
  input := m.input.text
  output := m.output
  debugMode := if m.debug then "true" else "false"
  cells := m.tape.cells.toList.zipIdx.map fun (value, address) => (address, value)

def cellJson (cell : Nat × UInt8) : JsonValue :=
  .object [("address", .number cell.1), ("value", .number cell.2.toNat)]

def toJson (s : Snapshot) : JsonValue :=
  .object [
    ("memory-size", .number s.memorySize),
    ("instruction-ptr", .number s.ip),
    ("memory-cursor", .number s.pointer),
    ("last-input-buffer", .text s.input),
    ("last-output-buffer", .text s.output),
    ("debug-mode?", .text s.debugMode),
    ("memory-dump", .list (s.cells.map cellJson))]

def text (s : Snapshot) : String :=
  s.toJson.render

end Snapshot

end Brainfuck
