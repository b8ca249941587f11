import Brainfuck.Machine.Basic
import Brainfuck.Snapshot
import Brainfuck.Text.Blank
import Brainfuck.Text.Decimal

/-!
Settings and where they come from. A `Layer` holds the settings that one source gives, with what is
missing or invalid left out, and layers are applied one after the other: the last one that gives a
setting decides it.
-/

namespace Brainfuck

structure Config where
  tapeLength : Nat := Machine.defaultLength
  debug : Bool := false
  dumpFile : String := Snapshot.defaultFile
  deriving DecidableEq, Repr

structure Config.Layer where
  tapeLength? : Option Nat := none
  debug? : Option Bool := none
  dumpFile? : Option String := none
  deriving DecidableEq, Repr

namespace Config

def apply (config : Config) (layer : Layer) : Config where
  tapeLength := layer.tapeLength?.getD config.tapeLength
  debug := layer.debug?.getD config.debug
  dumpFile := layer.dumpFile?.getD config.dumpFile

/--
Read the length of a tape: a positive machine word, around which blanks and in which underscores are
ignored.
-/
def readTapeLength (text : String) : Option Nat :=
  (Text.readWord (.ofList ((Text.trimList text.toList).filter (· != '_')))).filter (0 < ·)

def readSwitch (text : String) : Option Bool :=
  match Text.lowercase (Text.trim text) with
  | "1" | "true" | "yes" | "on" => some true
  | "0" | "false" | "no" | "off" => some false
  | _ => none

def readFileName (text : String) : Option String :=
  if text.isEmpty then none else some text

def lengthVariable : String := "SBFI_TAPE_LENGTH"

def debugVariable : String := "SBFI_DEBUG"

def Layer.ofEnvironment (setting? : String → Option String) : Layer where
  tapeLength? := (setting? lengthVariable).bind readTapeLength
  debug? := (setting? debugVariable).bind readSwitch

end Config

end Brainfuck
