/-!
The eight instructions of the language and the texts that spell them. Every other character of a
source text is a comment.
-/

namespace Brainfuck

inductive Instruction where
  | right
  | left
  | increment
  | decrement
  | output
  | input
  | loopOpen
  | loopClose
  deriving DecidableEq, Repr, Inhabited

namespace Instruction

def symbol : Instruction → Char
  | right => '>'
  | left => '<'
  | increment => '+'
  | decrement => '-'
  | output => '.'
  | input => ','
  | loopOpen => '['
  | loopClose => ']'

def ofChar? : Char → Option Instruction
  | '>' => some right
  | '<' => some left
  | '+' => some increment
  | '-' => some decrement
  | '.' => some output
  | ',' => some input
  | '[' => some loopOpen
  | ']' => some loopClose
  | _ => none

@[simp]
theorem ofChar?_symbol (i : Instruction) : ofChar? i.symbol = some i := by
  cases i <;> rfl

end Instruction

def instructions (source : String) : List Instruction :=
  source.toList.filterMap Instruction.ofChar?

/--
The source text with its comments removed. Positions in faults count the characters of this text.
-/
def stripComments (source : String) : String :=
  .ofList (source.toList.filter fun c => (Instruction.ofChar? c).isSome)

theorem stripComments_eq_empty_iff (source : String)
    : stripComments source = "" ↔ instructions source = [] := by
  unfold stripComments instructions
  rw [String.ofList_eq_empty_iff, List.filter_eq_nil_iff, List.filterMap_eq_nil_iff]
  simp

end Brainfuck
