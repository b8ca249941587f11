/-!
What can go wrong with a program: a bracket without a partner, found before the program runs, and a
pointer that would leave the tape, found while it runs.
-/

namespace Brainfuck

inductive Bracket where
  | opening
  | closing
  deriving DecidableEq, Repr

def Bracket.quoted : Bracket → String
  | opening => "'['"
  | closing => "']'"

/--
The cause that ends a program early, with the position of the offending instruction among the
instructions of the program.
-/
inductive Fault where
  | unmatched (bracket : Bracket) (position : Nat)
  | overflow (position : Nat)
  | underflow (position : Nat)
  deriving DecidableEq, Repr

inductive Fault.Kind where
  | syntactic
  | runtime
  deriving DecidableEq, Repr

namespace Fault

def position : Fault → Nat
  | unmatched _ p => p
  | overflow p => p
  | underflow p => p

def kind : Fault → Kind
  | unmatched .. => .syntactic
  | overflow _ => .runtime
  | underflow _ => .runtime

def message : Fault → String
  | unmatched b p => "Unmatched " ++ b.quoted ++ " at position " ++ p.repr
  | overflow p => "Memory pointer overflow at position " ++ p.repr
  | underflow p => "Memory pointer underflow at position " ++ p.repr

def inspect : Fault → String
  | unmatched .opening p => "UnmatchedBracket \x7b ip: " ++ p.repr ++ ", kind: Open \x7d"
  | unmatched .closing p => "UnmatchedBracket \x7b ip: " ++ p.repr ++ ", kind: Close \x7d"
  | overflow p => "PointerOverflow \x7b ip: " ++ p.repr ++ " \x7d"
  | underflow p => "PointerUnderflow \x7b ip: " ++ p.repr ++ " \x7d"

end Fault

end Brainfuck
