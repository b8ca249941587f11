/-!
Decimal numbers in texts: writing them into columns and reading them back with a bound.
-/

namespace Brainfuck.Text

def blanks (count : Nat) : String :=
  .ofList (.replicate count ' ')

def rightAligned (width n : Nat) : String :=
  blanks (width - n.repr.length) ++ n.repr

def maxWord : Nat :=
  UInt64.size - 1

/--
The value of a list of decimal digits, read after the digits of `value`. Fails at a character that is
no digit and as soon as the value leaves the range of a machine word.
-/
def readDigits (value : Nat) : List Char → Option Nat
  | [] => some value
  | c :: cs =>
    if c.isDigit then
      let next := 10 * value + (c.toNat - '0'.toNat)
      if next ≤ maxWord then readDigits next cs else none
    else
      none

def readWord (text : String) : Option Nat :=
  match text.toList with
  | [] => none
  | ['+'] => none
  | '+' :: digits => readDigits 0 digits
  | digits => readDigits 0 digits

end Brainfuck.Text
