import Mathlib.Tactic.Common

/-!
This module contains a reader for JSON texts, for the whole of its grammar: every kind of value, blanks between
all tokens, numbers with fractions and exponents, and strings with all escapes. Each part of the reader returns
what is left of the text together with the proof that it is shorter, which is why reading ends.
-/

namespace Brainfuck

/--
A value of a JSON text. A number is given by its decimal digits without the point and by a power of ten, and the
members of an object are listed as they come.
-/
inductive Json where
  | null
  | bool (value : Bool)
  | number (mantissa exponent : Int)
  | text (value : String)
  | list (items : List Json)
  | object (members : List (String × Json))

namespace Json

abbrev Rest (s : List Char) := { rest : List Char // rest.length < s.length }

abbrev Tail (s : List Char) := { tail : List Char // tail.length ≤ s.length }

def isBlank (c : Char) : Bool :=
  c = ' ' || c = '\n' || c = '\r' || c = '\t'

def skipBlanks (s : List Char) : Tail s :=
  ⟨s.dropWhile isBlank, (List.dropWhile_sublist _).length_le⟩

section Numbers

def readDigits (s : List Char) : Option (List Char × Rest s) :=
  match s with
  | [] => none
  | c :: s =>
    if c.isDigit then
      some (c :: s.takeWhile Char.isDigit,
        ⟨s.dropWhile Char.isDigit, Nat.lt_succ_of_le (List.dropWhile_sublist _).length_le⟩)
    else
      none

def readFraction (s : List Char) : Option (List Char × Tail s) :=
  match s with
  | '.' :: s => do
    let (digits, ⟨rest, h⟩) ← readDigits s
    return (digits, ⟨rest, Nat.le_of_lt (Nat.lt_succ_of_lt h)⟩)
  | s => some ([], ⟨s, Nat.le_refl _⟩)

def readPower (s : List Char) : Option (Int × Rest s) :=
  match s with
  | '-' :: s => do
    let (digits, ⟨rest, h⟩) ← readDigits s
    return (-Nat.ofDigitChars 10 digits 0, ⟨rest, Nat.lt_succ_of_lt h⟩)
  | '+' :: s => do
    let (digits, ⟨rest, h⟩) ← readDigits s
    return (Nat.ofDigitChars 10 digits 0, ⟨rest, Nat.lt_succ_of_lt h⟩)
  | s => do
    let (digits, rest) ← readDigits s
    return (Nat.ofDigitChars 10 digits 0, rest)

def readExponent (s : List Char) : Option (Int × Tail s) :=
  match s with
  | 'e' :: s | 'E' :: s => do
    let (power, ⟨rest, h⟩) ← readPower s
    return (power, ⟨rest, Nat.le_of_lt (Nat.lt_succ_of_lt h)⟩)
  | s => some (0, ⟨s, Nat.le_refl _⟩)

def readUnsigned (s : List Char) : Option ((Nat × Int) × Rest s) := do
  let (whole, ⟨rest, h⟩) ← readDigits s
  guard (whole = ['0'] ∨ whole.head? ≠ some '0')
  let (fraction, ⟨rest, h⟩) ← readFraction rest
  let (exponent, ⟨rest, h⟩) ← readExponent rest
  return ((Nat.ofDigitChars 10 (whole ++ fraction) 0, exponent - fraction.length), ⟨rest, by omega⟩)

def readNumber (s : List Char) : Option (Json × Rest s) :=
  match s with
  | '-' :: s => do
    let ((mantissa, exponent), ⟨rest, h⟩) ← readUnsigned s
    return (.number (-mantissa) exponent, ⟨rest, Nat.lt_succ_of_lt h⟩)
  | s => do
    let ((mantissa, exponent), rest) ← readUnsigned s
    return (.number mantissa exponent, rest)

end Numbers

section Strings

def hexDigit? (c : Char) : Option Nat :=
  if '0' ≤ c ∧ c ≤ '9' then some (c.toNat - '0'.toNat)
  else if 'a' ≤ c ∧ c ≤ 'f' then some (10 + (c.toNat - 'a'.toNat))
  else if 'A' ≤ c ∧ c ≤ 'F' then some (10 + (c.toNat - 'A'.toNat))
  else none

def readUnit (s : List Char) : Option (Nat × Rest s) :=
  match s with
  | a :: b :: c :: d :: rest => do
    let unit := 0x1000 * (← hexDigit? a) + 0x100 * (← hexDigit? b) + 0x10 * (← hexDigit? c) + (← hexDigit? d)
    return (unit, ⟨rest, by simp only [List.length_cons]; omega⟩)
  | _ => none

def isHighSurrogate (unit : Nat) : Bool :=
  0xd800 ≤ unit && unit < 0xdc00

def isLowSurrogate (unit : Nat) : Bool :=
  0xdc00 ≤ unit && unit < 0xe000

def readLowSurrogate (s : List Char) : Option (Nat × Rest s) :=
  match s with
  | '\\' :: 'u' :: s => do
    let (unit, ⟨rest, h⟩) ← readUnit s
    guard (isLowSurrogate unit)
    return (unit, ⟨rest, by simp only [List.length_cons]; omega⟩)
  | _ => none

/--
Read a character that is given by its code units. A surrogate without its other half is refused.
-/
def readUnits (s : List Char) : Option (Char × Rest s) := do
  let (unit, ⟨rest, h⟩) ← readUnit s
  if isHighSurrogate unit then
    let (low, ⟨rest, h⟩) ← readLowSurrogate rest
    return (Char.ofNat (0x10000 + 0x400 * (unit - 0xd800) + (low - 0xdc00)), ⟨rest, by omega⟩)
  else
    guard (!isLowSurrogate unit)
    return (Char.ofNat unit, ⟨rest, h⟩)

def shortEscape? (c : Char) : Option Char :=
  match c with
  | '"' => some '"'
  | '\\' => some '\\'
  | '/' => some '/'
  | 'b' => some '\x08'
  | 'f' => some '\x0c'
  | 'n' => some '\n'
  | 'r' => some '\r'
  | 't' => some '\t'
  | _ => none

def readEscape (s : List Char) : Option (Char × Rest s) :=
  match s with
  | [] => none
  | c :: s =>
    if c = 'u' then do
      let (c, ⟨rest, h⟩) ← readUnits s
      return (c, ⟨rest, Nat.lt_succ_of_lt h⟩)
    else do
      return (← shortEscape? c, ⟨s, Nat.lt_succ_self _⟩)

/--
Read the characters of a string up to its closing quote. Controls are refused unless they are escaped.
-/
def readString (s : List Char) : Option (List Char × Rest s) :=
  match s with
  | [] => none
  | c :: s =>
    if c = '"' then
      some ([], ⟨s, Nat.lt_succ_self _⟩)
    else if c = '\\' then do
      let (c, ⟨rest, h⟩) ← readEscape s
      let (cs, ⟨rest, h⟩) ← readString rest
      return (c :: cs, ⟨rest, by simp only [List.length_cons]; omega⟩)
    else if c.toNat < 0x20 then
      none
    else do
      let (cs, ⟨rest, h⟩) ← readString s
      return (c :: cs, ⟨rest, Nat.lt_succ_of_lt h⟩)
termination_by s.length

end Strings

section Values

def readToken (token : Char) (s : List Char) : Option (Rest s) :=
  match skipBlanks s with
  | ⟨[], _⟩ => none
  | ⟨c :: rest, h⟩ => if c = token then some ⟨rest, h⟩ else none

def readWord (word : List Char) (value : Json) (s : List Char) : Option (Json × Tail s) :=
  if word.isPrefixOf s then some (value, ⟨s.drop word.length, (List.drop_sublist _ s).length_le⟩) else none

mutual

def readValue (s : List Char) : Option (Json × Rest s) :=
  match skipBlanks s with
  | ⟨[], _⟩ => none
  | ⟨c :: tail, htail⟩ =>
    match c with
    | '"' => do
      let (value, ⟨rest, h⟩) ← readString tail
      return (.text (.ofList value), ⟨rest, Nat.lt_trans h htail⟩)
    | '[' =>
      match readToken ']' tail with
      | some ⟨rest, h⟩ => some (.list [], ⟨rest, Nat.lt_trans h htail⟩)
      | none => do
        let (item, ⟨rest, h⟩) ← readValue tail
        let (items, ⟨rest, h⟩) ← readItems rest
        return (.list (item :: items), ⟨rest, by simp only [List.length_cons] at htail; omega⟩)
    | '\x7b' =>
      match readToken '\x7d' tail with
      | some ⟨rest, h⟩ => some (.object [], ⟨rest, Nat.lt_trans h htail⟩)
      | none => do
        let (member, ⟨rest, h⟩) ← readMember tail
        let (members, ⟨rest, h⟩) ← readMembers rest
        return (.object (member :: members), ⟨rest, by simp only [List.length_cons] at htail; omega⟩)
    | 't' => do
      let (value, ⟨rest, h⟩) ← readWord ['r', 'u', 'e'] (.bool true) tail
      return (value, ⟨rest, Nat.lt_of_le_of_lt h htail⟩)
    | 'f' => do
      let (value, ⟨rest, h⟩) ← readWord ['a', 'l', 's', 'e'] (.bool false) tail
      return (value, ⟨rest, Nat.lt_of_le_of_lt h htail⟩)
    | 'n' => do
      let (value, ⟨rest, h⟩) ← readWord ['u', 'l', 'l'] .null tail
      return (value, ⟨rest, Nat.lt_of_le_of_lt h htail⟩)
    | c => do
      let (value, ⟨rest, h⟩) ← readNumber (c :: tail)
      return (value, ⟨rest, Nat.lt_of_lt_of_le h htail⟩)
termination_by s.length
decreasing_by all_goals simp only [List.length_cons] at *; omega

def readItems (s : List Char) : Option (List Json × Rest s) :=
  match readToken ']' s with
  | some rest => some ([], rest)
  | none => do
    let ⟨tail, htail⟩ ← readToken ',' s
    let (item, ⟨rest, h⟩) ← readValue tail
    let (items, ⟨rest, h⟩) ← readItems rest
    return (item :: items, ⟨rest, by omega⟩)
termination_by s.length

def readMember (s : List Char) : Option ((String × Json) × Rest s) := do
  let ⟨tail, htail⟩ ← readToken '"' s
  let (name, ⟨rest, h⟩) ← readString tail
  let ⟨tail, htail⟩ ← readToken ':' rest
  let (value, ⟨rest, h⟩) ← readValue tail
  return ((.ofList name, value), ⟨rest, by omega⟩)
termination_by s.length

def readMembers (s : List Char) : Option (List (String × Json) × Rest s) :=
  match readToken '\x7d' s with
  | some rest => some ([], rest)
  | none => do
    let ⟨tail, htail⟩ ← readToken ',' s
    let (member, ⟨rest, h⟩) ← readMember tail
    let (members, ⟨rest, h⟩) ← readMembers rest
    return (member :: members, ⟨rest, by omega⟩)
termination_by s.length

end

end Values

def decode (text : String) : Option Json := do
  let (value, ⟨rest, _⟩) ← readValue text.toList
  guard ((skipBlanks rest).val = [])
  return value

example : decode " [-2.50e3, \"\\ud83d\\ude00\"]" = some (.list [.number (-250) 1, .text "😀"]) := by cbv

example : decode "[1,]" = none := by cbv

end Json

end Brainfuck
