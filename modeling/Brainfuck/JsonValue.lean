import Brainfuck.Text.Decimal
import Brainfuck.Text.Quoted

/-!
JSON values and their text: members and items stand on lines of their own, indented by four blanks for
every level, and a member's name is followed by a colon and a blank.
-/

namespace Brainfuck

inductive JsonValue where
  | number (value : Nat)
  | text (value : String)
  | list (items : List JsonValue)
  | object (members : List (String × JsonValue))

namespace JsonValue

/--
The way a character is written in a JSON string. Only quotes, backslashes and controls are escaped, and
controls without a short form are written with four hexadecimal digits.
-/
def escape (c : Char) : String :=
  match c with
  | '"' => "\\\""
  | '\\' => "\\\\"
  | '\n' => "\\n"
  | '\r' => "\\r"
  | '\t' => "\\t"
  | '\x08' => "\\b"
  | '\x0c' => "\\f"
  | c =>
    if c.toNat < 0x20 then
      "\\u00" ++ (if c.toNat < 0x10 then "0" else "") ++ Text.hexadecimal c.toNat
    else
      .singleton c

def quoted (text : String) : String :=
  text.foldl (fun written c => written ++ escape c) "\"" ++ "\""

def lineStart (depth : Nat) : String :=
  "\n" ++ Text.blanks (4 * depth)

mutual

def write (depth : Nat) (written : String) : JsonValue → String
  | .number value => written ++ value.repr
  | .text value => written ++ quoted value
  | .list [] => written ++ "[]"
  | .list (item :: items) =>
    writeItems (depth + 1) (write (depth + 1) (written ++ "[" ++ lineStart (depth + 1)) item) items ++
      lineStart depth ++ "]"
  | .object [] => written ++ "\x7b\x7d"
  | .object ((name, value) :: members) =>
    writeMembers (depth + 1)
        (write (depth + 1) (written ++ "\x7b" ++ lineStart (depth + 1) ++ quoted name ++ ": ") value)
        members ++
      lineStart depth ++ "\x7d"

def writeItems (depth : Nat) (written : String) : List JsonValue → String
  | [] => written
  | item :: items => writeItems depth (write depth (written ++ "," ++ lineStart depth) item) items

def writeMembers (depth : Nat) (written : String) : List (String × JsonValue) → String
  | [] => written
  | (name, value) :: members =>
    writeMembers depth (write depth (written ++ "," ++ lineStart depth ++ quoted name ++ ": ") value) members

end

def render (value : JsonValue) : String :=
  write 0 "" value

end JsonValue

end Brainfuck
