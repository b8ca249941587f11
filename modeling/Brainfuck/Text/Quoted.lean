/-!
Texts between double quotes in which every character that could not be seen is written as an
escape. Which characters have no shape of their own is a matter of the character set and given from outside.
-/

namespace Brainfuck.Text

def hexadecimal (n : Nat) : String :=
  .ofList (Nat.toDigits 16 n)

def escape (isUnseen : Char → Bool) (c : Char) : String :=
  match c with
  | '\x00' => "\\0"
  | '\t' => "\\t"
  | '\r' => "\\r"
  | '\n' => "\\n"
  | '"' => "\\\""
  | '\\' => "\\\\"
  | c =>
    if isUnseen c then "\\u\x7b" ++ hexadecimal c.toNat ++ "\x7d" else .singleton c

def quoted (isUnseen : Char → Bool) (text : String) : String :=
  text.foldl (fun written c => written ++ escape isUnseen c) "\"" ++ "\""

end Brainfuck.Text
