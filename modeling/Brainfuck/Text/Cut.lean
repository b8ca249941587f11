/-!
Texts cut into pieces at a separator.
-/

namespace Brainfuck.Text

def addToPieces (separator c : Char) (pieces : List (List Char)) : List (List Char) :=
  if c = separator then
    [] :: pieces
  else
    match pieces with
    | [] => [[c]]
    | piece :: pieces => (c :: piece) :: pieces

def cut (separator : Char) (cs : List Char) : List (List Char) :=
  cs.foldr (addToPieces separator) [[]]

theorem cut_cons (separator c : Char) (cs : List Char) :
    cut separator (c :: cs) = addToPieces separator c (cut separator cs) :=
  rfl

end Brainfuck.Text
