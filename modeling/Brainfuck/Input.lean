/-!
The input buffer of a machine: a text together with the position up to which it has been read.
-/

namespace Brainfuck

structure Input where
  text : String
  cursor : text.Pos

namespace Input

def ofString (text : String) : Input where
  text := text
  cursor := text.startPos

instance : Inhabited Input where
  default := ofString ""

def next? (input : Input) : Option (Char × Input) :=
  if h : input.cursor = input.text.endPos then
    none
  else
    some (input.cursor.get h, { input with cursor := input.cursor.next h })

def offset (input : Input) : Nat :=
  input.cursor.offset.byteIdx

def unread (input : Input) : List Char :=
  (input.text.sliceFrom input.cursor).copy.toList

@[simp]
theorem unread_ofString (text : String) : (ofString text).unread = text.toList := by
  rw [unread, String.Pos.Splits.eq_right (ofString text).cursor.splits (String.splits_startPos text)]

theorem unread_eq_nil {input : Input} (h : input.next? = none) : input.unread = [] := by
  rw [next?] at h
  split at h
  next hend =>
    rw [unread, String.Pos.Splits.eq_right input.cursor.splits (hend ▸ String.splits_endPos input.text)]
    rfl
  next => simp at h

theorem unread_eq_cons {input rest : Input} {c : Char} (h : input.next? = some (c, rest)) :
    input.unread = c :: rest.unread := by
  rw [next?] at h
  split at h
  next => simp at h
  next hend =>
    obtain ⟨rfl, rfl⟩ := by simpa using h
    rw [unread,
      String.Pos.Splits.eq_right input.cursor.splits (String.Pos.splits_next_right input.cursor hend), unread]
    simp

end Input

end Brainfuck
