import Brainfuck.Input

/-!
This module contains the lemmas about the cursor of the input buffer: it cuts the text into the
characters that have been read and those that have not, and its offset is the encoded length of the
first.
-/

namespace Brainfuck.Input

def taken (input : Input) : List Char :=
  (input.text.sliceTo input.cursor).copy.toList

theorem taken_append_unread (input : Input) : input.taken ++ input.unread = input.text.toList := by
  unfold taken unread
  rw [← String.toList_append, ← input.cursor.splits.eq_append]

@[simp]
theorem taken_ofString (text : String) : (ofString text).taken = [] := by
  have := (ofString text).taken_append_unread
  rw [unread_ofString] at this
  exact List.append_left_eq_self.1 this

theorem text_of_next? {input rest : Input} {c : Char} (h : input.next? = some (c, rest))
    : rest.text = input.text := by
  unfold next? at h
  split at h
  . contradiction
  . cases h
    rfl

theorem taken_of_next? {input rest : Input} {c : Char} (h : input.next? = some (c, rest))
    : rest.taken = input.taken ++ [c] := by
  have hinput := input.taken_append_unread
  have hrest := rest.taken_append_unread
  rw [unread_eq_cons h] at hinput
  rw [text_of_next? h, ← hinput, List.append_cons] at hrest
  exact List.append_cancel_right hrest

theorem next?_eq_none_iff (input : Input) : input.next? = none ↔ input.unread = [] := by
  constructor
  . apply unread_eq_nil
  . intro h
    cases hnext : input.next? with
    | none => rfl
    | some next =>
      rw [unread_eq_cons hnext] at h
      contradiction

theorem exists_next?_of_unread {input : Input} {c : Char} {cs : List Char} (h : input.unread = c :: cs)
    : ∃ rest, input.next? = some (c, rest) ∧ rest.unread = cs := by
  cases hnext : input.next? with
  | none =>
    rw [unread_eq_nil hnext] at h
    contradiction
  | some next =>
    obtain ⟨d, rest⟩ := next
    rw [unread_eq_cons hnext] at h
    cases h
    exact ⟨rest, rfl, rfl⟩

theorem offset_eq_utf8ByteSize_taken (input : Input)
    : input.offset = (String.ofList input.taken).utf8ByteSize := by
  unfold offset taken
  rw [String.ofList_toList, input.cursor.splits.offset_eq_rawEndPos]
  rfl

theorem offset_le_utf8ByteSize (input : Input) : input.offset ≤ input.text.utf8ByteSize := by
  apply String.Pos.byteIdx_offset_le_utf8ByteSize

theorem eq_of_offset_eq {a b : Input} (htext : a.text = b.text) (hoffset : a.offset = b.offset)
    : a = b := by
  obtain ⟨text, cursor⟩ := a
  obtain ⟨text', cursor'⟩ := b
  dsimp only at htext
  subst htext
  congr 1
  apply String.Pos.ext
  apply String.Pos.Raw.ext
  exact hoffset

theorem taken_prefix (input : Input) : input.taken <+: input.text.toList :=
  ⟨input.unread, input.taken_append_unread⟩

end Brainfuck.Input
