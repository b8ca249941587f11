import Brainfuck.Proofs.TraceLayout
import Brainfuck.Text.Blank
import Mathlib.Data.List.Basic

/-!
This module contains a reader for the text of trace records. The heading gives the numbers, the columns give the
cells, and the place of the marker gives the base of the window, which is written nowhere. This place is a machine
word and every cell takes four characters, so it tells cursors apart only up to multiples of a quarter of the
machine words. The reader finds every record whose cursor is below this bound in its text.
-/

namespace Brainfuck.TraceRecord

def readFixed (fixed : String) (cs : List Char) : Option (List Char) :=
  cs.dropPrefix? fixed.toList

def readNumber (cs : List Char) : Option (Nat × List Char) :=
  let cs := cs.dropWhile (· == ' ')
  let digits := cs.takeWhile Char.isDigit
  if digits.isEmpty then none else some (Nat.ofDigitChars 10 digits 0, cs.dropWhile Char.isDigit)

def readInstruction (cs : List Char) : Option (Instruction × List Char) :=
  match cs with
  | [] => none
  | c :: cs => (Instruction.ofChar? c).map fun i => (i, cs)

def readHeading (cs : List Char) : Option ((Nat × Instruction × Nat) × List Char) := do
  let cs ← readFixed "IP: " cs
  let (ip, cs) ← readNumber cs
  let cs ← readFixed " | Cmd: " cs
  let (instruction, cs) ← readInstruction cs
  let cs ← readFixed " | Ptr: " cs
  let (pointer, cs) ← readNumber cs
  let cs ← readFixed " | Memory: [" cs
  return ((ip, instruction, pointer), cs)

def readColumns : List Char → Option (List UInt8 × List Char)
  | a :: b :: c :: separator :: cs => do
    let (value, _) ← readNumber [a, b, c]
    if separator = ']' then
      return ([value.toUInt8], cs)
    else
      let (cells, cs) ← readColumns cs
      return (value.toUInt8 :: cells, cs)
  | _ => none

def readWindow (cs : List Char) : Option (List UInt8 × List Char) :=
  match cs with
  | ']' :: cs => some ([], cs)
  | cs => readColumns cs

/--
The first cursor whose marker stands where that of the cursor zero does.
-/
def cursorBound : Nat :=
  UInt64.size / 4

def cursorOfIndent (start indent : Nat) : Nat :=
  (indent + (UInt64.size - start % UInt64.size)) % UInt64.size / 4

/--
Read the two lines of a record, with no check of the blanks and of the marker.
-/
def readLines (text : String) : Option TraceRecord := do
  let ((ip, instruction, pointer), cells) ← readHeading text.toList
  let (window, cs) ← readWindow cells
  let marker ← readFixed "\n" cs
  let indent := (marker.takeWhile (· == ' ')).length
  let cursor := cursorOfIndent (text.length - cells.length) indent
  return { ip, instruction, pointer, base := pointer - cursor, window }

def ofText? (text : String) : Option TraceRecord :=
  (readLines text).filter fun r => r.text = text

theorem readFixed_append (fixed : String) (cs : List Char) : readFixed fixed (fixed.toList ++ cs) = some cs := by
  apply List.dropPrefix?_append_of_beq
  simp

theorem readNumber_append (width value : Nat) (rest : List Char)
    (hrest : ∀ c, rest.head? = some c → c.isDigit = false)
    : readNumber ((Text.rightAligned width value).toList ++ rest) = some (value, rest) := by
  have hblanks : ∀ c ∈ List.replicate (width - (Nat.toDigits 10 value).length) ' ', (c == ' ') = true := by
    intro c hc
    rw [List.eq_of_mem_replicate hc]
    rfl
  have hdigits : ∀ c ∈ Nat.toDigits 10 value, c.isDigit = true := fun c hc =>
    Nat.isDigit_of_mem_toDigits (by decide) (by decide) hc
  have hvalue : Nat.ofDigitChars 10 (Nat.toDigits 10 value) 0 = value :=
    Nat.ofDigitChars_toDigits (by decide) (by decide)
  have hfirst : ∀ c, (Nat.toDigits 10 value ++ rest).head? = some c → (c == ' ') = false := by
    obtain ⟨d, digits, hcons⟩ := List.exists_cons_of_ne_nil (Nat.toDigits_ne_nil (n := value) (b := 10))
    rw [hcons] at hdigits ⊢
    rintro _ ⟨⟩
    rw [beq_eq_false_iff_ne]
    rintro rfl
    exact absurd (hdigits ' ' List.mem_cons_self) (by decide)
  obtain ⟨_, hskip⟩ := Text.span_of_head? hblanks hfirst
  obtain ⟨htake, hdrop⟩ := Text.span_of_head? hdigits hrest
  have hne : ¬(Nat.toDigits 10 value).isEmpty = true := by simp [Nat.toDigits_ne_nil]
  unfold readNumber
  dsimp only
  rw [Text.toList_rightAligned, List.append_assoc, hskip, htake, hdrop, hvalue, if_neg hne]

theorem readInstruction_cons (i : Instruction) (cs : List Char)
    : readInstruction (i.symbol :: cs) = some (i, cs) := by
  simp only [readInstruction, i.ofChar?_symbol, Option.map_some]

theorem readHeading_append (r : TraceRecord) (cs : List Char)
    : readHeading (r.heading.toList ++ cs) = some ((r.ip, r.instruction, r.pointer), cs) := by
  have hip := fun rest => readNumber_append 4 r.ip (" | Cmd: ".toList ++ rest) (by simp)
  have hpointer := fun rest => readNumber_append 4 r.pointer (" | Memory: [".toList ++ rest) (by simp)
  unfold readHeading heading
  simp only [String.toList_append, String.toList_singleton, List.append_assoc, List.cons_append, List.nil_append,
    readFixed_append, hip, readInstruction_cons, hpointer, Option.bind_eq_bind, Option.bind_some]
  rfl

theorem readNumber_column (value : UInt8) : readNumber (column value) = some (value.toNat, []) := by
  rw [← List.append_nil (column value)]
  exact readNumber_append 3 value.toNat [] (by simp)

theorem readColumns_column (value : UInt8) (separator : Char) (cs : List Char)
    : readColumns (column value ++ separator :: cs)
        =
      if separator = ']' then
        some ([value], cs)
      else
        (readColumns cs).map fun next => (value :: next.1, next.2) := by
  obtain ⟨hlength, _⟩ := inColumn_column value
  have hread := readNumber_column value
  obtain ⟨a, b, c, hcolumn⟩ := List.length_eq_three.mp hlength
  rw [hcolumn] at hread ⊢
  simp only [List.cons_append, List.nil_append, readColumns, hread, Option.bind_eq_bind, Option.bind_some,
    Option.pure_def, Nat.toUInt8_eq, UInt8.ofNat_toNat, Option.map_eq_bind, Function.comp_def]

theorem readColumns_append (value : UInt8) (cells : List UInt8) (cs : List Char)
    : readColumns ([' '].intercalate ((value :: cells).map column) ++ ']' :: cs) = some (value :: cells, cs) := by
  induction cells generalizing value with
  | nil =>
    rw [List.map_singleton, List.intercalate_singleton, readColumns_column, if_pos rfl]
  | cons next cells ih =>
    rw [List.map_cons, List.map_cons, List.intercalate_cons_cons, ← List.map_cons, List.append_assoc,
      List.append_assoc, List.singleton_append, readColumns_column, if_neg (by decide), ih]
    rfl

theorem closing_not_mem_column (value : UInt8) : ']' ∉ column value :=
  Text.not_mem_rightAligned (by decide) (by decide) 3 value.toNat

theorem readWindow_append (window : List UInt8) (cs : List Char)
    : readWindow ([' '].intercalate (window.map column) ++ ']' :: cs) = some (window, cs) := by
  cases window with
  | nil => rfl
  | cons value cells =>
    rw [← readColumns_append value cells cs, List.map_cons, Text.intercalate_cons, List.append_assoc]
    -- Columns do not start with a bracket.
    obtain ⟨c, digits, hcolumn⟩ := List.exists_cons_of_length_eq_add_one (inColumn_column value).1
    have hc : c ≠ ']' := by
      rintro rfl
      exact closing_not_mem_column value (by rw [hcolumn]; exact List.mem_cons_self)
    rw [hcolumn, List.cons_append]
    unfold readWindow
    split
    . next heq => exact absurd (List.cons.inj heq).1 hc
    . rfl

theorem length_takeWhile_blanks (count : Nat) (cs : List Char)
    : ((List.replicate count ' ' ++ '^' :: cs).takeWhile (· == ' ')).length = count := by
  have hblanks : ∀ c ∈ List.replicate count ' ', (c == ' ') = true := by simp
  have hmarker : ∀ c, ('^' :: cs).head? = some c → (c == ' ') = false := by simp
  rw [(Text.span_of_head? hblanks hmarker).1, List.length_replicate]

theorem cursorOfIndent_add (start cursor : Nat)
    : cursorOfIndent start ((start + 4 * cursor) % UInt64.size) = cursor % cursorBound := by
  unfold cursorOfIndent cursorBound UInt64.size
  omega

theorem readLines_text (r : TraceRecord)
    : readLines r.text = some { r with base := r.pointer - r.cursor % cursorBound } := by
  let marker := List.replicate r.indent ' ' ++ ['^', '^', '^']
  let cells := [' '].intercalate (r.window.map column) ++ ']' :: '\n' :: marker
  have htext : r.text.toList = r.heading.toList ++ cells := by rw [toList_text, List.append_assoc]
  have hheading : r.text.length - cells.length = r.heading.length := by
    rw [← String.length_toList, htext, List.length_append, Nat.add_sub_cancel, String.length_toList]
  have hindent : (marker.takeWhile (· == ' ')).length = r.indent := length_takeWhile_blanks _ _
  have hcursor : cursorOfIndent r.heading.length r.indent = r.cursor % cursorBound := cursorOfIndent_add _ _
  have hbreak : readFixed "\n" ('\n' :: marker) = some marker := readFixed_append "\n" marker
  have hwindow : readWindow cells = some (r.window, '\n' :: marker) := readWindow_append _ _
  unfold readLines
  rw [htext, readHeading_append]
  simp only [Option.bind_eq_bind, Option.bind_some, hwindow, hbreak, hheading, hindent, hcursor]
  rfl

theorem eq_of_cursor_lt {r : TraceRecord} (hbase : r.base ≤ r.pointer) (hcursor : r.cursor < cursorBound)
    : { r with base := r.pointer - r.cursor % cursorBound } = r := by
  have hpointer : r.pointer - r.cursor = r.base := Nat.sub_sub_self hbase
  rw [Nat.mod_eq_of_lt hcursor, hpointer]

theorem cursor_lt_of_eq {r : TraceRecord} (h : { r with base := r.pointer - r.cursor % cursorBound } = r)
    : r.base ≤ r.pointer ∧ r.cursor < cursorBound := by
  have hbound : 0 < cursorBound := by decide
  have hmod := Nat.mod_lt r.cursor hbound
  have hbase : r.pointer - r.cursor % cursorBound = r.base := congrArg base h
  have hcursor : r.cursor = r.pointer - r.base := rfl
  omega

theorem ofText?_eq_some_iff {text : String} {r : TraceRecord}
    : ofText? text = some r ↔ r.base ≤ r.pointer ∧ r.cursor < cursorBound ∧ r.text = text := by
  unfold ofText?
  rw [Option.filter_eq_some_iff, decide_eq_true_eq]
  constructor
  . intro ⟨hread, htext⟩
    subst htext
    rw [readLines_text, Option.some.injEq] at hread
    obtain ⟨hbase, hcursor⟩ := cursor_lt_of_eq hread
    exact ⟨hbase, hcursor, rfl⟩
  . intro ⟨hbase, hcursor, htext⟩
    subst htext
    rw [readLines_text, eq_of_cursor_lt hbase hcursor]
    exact ⟨rfl, rfl⟩

theorem text_eq_text_iff (r s : TraceRecord)
    : r.text = s.text
        ↔
      r.ip = s.ip ∧ r.instruction = s.instruction ∧ r.pointer = s.pointer ∧ r.window = s.window ∧
        r.cursor % cursorBound = s.cursor % cursorBound := by
  constructor
  . intro htext
    have hread := congrArg readLines htext
    rw [readLines_text, readLines_text, Option.some.injEq, TraceRecord.mk.injEq] at hread
    obtain ⟨hip, hinstruction, hpointer, hbase, hwindow⟩ := hread
    refine ⟨hip, hinstruction, hpointer, hwindow, ?_⟩
    -- The cursor is at most the pointer, so nothing is cut off when it is taken away.
    have hr : r.cursor % cursorBound ≤ r.pointer := Nat.le_trans (Nat.mod_le _ _) (Nat.sub_le _ _)
    have hs : s.cursor % cursorBound ≤ s.pointer := Nat.le_trans (Nat.mod_le _ _) (Nat.sub_le _ _)
    omega
  . intro ⟨hip, hinstruction, hpointer, hwindow, hcursor⟩
    have hheading : r.heading = s.heading := by unfold heading; rw [hip, hinstruction, hpointer]
    have hcolumns : r.cellColumns = s.cellColumns := by unfold cellColumns; rw [hwindow]
    have hindent : r.indent = s.indent := by
      unfold indent
      rw [hheading]
      unfold cursorBound UInt64.size at *
      omega
    unfold text
    rw [hheading, hcolumns, hindent]

end Brainfuck.TraceRecord
