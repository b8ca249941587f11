import Brainfuck.Trace
import Brainfuck.Proofs.Safety

/-!
This module contains the layout of a trace record. Its window is the piece of the tape around the pointer, every
cell of it has a column of three characters, and the marker of the second line stands below the column of the
current cell, however many digits the machine words before the cells have.
-/

namespace Brainfuck

namespace Text

def InColumn (width value : Nat) (field : List Char) : Prop :=
  field.length = width ∧ ∃ count, field = .replicate count ' ' ++ Nat.toDigits 10 value

theorem toList_blanks (count : Nat) : (blanks count).toList = .replicate count ' ' := by
  rw [blanks, String.toList_ofList]

theorem toList_rightAligned (width value : Nat)
    : (rightAligned width value).toList
        =
      .replicate (width - (Nat.toDigits 10 value).length) ' ' ++ Nat.toDigits 10 value := by
  rw [rightAligned, String.toList_append, toList_blanks, ← String.length_toList, Nat.toList_repr]

theorem inColumn_rightAligned {width value : Nat} (hvalue : (Nat.toDigits 10 value).length ≤ width)
    : InColumn width value (rightAligned width value).toList := by
  rw [toList_rightAligned]
  refine ⟨?_, _, rfl⟩
  rw [List.length_append, List.length_replicate]
  omega

theorem length_rightAligned_le (width : Nat) {value : Nat} (hwidth : width ≤ 20) (hvalue : value < UInt64.size)
    : (rightAligned width value).toList.length ≤ 20 := by
  have hdigits : (Nat.toDigits 10 value).length ≤ 20 := by
    rw [Nat.length_toDigits_le_iff (by decide) (by decide)]
    exact Nat.lt_trans hvalue (by decide)
  rw [toList_rightAligned, List.length_append, List.length_replicate]
  omega

theorem not_mem_rightAligned {c : Char} (hblank : c ≠ ' ') (hdigit : c.isDigit = false) (width value : Nat)
    : c ∉ (rightAligned width value).toList := by
  rw [toList_rightAligned, List.mem_append]
  rintro (hc | hc)
  . exact hblank (List.eq_of_mem_replicate hc)
  . rw [Nat.isDigit_of_mem_toDigits (by decide) (by decide) hc] at hdigit
    contradiction

theorem intercalate_cons (field : List Char) (right : List (List Char))
    : [' '].intercalate (field :: right) = field ++ right.flatMap ([' '] ++ ·) := by
  induction right generalizing field with
  | nil => simp
  | cons column right ih => rw [List.intercalate_cons_cons, ih, List.flatMap_cons, List.append_assoc, List.append_assoc]

/--
A list of columns, seen from one of them: every column on its left has a separator behind it, and every column on
its right has one before it.
-/
theorem intercalate_append_cons (left right : List (List Char)) (field : List Char)
    : [' '].intercalate (left ++ field :: right)
        =
      left.flatMap (· ++ [' ']) ++ field ++ right.flatMap ([' '] ++ ·) := by
  induction left with
  | nil => exact intercalate_cons field right
  | cons column left ih =>
    obtain ⟨next, rest, hrest⟩ : ∃ next rest, left ++ field :: right = next :: rest := by
      cases left with
      | nil => exact ⟨_, _, rfl⟩
      | cons next left => exact ⟨_, _, rfl⟩
    rw [hrest] at ih
    rw [List.cons_append, hrest, List.intercalate_cons_cons, ih, List.flatMap_cons]
    simp only [List.append_assoc]

end Text

namespace TraceRecord

def column (value : UInt8) : List Char :=
  (Text.rightAligned 3 value.toNat).toList

theorem inColumn_column (value : UInt8) : Text.InColumn 3 value.toNat (column value) := by
  apply Text.inColumn_rightAligned
  rw [Nat.length_toDigits_le_iff (by decide) (by decide)]
  exact Nat.lt_trans value.toNat_lt (by decide)

/--
`Marks text value`: the text is two lines. In the first there are columns of three characters between brackets,
with a separator between any two of them, and one of the columns holds the value. The second is a marker just
below this column.
-/
def Marks (text : String) (value : Nat) : Prop :=
  ∃ (heading field : List Char) (left right : List (List Char)),
    let before := heading ++ "Memory: [".toList ++ left.flatMap (· ++ [' '])
    let after := right.flatMap ([' '] ++ ·) ++ [']']
    text.toList = before ++ field ++ after ++ '\n' :: (.replicate before.length ' ' ++ ['^', '^', '^']) ∧
      '\n' ∉ before ++ field ++ after ∧ Text.InColumn 3 value field ∧
      ∀ other ∈ left ++ right, other.length = 3

theorem toList_text (r : TraceRecord)
    : r.text.toList
        =
      r.heading.toList ++ [' '].intercalate (r.window.map column) ++
        ']' :: '\n' :: (.replicate r.indent ' ' ++ ['^', '^', '^']) := by
  have hcolumns : r.cellColumns.toList = [' '].intercalate (r.window.map column) := by
    rw [cellColumns, String.toList_intercalate, List.map_map]
    rfl
  simp [text, hcolumns, Text.toList_blanks]

theorem length_heading_le {r : TraceRecord} (hip : r.ip < UInt64.size) (hpointer : r.pointer < UInt64.size)
    : r.heading.length ≤ 73 := by
  have hip := Text.length_rightAligned_le 4 (by decide) hip
  have hpointer := Text.length_rightAligned_le 4 (by decide) hpointer
  rw [String.length_toList] at hip hpointer
  simp only [heading, String.length_append, String.length_singleton]
  change 4 + _ + 8 + 1 + 8 + _ + 12 ≤ 73
  omega

theorem exists_heading (r : TraceRecord)
    : ∃ start, r.heading.toList = start ++ "Memory: [".toList ∧ '\n' ∉ start := by
  refine ⟨"IP: ".toList ++ (Text.rightAligned 4 r.ip).toList ++ " | Cmd: ".toList ++ [r.instruction.symbol] ++
    " | Ptr: ".toList ++ (Text.rightAligned 4 r.pointer).toList ++ " | ".toList, ?_, ?_⟩
  . simp [heading]
  . have hnumber := Text.not_mem_rightAligned (c := '\n') (by decide) (by decide)
    have hsymbol : r.instruction.symbol ≠ '\n' := by cases r.instruction <;> decide
    simp [hnumber, hsymbol.symm]

theorem newline_not_mem_column (value : UInt8) : '\n' ∉ column value :=
  Text.not_mem_rightAligned (by decide) (by decide) 3 value.toNat

theorem length_flatMap_columns (cells : List UInt8)
    : ((cells.map column).flatMap (· ++ [' '])).length = 4 * cells.length := by
  induction cells with
  | nil => rfl
  | cons value cells ih =>
    rw [List.map_cons, List.flatMap_cons, List.length_append, List.length_append, ih, (inColumn_column value).1,
      List.length_singleton, List.length_cons]
    omega

theorem marks_text {r : TraceRecord} {left right : List UInt8} {value : UInt8}
    (hwindow : r.window = left ++ value :: right) (hcursor : r.cursor = left.length)
    (hroom : r.heading.length + 4 * r.cursor < UInt64.size) : Marks r.text value.toNat := by
  obtain ⟨start, hstart, hline⟩ := r.exists_heading
  have hindent : r.indent = r.heading.toList.length + 4 * r.cursor := by
    rw [indent, Nat.mod_eq_of_lt hroom, String.length_toList]
  refine ⟨start, column value, left.map column, right.map column, ?_, ?_, inColumn_column value, ?_⟩
  . have hcolumn := length_flatMap_columns left
    rw [toList_text, hwindow, List.map_append, List.map_cons, Text.intercalate_append_cons, hindent, hcursor, hstart,
      ← hcolumn, ← List.length_append]
    simp only [List.append_assoc, List.singleton_append]
  . simp [hline, newline_not_mem_column]
  . intro other hother
    rw [← List.map_append, List.mem_map] at hother
    obtain ⟨cell, _, rfl⟩ := hother
    exact (inColumn_column cell).1

variable {n : Nat}

theorem getElem?_window_capture (ip : Nat) (i : Instruction) (tape : Tape n) {k : Nat}
    (hk : k < (capture ip i tape).window.length)
    : ∃ h : (capture ip i tape).base + k < n,
        (capture ip i tape).window[k]? = some tape.cells[(capture ip i tape).base + k] := by
  have hbounds := (capture_bounds ip i tape).2.2
  refine ⟨by omega, ?_⟩
  rw [List.getElem?_eq_getElem hk]
  simp [capture]

theorem base_add_cursor_capture (ip : Nat) (i : Instruction) (tape : Tape n)
    : (capture ip i tape).base + (capture ip i tape).cursor = tape.pointer.val := by
  have hbase := (capture_bounds ip i tape).1
  exact Nat.add_sub_of_le hbase

theorem cursor_lt_length_capture (ip : Nat) (i : Instruction) (tape : Tape n)
    : (capture ip i tape).cursor < (capture ip i tape).window.length := by
  obtain ⟨hbase, hlt, _⟩ := capture_bounds ip i tape
  unfold cursor
  omega

theorem getElem?_cursor_capture (ip : Nat) (i : Instruction) (tape : Tape n)
    : (capture ip i tape).window[(capture ip i tape).cursor]? = some tape.current := by
  obtain ⟨_, hcell⟩ := getElem?_window_capture ip i tape (cursor_lt_length_capture ip i tape)
  rw [hcell]
  simp only [base_add_cursor_capture]
  rfl

/--
A trace record shows the cells around the pointer, up to five on either side as far as the tape reaches, and
marks the current one. The position and the addresses are machine words.
-/
theorem trace_marks_current_cell (ip : Nat) (i : Instruction) (tape : Tape n)
    : let r := capture ip i tape
      (r.ip = ip ∧ r.instruction = i ∧ r.pointer = tape.pointer.val ∧ r.base + r.cursor = r.pointer) ∧
      r.window.length = min tape.pointer.val 5 + 1 + min 5 (n - 1 - tape.pointer.val) ∧
      (∀ k < r.window.length, ∃ h : r.base + k < n, r.window[k]? = some tape.cells[r.base + k]) ∧
      r.cursor = min tape.pointer.val 5 ∧
      (ip < UInt64.size → n ≤ UInt64.size → Marks r.text tape.current.toNat) := by
  intro r
  have hpointer := tape.pointer.isLt
  have hbase : r.base + r.cursor = tape.pointer.val := base_add_cursor_capture ip i tape
  have hlength : r.window.length = min tape.pointer.val 5 + 1 + min 5 (n - 1 - tape.pointer.val) := by
    rw [show r.window.length = _ from length_window_capture ip i tape]
    unfold radius
    omega
  have hcursor : r.cursor = min tape.pointer.val 5 := by
    change tape.pointer.val - (tape.pointer.val - radius) = _
    unfold radius
    omega
  refine ⟨⟨rfl, rfl, rfl, hbase⟩, hlength, fun k => getElem?_window_capture ip i tape, hcursor, ?_⟩
  intro hip hn
  have hheading : r.heading.length ≤ 73 := length_heading_le hip (Nat.lt_of_lt_of_le hpointer hn)
  obtain ⟨hlt, hcurrent⟩ := List.getElem?_eq_some_iff.mp (getElem?_cursor_capture ip i tape)
  have hwindow : r.window = r.window.take r.cursor ++ tape.current :: r.window.drop (r.cursor + 1) := by
    rw [← hcurrent, List.getElem_cons_drop, List.take_append_drop]
  apply marks_text hwindow
  . rw [List.length_take]
    exact (Nat.min_eq_left (Nat.le_of_lt hlt)).symm
  . unfold UInt64.size
    omega

theorem trace_marks_current_cell_wide_position
    : let tape : Tape 3 := ⟨#v[7, 65, 0], 1⟩
      let text := "IP: 12345 | Cmd: + | Ptr:    1 | Memory: [  7  65   0]\n" ++ Text.blanks 46 ++ "^^^"
      (capture 12345 .increment tape).text = text ∧ Marks text 65 := by
  intro tape text
  have htext : (capture 12345 .increment tape).text = text := by decide +kernel
  have hmarks := (trace_marks_current_cell 12345 .increment tape).2.2.2.2 (by decide) (by decide)
  rw [htext] at hmarks
  exact ⟨htext, hmarks⟩

end TraceRecord

end Brainfuck
