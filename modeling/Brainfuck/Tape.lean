/-!
The tape: a fixed number of byte cells and a pointer to one of them. The number of cells is part of
the type, so that no operation can change it and the pointer always names a cell.
-/

namespace Brainfuck

structure Tape (n : Nat) where
  cells : Vector UInt8 n
  pointer : Fin n
  deriving DecidableEq, Repr

namespace Tape

variable {n : Nat}

def blank (h : 0 < n) : Tape n where
  cells := .replicate n 0
  pointer := ⟨0, h⟩

def clear (t : Tape n) : Tape n :=
  blank t.pointer.pos

def current (t : Tape n) : UInt8 :=
  t.cells[t.pointer]

def write (t : Tape n) (value : UInt8) : Tape n :=
  { t with cells := t.cells.set t.pointer value }

def moveRight? (t : Tape n) : Option (Tape n) :=
  if h : t.pointer.val + 1 < n then some { t with pointer := ⟨t.pointer.val + 1, h⟩ } else none

def moveLeft? (t : Tape n) : Option (Tape n) :=
  if t.pointer.val = 0 then
    none
  else
    some { t with pointer := ⟨t.pointer.val - 1, Nat.lt_of_le_of_lt (Nat.sub_le ..) t.pointer.isLt⟩ }

@[simp]
theorem current_write (t : Tape n) (value : UInt8) : (t.write value).current = value := by
  simp [current, write]

@[simp]
theorem pointer_write (t : Tape n) (value : UInt8) : (t.write value).pointer = t.pointer :=
  rfl

theorem moveRight?_of_lt {t : Tape n} (h : t.pointer.val + 1 < n)
    : t.moveRight? = some { t with pointer := ⟨t.pointer.val + 1, h⟩ } := by
  unfold moveRight?
  rw [dif_pos h]

theorem moveRight?_eq_none_iff (t : Tape n) : t.moveRight? = none ↔ t.pointer.val + 1 = n := by
  have hpointer := t.pointer.isLt
  unfold moveRight?
  split
  . simp only [reduceCtorEq, false_iff]
    omega
  . simp only [true_iff]
    omega

theorem moveLeft?_of_pos {t : Tape n} (h : 0 < t.pointer.val)
    : t.moveLeft? = some { t with pointer := ⟨t.pointer.val - 1, by omega⟩ } := by
  unfold moveLeft?
  rw [if_neg (by omega)]

theorem moveLeft?_eq_none_iff (t : Tape n) : t.moveLeft? = none ↔ t.pointer.val = 0 := by
  unfold moveLeft?
  split
  . next h => simp only [h]
  . next h => simp only [reduceCtorEq, h]

end Tape

end Brainfuck
