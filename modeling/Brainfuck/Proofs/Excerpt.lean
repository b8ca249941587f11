import Brainfuck.Proofs.FaultReport
import Brainfuck.Proofs.TraceLayout

/-!
This module contains what a report shows of a program around a position. The excerpt is exactly the characters at
most 32 away from the position, and the caret stands below the position. The end of the range is a machine word and
wraps around for the greatest positions, which makes no difference.
-/

namespace Brainfuck

namespace Text

variable {p : Nat → Bool} {cs : List Char}

def select (p : Nat → Bool) (cs : List Char) : List Char :=
  (cs.zipIdx.filter fun entry => p entry.2).map Prod.fst

theorem select_append (p : Nat → Bool) (front rest : List Char)
    : select p (front ++ rest) = select p front ++ select (fun i => p (i + front.length)) rest := by
  unfold select
  rw [List.zipIdx_append, List.filter_append, List.map_append, List.append_right_inj, Nat.add_comm,
    ← List.map_snd_add_zipIdx_eq_zipIdx, List.filter_map, List.map_map]
  rfl

theorem select_eq_self (hall : ∀ i, i < cs.length → p i = true) : select p cs = cs := by
  have hfilter : (cs.zipIdx.filter fun entry => p entry.2) = cs.zipIdx := by
    rw [List.filter_eq_self]
    intro entry hentry
    exact hall entry.2 (List.snd_lt_of_mem_zipIdx hentry)
  rw [select, hfilter, List.zipIdx_map_fst]

theorem select_eq_nil (hnone : ∀ i, i < cs.length → p i = false) : select p cs = [] := by
  rw [select, List.map_eq_nil_iff, List.filter_eq_nil_iff]
  intro entry hentry
  rw [hnone entry.2 (List.snd_lt_of_mem_zipIdx hentry)]
  exact Bool.false_ne_true

theorem select_range (start stop : Nat) (cs : List Char)
    : select (fun i => start ≤ i ∧ i < stop) cs = (cs.drop start).take (stop - start) := by
  have hcut : cs = cs.take start ++ ((cs.drop start).take (stop - start) ++ (cs.drop start).drop (stop - start)) := by
    rw [List.take_append_drop, List.take_append_drop]
  conv => lhs; rw [hcut]
  rw [select_append, select_append, select_eq_nil, select_eq_self, select_eq_nil, List.nil_append, List.append_nil]
  -- Where the text ends before the range does, the last part is empty.
  . intro i hi
    rw [List.length_drop, List.length_drop] at hi
    rw [decide_eq_false_iff_not, List.length_take, List.length_take, List.length_drop]
    omega
  . intro i hi
    rw [List.length_take, List.length_drop] at hi
    rw [decide_eq_true_iff, List.length_take]
    omega
  . intro i hi
    rw [List.length_take] at hi
    rw [decide_eq_false_iff_not]
    omega

end Text

namespace Report

variable {code : List Char}

/--
The excerpt is the one of unbounded arithmetic. Where the end of the range wraps around, its start is already
behind the last character.
-/
theorem excerpt_eq_take_drop (position : Nat) (hcode : code.length + 2 * radius < UInt64.size)
    : excerpt code position
        =
      (code.drop (position - radius)).take (position + radius + 1 - (position - radius)) := by
  unfold excerpt
  dsimp only
  by_cases hwrap : position + radius + 1 < UInt64.size
  . rw [Nat.mod_eq_of_lt hwrap, List.take_eq_take_iff, List.length_drop]
    omega
  . have hbehind : code.drop (position - radius) = [] := by
      rw [List.drop_eq_nil_iff]
      omega
    rw [hbehind, List.take_nil, List.take_nil]

theorem excerpt_eq_select (position : Nat) (hcode : code.length + 2 * radius < UInt64.size)
    : excerpt code position
        =
      Text.select (fun i => position ≤ i + radius ∧ i ≤ position + radius) code := by
  rw [excerpt_eq_take_drop position hcode, ← Text.select_range]
  congr 1
  funext i
  rw [decide_eq_decide]
  omega

theorem caretLine_eq (position : Nat) : caretLine position = Text.blanks (min position radius) ++ "^" := by
  have hcolumn : position - (position - radius) = min position radius := by omega
  rw [caretLine, hcolumn]

theorem idxOf_caretLine (position : Nat)
    : (caretLine position).toList.idxOf '^' = position - (position - radius) := by
  have hblanks : '^' ∉ List.replicate (position - (position - radius)) ' ' := by
    intro hmem
    exact absurd (List.eq_of_mem_replicate hmem) (by decide)
  rw [caretLine, String.toList_append, Text.toList_blanks, List.idxOf_append_of_notMem hblanks,
    List.length_replicate]
  rfl

/--
The two lines below the heading of a report, for every text of fewer than `2 ^ 63` characters and every position:
the characters at most 32 away from the position, and a caret in the column of the position.
-/
theorem report_shows_neighbourhood (code : String) (position : Nat) (hcode : code.length < UInt64.size / 2)
    : excerpt code.toList position
          =
        Text.select (fun i => position ≤ i + 32 ∧ i ≤ position + 32) code.toList ∧
      (excerpt code.toList position).length ≤ 65 ∧
      caretLine position = Text.blanks (min position 32) ++ "^" ∧
      (position < code.length →
        (excerpt code.toList position)[(caretLine position).toList.idxOf '^']? = code.toList[position]?) ∧
      ∀ terminal title, ∃ heading,
        withContext terminal title code position
          =
        heading ++ "\n  " ++ .ofList (excerpt code.toList position) ++ "\n  " ++ caretLine position ++ "\n" := by
  rw [← String.length_toList] at hcode ⊢
  have hroom : code.toList.length + 2 * radius < UInt64.size := by
    unfold radius UInt64.size at *
    omega
  refine ⟨excerpt_eq_select position hroom, length_excerpt_le code.toList position, caretLine_eq position, ?_, ?_⟩
  . intro hinside
    rw [idxOf_caretLine]
    exact getElem?_excerpt hinside (by omega)
  . intro terminal title
    refine ⟨label terminal ++ " " ++ title ++ " at position " ++ position.repr, ?_⟩
    simp only [withContext, String.append_assoc]
    rfl

theorem report_shows_neighbourhood_both_ends
    : let code := String.ofList (.replicate 40 '+' ++ '[' :: .replicate 40 '-')
      code.length < UInt64.size / 2 ∧ 40 < code.length ∧
        excerpt code.toList 40 = .replicate 32 '+' ++ '[' :: .replicate 32 '-' ∧
        (excerpt code.toList 40)[(caretLine 40).toList.idxOf '^']? = some '[' ∧
        excerpt code.toList (UInt64.size - 1) = [] ∧
        caretLine (UInt64.size - 1) = Text.blanks 32 ++ "^" := by
  intro code
  have htext : code.toList = .replicate 40 '+' ++ '[' :: .replicate 40 '-' := String.toList_ofList
  have hlength : code.length = 81 := by
    rw [← String.length_toList, htext]
    rfl
  have hcode : code.length < UInt64.size / 2 := by
    rw [hlength]
    decide
  have hinside : 40 < code.length := by
    rw [hlength]
    decide
  obtain ⟨hexcerpt, _, _, hcolumn, _⟩ := report_shows_neighbourhood code 40 hcode
  obtain ⟨hempty, _, hcaret, _⟩ := report_shows_neighbourhood code (UInt64.size - 1) hcode
  refine ⟨hcode, hinside, hexcerpt.trans ?_, (hcolumn hinside).trans ?_, hempty.trans ?_, hcaret⟩
  . rw [htext]
    decide +kernel
  . rw [htext]
    rfl
  . rw [htext]
    decide +kernel

end Report

end Brainfuck
