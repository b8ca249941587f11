import Brainfuck.Proofs.Parse

/-!
This module contains the proof that a fault of the brackets names the bracket that is to blame. A closing
bracket is to blame if it is the first one behind which more brackets have been closed than opened. Without
such a bracket, the first opening one is to blame that nothing behind it closes.
-/

namespace Brainfuck

def Overclosed (code : List Instruction) (position : Nat) : Prop :=
  (segment code 0 position).count .loopOpen < (segment code 0 position).count .loopClose

def NeverClosed (code : List Instruction) (position : Nat) : Prop :=
  code[position]? = some .loopOpen ∧
    ∀ last, position ≤ last →
      (segment code position last).count .loopClose < (segment code position last).count .loopOpen

def Covered (code : List Instruction) : Prop :=
  ∀ front, front <+: code → 0 ≤ depth front

theorem overclosed_iff_depth {code : List Instruction} {position : Nat}
    : Overclosed code position ↔ depth (code.take (position + 1)) < 0 := by
  unfold Overclosed segment depth
  rw [List.drop_zero, Nat.sub_zero]
  omega

theorem neverClosed_iff_depth {code : List Instruction} {position : Nat}
    : NeverClosed code position
        ↔
      code[position]? = some .loopOpen ∧
        ∀ last, position ≤ last → 0 < depth (segment code position last) := by
  unfold NeverClosed depth
  simp only [Int.sub_pos, Int.ofNat_lt]

theorem exists_overclosed_iff {code : List Instruction}
    : (∃ position, Overclosed code position)
        ↔
      ∃ front, front <+: code ∧ front.count .loopOpen < front.count .loopClose := by
  constructor
  . intro ⟨position, h⟩
    refine ⟨segment code 0 position, ?_, h⟩
    exact List.take_prefix _ _
  . intro ⟨front, hfront, h⟩
    obtain ⟨back, rfl⟩ := hfront
    cases front with
    | nil => contradiction
    | cons i rest =>
      refine ⟨rest.length, ?_⟩
      unfold Overclosed segment
      rwa [List.drop_zero, Nat.sub_zero, show rest.length + 1 = (i :: rest).length from rfl, List.take_left]

namespace Covered

variable {code front back : List Instruction}

theorem not_overclosed (h : Covered code) (position : Nat) : ¬Overclosed code position := by
  rw [overclosed_iff_depth]
  have := h _ (List.take_prefix (position + 1) code)
  omega

theorem append (hfront : Covered front) (hback : Covered back) : Covered (front ++ back) := by
  intro piece ⟨rest, hpiece⟩
  obtain ⟨more, hmore, _⟩ | ⟨more, rfl, hmore⟩ := List.append_eq_append_iff.1 hpiece
  . exact hfront piece ⟨more, hmore.symm⟩
  . have hopened := hfront front List.prefix_rfl
    have hclosed := hback more ⟨rest, hmore.symm⟩
    rw [depth_append]
    omega

theorem cons_loopOpen (h : Covered back) : Covered (.loopOpen :: back) := by
  intro piece hpiece
  obtain rfl | ⟨rest, rfl, hrest⟩ := List.prefix_cons_iff.1 hpiece
  . exact Int.le_refl 0
  . have := h rest hrest
    rw [depth_cons_loopOpen]
    omega

end Covered

namespace Balanced

variable {front back : List Instruction}

theorem covered (h : Balanced front) : Covered front :=
  h.depth_nonneg

theorem isLeast_overclosed (h : Balanced front) (back : List Instruction)
    : IsLeast { position | Overclosed (front ++ .loopClose :: back) position } front.length := by
  constructor
  . change Overclosed _ _
    rw [overclosed_iff_depth, List.take_append, List.take_of_length_le (by omega), depth_append,
      h.depth_eq_zero, show front.length + 1 - front.length = 0 + 1 by omega, List.take_succ_cons]
    simp
  . intro position hposition
    apply Nat.le_of_not_lt
    intro hlt
    apply h.covered.not_overclosed position
    change Overclosed _ _ at hposition
    rwa [overclosed_iff_depth, List.take_append_of_le_length (by omega), ← overclosed_iff_depth] at hposition

theorem depth_drop_le (h : Balanced front) (position : Nat) : depth (front.drop position) ≤ 0 := by
  have hsum := depth_append (front.take position) (front.drop position)
  rw [List.take_append_drop, h.depth_eq_zero] at hsum
  have := h.depth_nonneg _ (List.take_prefix position front)
  omega

theorem isLeast_neverClosed (h : Balanced front) (hback : Covered back)
    : IsLeast { position | NeverClosed (front ++ .loopOpen :: back) position } front.length := by
  constructor
  . change NeverClosed _ _
    rw [neverClosed_iff_depth]
    refine ⟨by simp, ?_⟩
    intro last hlast
    have := hback _ (List.take_prefix (last - front.length) back)
    rw [segment_append, show last + 1 - front.length = last - front.length + 1 by omega,
      List.take_succ_cons, depth_cons_loopOpen]
    omega
  . intro position hposition
    apply Nat.le_of_not_lt
    intro hlt
    have hopen := (neverClosed_iff_depth.1 hposition).2 (front.length - 1) (by omega)
    have hsegment : segment (front ++ .loopOpen :: back) position (front.length - 1) = front.drop position := by
      unfold segment
      rw [List.drop_append_of_le_length (by omega), List.take_left' (by rw [List.length_drop]; omega)]
    rw [hsegment] at hopen
    have := h.depth_drop_le position
    omega

end Balanced

namespace Unclosed

variable {code : List Instruction} {stack : List Nat} {position : Nat}

theorem covered (h : Unclosed code stack) : Covered code := by
  induction h with
  | nil h => exact h.covered
  | cons _ hbody ih => exact ih.append hbody.covered.cons_loopOpen

theorem exists_outermost (h : Unclosed code stack) (hlast : stack.getLast? = some position)
    : ∃ front back, code = front ++ .loopOpen :: back ∧ front.length = position ∧ Balanced front ∧
        Covered back := by
  induction h with
  | nil => contradiction
  | @cons code body stack h hbody ih =>
    cases stack with
    | nil =>
      rw [List.getLast?_singleton] at hlast
      exact ⟨code, body, rfl, Option.some.inj hlast, h.balanced, hbody.covered⟩
    | cons partner stack =>
      rw [List.getLast?_cons_cons] at hlast
      obtain ⟨front, back, rfl, hlength, hfront, hback⟩ := ih hlast
      refine ⟨front, back ++ .loopOpen :: body, ?_, hlength, hfront, ?_⟩
      . rw [List.append_assoc, List.cons_append]
      . exact hback.append hbody.covered.cons_loopOpen

end Unclosed

/--
The fault of a source text whose brackets do not match. If some prefix closes more brackets than it opens, the
fault is the closing bracket at the first position where this is so. Otherwise it is the first opening bracket
that stays open up to every later position.
-/
theorem Program.parse_blames_first_bracket (source : String) (h : ¬Balanced (instructions source))
    : ((∃ front, front <+: instructions source ∧ front.count .loopOpen < front.count .loopClose) →
        ∃ position, parse source = .error (.unmatched .closing position) ∧
          IsLeast { i | Overclosed (instructions source) i } position) ∧
      ((¬∃ front, front <+: instructions source ∧ front.count .loopOpen < front.count .loopClose) →
        ∃ position, parse source = .error (.unmatched .opening position) ∧
          IsLeast { i | NeverClosed (instructions source) i } position) := by
  rw [← exists_overclosed_iff]
  unfold parse
  dsimp only
  have hmatched := matchBrackets_matched (instructions source)
  generalize matchBrackets (instructions source) = result at hmatched ⊢
  cases hmatched with
  | ok hscanned => exact absurd hscanned.unclosed.balanced h
  | @stray front back hcode hfront =>
    have hleast := hfront.isLeast_overclosed back
    rw [← hcode] at hleast
    exact ⟨fun _ => ⟨_, rfl, hleast⟩, fun hnone => absurd ⟨_, hleast.1⟩ hnone⟩
  | unclosed hunclosed hlast =>
    obtain ⟨front, back, hcode, rfl, hfront, hback⟩ := hunclosed.exists_outermost hlast
    have hleast := hfront.isLeast_neverClosed hback
    rw [← hcode] at hleast
    exact ⟨fun ⟨i, hi⟩ => absurd hi (hunclosed.covered.not_overclosed i), fun _ => ⟨_, rfl, hleast⟩⟩

theorem Program.parse_blames_first_bracket_both_kinds
    : (∃ position, parse "+]>[]]" = .error (.unmatched .closing position) ∧
        IsLeast { i | Overclosed (instructions "+]>[]]") i } position) ∧
      ∃ position, parse "[]+[-[][>" = .error (.unmatched .opening position) ∧
        IsLeast { i | NeverClosed (instructions "[]+[-[][>") i } position := by
  have hcovered : ¬∃ front, front <+: instructions "[]+[-[][>" ∧
      front.count .loopOpen < front.count .loopClose := by
    simp only [← List.mem_inits]
    decide
  constructor
  . exact (parse_blames_first_bracket "+]>[]]" (by decide)).1
      ⟨[.increment, .loopClose], by decide, by decide⟩
  . exact (parse_blames_first_bracket "[]+[-[][>" (by decide)).2 hcovered

end Brainfuck
