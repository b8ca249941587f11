import Brainfuck.Instruction
import Mathlib.Data.List.Infix
import Mathlib.Order.Bounds.Defs

/-!
This module contains the theory of brackets: when a piece of code is balanced, and which of its brackets
are partners. A pair of partners is described by the balanced code between them; that the closing one is
the first place where the counts of both brackets meet is a theorem.
-/

namespace Brainfuck

def Instruction.IsBracket (i : Instruction) : Prop :=
  i = .loopOpen ∨ i = .loopClose

instance : DecidablePred Instruction.IsBracket :=
  fun i => inferInstanceAs (Decidable (i = .loopOpen ∨ i = .loopClose))

def Balanced (code : List Instruction) : Prop :=
  code.count .loopOpen = code.count .loopClose ∧
    ∀ front, front <+: code → front.count .loopClose ≤ front.count .loopOpen

instance : DecidablePred Balanced :=
  fun code => decidable_of_iff
    (code.count .loopOpen = code.count .loopClose ∧
      ∀ front ∈ code.inits, front.count .loopClose ≤ front.count .loopOpen)
    (by simp only [Balanced, List.mem_inits])

def depth (code : List Instruction) : Int :=
  code.count .loopOpen - code.count .loopClose

@[simp]
theorem depth_nil : depth [] = 0 := rfl

@[simp]
theorem depth_append (front back : List Instruction)
    : depth (front ++ back) = depth front + depth back := by
  simp only [depth, List.count_append]
  omega

@[simp]
theorem depth_cons_loopOpen (code : List Instruction)
    : depth (.loopOpen :: code) = depth code + 1 := by
  simp only [depth, List.count_cons_self]
  rw [List.count_cons_of_ne (by decide)]
  omega

@[simp]
theorem depth_cons_loopClose (code : List Instruction)
    : depth (.loopClose :: code) = depth code - 1 := by
  simp only [depth, List.count_cons_self]
  rw [List.count_cons_of_ne (by decide)]
  omega

theorem balanced_iff_depth {code : List Instruction}
    : Balanced code ↔ depth code = 0 ∧ ∀ front, front <+: code → 0 ≤ depth front := by
  unfold Balanced depth
  constructor
  . intro ⟨heq, hle⟩
    refine ⟨by omega, ?_⟩
    intro front hfront
    specialize hle front hfront
    omega
  . intro ⟨heq, hle⟩
    refine ⟨by omega, ?_⟩
    intro front hfront
    specialize hle front hfront
    omega

namespace Balanced

variable {code front back body : List Instruction}

theorem depth_eq_zero (h : Balanced code) : depth code = 0 :=
  (balanced_iff_depth.1 h).1

theorem depth_nonneg (h : Balanced code) (front : List Instruction) (hfront : front <+: code)
    : 0 ≤ depth front :=
  (balanced_iff_depth.1 h).2 front hfront

theorem nil : Balanced [] := by
  decide

theorem append (hfront : Balanced front) (hback : Balanced back) : Balanced (front ++ back) := by
  rw [balanced_iff_depth]
  constructor
  . rw [depth_append, hfront.depth_eq_zero, hback.depth_eq_zero]
    rfl
  . intro piece ⟨rest, hpiece⟩
    rw [List.append_eq_append_iff] at hpiece
    cases hpiece with
    | inl h =>
      obtain ⟨more, hmore, _⟩ := h
      apply hfront.depth_nonneg
      exact ⟨more, hmore.symm⟩
    | inr h =>
      obtain ⟨more, hmore, hback'⟩ := h
      rw [hmore, depth_append, hfront.depth_eq_zero, Int.zero_add]
      apply hback.depth_nonneg
      exact ⟨rest, hback'.symm⟩

theorem singleton {i : Instruction} (hi : ¬i.IsBracket) : Balanced [i] := by
  cases i with
  | loopOpen => exact absurd (.inl rfl) hi
  | loopClose => exact absurd (.inr rfl) hi
  | _ => decide

theorem enclose (hbody : Balanced body) : Balanced (.loopOpen :: (body ++ [.loopClose])) := by
  rw [balanced_iff_depth]
  constructor
  . simp [hbody.depth_eq_zero]
  . intro piece hpiece
    rw [List.prefix_cons_iff] at hpiece
    obtain rfl | ⟨piece, rfl, hpiece⟩ := hpiece
    . simp
    . rw [depth_cons_loopOpen]
      rw [List.prefix_concat_iff] at hpiece
      obtain rfl | hpiece := hpiece
      . simp [hbody.depth_eq_zero]
      . have := hbody.depth_nonneg piece hpiece
        omega

-- A closing bracket right behind a balanced piece has no partner in it, so no balanced code starts like
-- this. In the same way, none ends with an opening bracket and a balanced piece.
theorem not_extends_loopClose (h : Balanced (front ++ .loopClose :: back)) : ¬Balanced front := by
  intro hfront
  have := h.depth_nonneg (front ++ [.loopClose]) ⟨back, by simp⟩
  simp only [depth_append, hfront.depth_eq_zero, depth_cons_loopClose, depth_nil] at this
  omega

theorem not_extends_loopOpen (h : Balanced (front ++ .loopOpen :: back)) : ¬Balanced back := by
  intro hback
  have hfront := h.depth_nonneg front (List.prefix_append ..)
  have := h.depth_eq_zero
  simp only [depth_append, hback.depth_eq_zero, depth_cons_loopOpen] at this
  omega

theorem of_append (h : Balanced (front ++ back)) (hfront : Balanced front) : Balanced back := by
  rw [balanced_iff_depth]
  constructor
  . have := h.depth_eq_zero
    rwa [depth_append, hfront.depth_eq_zero, Int.zero_add] at this
  . intro piece hpiece
    have := h.depth_nonneg (front ++ piece) ((List.prefix_append_right_inj front).2 hpiece)
    rwa [depth_append, hfront.depth_eq_zero, Int.zero_add] at this

end Balanced

def Partners (code : List Instruction) (i j : Nat) : Prop :=
  ∃ before body after,
    code = before ++ .loopOpen :: (body ++ .loopClose :: after) ∧ Balanced body ∧
      before.length = i ∧ i + body.length + 1 = j

def segment (code : List Instruction) (i j : Nat) : List Instruction :=
  (code.drop i).take (j + 1 - i)

theorem segment_append (before rest : List Instruction) (k : Nat)
    : segment (before ++ rest) before.length k = rest.take (k + 1 - before.length) := by
  unfold segment
  rw [List.drop_left]

namespace Partners

variable {code : List Instruction} {i j k : Nat}

theorem lt (h : Partners code i j) : i < j := by
  obtain ⟨before, body, after, hcode, hbody, hi, hj⟩ := h
  omega

theorem lt_length (h : Partners code i j) : j < code.length := by
  obtain ⟨before, body, after, rfl, hbody, hi, hj⟩ := h
  simp only [List.length_append, List.length_cons]
  omega

theorem opening (h : Partners code i j) : code[i]? = some .loopOpen := by
  obtain ⟨before, body, after, rfl, hbody, rfl, hj⟩ := h
  simp

theorem closing (h : Partners code i j) : code[j]? = some .loopClose := by
  obtain ⟨before, body, after, rfl, hbody, rfl, rfl⟩ := h
  rw [List.getElem?_append_right (by omega)]
  rw [show before.length + body.length + 1 - before.length = body.length + 1 by omega]
  simp

theorem append (h : Partners code i j) (more : List Instruction) : Partners (code ++ more) i j := by
  obtain ⟨before, body, after, rfl, hbody, hi, hj⟩ := h
  exact ⟨before, body, after ++ more, by simp, hbody, hi, hj⟩

theorem right_le (h : Partners code i j) (h' : Partners code i k) : j ≤ k := by
  obtain ⟨before, body, after, rfl, hbody, rfl, rfl⟩ := h
  obtain ⟨before', body', after', hcode, hbody', hlen, rfl⟩ := h'
  obtain ⟨rfl, htail⟩ := List.append_inj hcode hlen.symm
  rw [List.cons.injEq, List.append_eq_append_iff] at htail
  obtain ⟨_, ⟨more, rfl, _⟩ | ⟨more, rfl, hmore⟩⟩ := htail
  . simp
  . cases more with
    | nil => simp
    | cons c more =>
      -- The longer body would go on behind the shorter one with a closing bracket.
      obtain ⟨rfl, _⟩ := List.cons.inj hmore
      exact absurd hbody' hbody.not_extends_loopClose

theorem right_unique (h : Partners code i j) (h' : Partners code i k) : j = k :=
  Nat.le_antisymm (h.right_le h') (h'.right_le h)

theorem left_le (h : Partners code i k) (h' : Partners code j k) : i ≤ j := by
  obtain ⟨before, body, after, rfl, hbody, rfl, rfl⟩ := h
  obtain ⟨before', body', after', hcode, hbody', rfl, hlen⟩ := h'
  simp only [← List.cons_append, ← List.append_assoc] at hcode
  have hlen' : (before ++ .loopOpen :: body).length = (before' ++ .loopOpen :: body').length := by
    simp only [List.length_append, List.length_cons]
    omega
  obtain ⟨hfront, _⟩ := List.append_inj hcode hlen'
  rw [List.append_eq_append_iff] at hfront
  obtain ⟨more, rfl, _⟩ | ⟨more, rfl, hmore⟩ := hfront
  . simp
  . cases more with
    | nil => simp
    | cons c more =>
      -- The longer body would start before the shorter one with an opening bracket.
      obtain ⟨rfl, rfl⟩ := List.cons.inj hmore
      exact absurd hbody hbody'.not_extends_loopOpen

theorem left_unique (h : Partners code i k) (h' : Partners code j k) : i = j :=
  Nat.le_antisymm (h.left_le h') (h'.left_le h)

theorem isLeast (h : Partners code i j)
    : IsLeast
        { k | i < k ∧ (segment code i k).count .loopOpen = (segment code i k).count .loopClose }
        j := by
  obtain ⟨before, body, after, rfl, hbody, rfl, rfl⟩ := h
  constructor
  . refine ⟨by omega, ?_⟩
    have htake : (body ++ .loopClose :: after).take (body.length + 1) = body ++ [.loopClose] := by
      simp [List.take_append]
    rw [segment_append,
      show before.length + body.length + 1 + 1 - before.length = body.length + 1 + 1 by omega,
      List.take_succ_cons, htake]
    exact hbody.enclose.1
  . intro k ⟨hk, heq⟩
    apply Nat.le_of_not_lt
    intro hlt
    rw [segment_append, show k + 1 - before.length = k - before.length + 1 by omega, List.take_succ_cons,
      List.take_append_of_le_length (by omega)] at heq
    have hdepth := hbody.depth_nonneg _ (List.take_prefix (k - before.length) body)
    have hzero : depth (.loopOpen :: body.take (k - before.length)) = 0 := by
      unfold depth
      omega
    rw [depth_cons_loopOpen] at hzero
    omega

end Partners

theorem partners_concat {code : List Instruction} {last : Instruction} {i j : Nat}
    : Partners (code ++ [last]) i j
        ↔
      Partners code i j ∨
        (last = .loopClose ∧ j = code.length ∧
          ∃ before body, code = before ++ .loopOpen :: body ∧ Balanced body ∧ before.length = i) := by
  constructor
  . intro ⟨before, body, after, hcode, hbody, hi, hj⟩
    cases after using List.reverseRecOn with
    | nil =>
      rw [← List.cons_append, ← List.append_assoc] at hcode
      obtain ⟨rfl, hlast⟩ := List.append_inj' hcode rfl
      right
      refine ⟨by simpa using hlast, ?_, before, body, rfl, hbody, hi⟩
      simp only [List.length_append, List.length_cons]
      omega
    | append_singleton after c =>
      left
      rw [show before ++ .loopOpen :: (body ++ .loopClose :: (after ++ [c]))
        = (before ++ .loopOpen :: (body ++ .loopClose :: after)) ++ [c] by simp] at hcode
      obtain ⟨rfl, _⟩ := List.append_inj' hcode rfl
      exact ⟨before, body, after, rfl, hbody, hi, hj⟩
  . intro h
    cases h with
    | inl h => exact h.append [last]
    | inr h =>
      obtain ⟨rfl, rfl, before, body, rfl, hbody, rfl⟩ := h
      refine ⟨before, body, [], by simp, hbody, rfl, ?_⟩
      simp only [List.length_append, List.length_cons]
      omega

end Brainfuck
