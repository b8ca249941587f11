import Brainfuck.Text.Decimal
import Mathlib.Data.Nat.Digits.Defs
import Mathlib.Tactic.Ring

/-!
This module contains which texts are machine words. The reader looks for an overflow at every digit; what it
accepts is said here without it: digits whose value by their places fits in a word. Leading zeros are no matter,
and a text of any length is either read right or not at all.
-/

namespace Brainfuck.Text

def placeValue (digits : List Char) : Nat :=
  Nat.ofDigits 10 (digits.reverse.map fun c => c.toNat - '0'.toNat)

/--
`Spells cs n`: the characters are one or more decimal digits of value `n`, with one plus sign before them or none.
-/
inductive Spells : List Char → Nat → Prop where
  | bare {digits : List Char} (hne : digits ≠ []) (hdigits : ∀ c ∈ digits, c.isDigit)
      : Spells digits (placeValue digits)
  | signed {digits : List Char} (hne : digits ≠ []) (hdigits : ∀ c ∈ digits, c.isDigit)
      : Spells ('+' :: digits) (placeValue digits)

variable {digits : List Char} {value n : Nat}

theorem ofDigitChars_eq_placeValue (digits : List Char) (value : Nat)
    : Nat.ofDigitChars 10 digits value = 10 ^ digits.length * value + placeValue digits := by
  induction digits generalizing value with
  | nil => simp [placeValue]
  | cons c digits ih =>
    have hplace : placeValue (c :: digits)
        = placeValue digits + 10 ^ digits.length * (c.toNat - '0'.toNat) := by
      simp [placeValue, Nat.ofDigits_append]
    rw [Nat.ofDigitChars_cons, ih, hplace, List.length_cons]
    ring

theorem isDigit_of_mem_repr {c : Char} (hc : c ∈ n.repr.toList) : c.isDigit := by
  rw [Nat.toList_repr] at hc
  exact Nat.isDigit_of_mem_toDigits (by decide) (by decide) hc

theorem spells_repr (n : Nat) : Spells n.repr.toList n := by
  have hne : n.repr.toList ≠ [] := by
    rw [Nat.toList_repr]
    exact Nat.toDigits_ne_nil
  have hplace : placeValue n.repr.toList = n := by
    have hvalue := ofDigitChars_eq_placeValue n.repr.toList 0
    rw [Nat.mul_zero, Nat.zero_add, Nat.toList_repr, Nat.ofDigitChars_toDigits (by decide) (by decide)] at hvalue
    rw [Nat.toList_repr, ← hvalue]
  have hspells : Spells n.repr.toList (placeValue n.repr.toList) := .bare hne fun _ => isDigit_of_mem_repr
  rwa [hplace] at hspells

theorem le_ofDigitChars (digits : List Char) (value : Nat) : value ≤ Nat.ofDigitChars 10 digits value := by
  rw [ofDigitChars_eq_placeValue]
  have hpower : 0 < 10 ^ digits.length := Nat.pow_pos (by decide)
  have hvalue : value ≤ 10 ^ digits.length * value := Nat.le_mul_of_pos_left value hpower
  omega

/--
The value never gets smaller from digit to digit, so it fits in the end if and only if it has always fitted.
-/
theorem readDigits_eq_some_iff (hvalue : value ≤ maxWord)
    : readDigits value digits = some n
        ↔
      (∀ c ∈ digits, c.isDigit) ∧ Nat.ofDigitChars 10 digits value = n ∧ n ≤ maxWord := by
  induction digits generalizing value with
  | nil =>
    rw [readDigits, Option.some.injEq, Nat.ofDigitChars_nil]
    constructor
    . rintro rfl
      exact ⟨by simp, rfl, hvalue⟩
    . intro ⟨_, h, _⟩
      exact h
  | cons c digits ih =>
    rw [readDigits, Nat.ofDigitChars_cons, List.forall_mem_cons]
    by_cases hdigit : c.isDigit
    . rw [if_pos hdigit]
      dsimp only
      generalize 10 * value + (c.toNat - '0'.toNat) = next
      by_cases hnext : next ≤ maxWord
      . rw [if_pos hnext, ih hnext]
        simp only [hdigit, true_and]
      . have hle := le_ofDigitChars digits next
        rw [if_neg hnext]
        constructor
        . intro h
          contradiction
        . intro ⟨_, hn, hword⟩
          omega
    . simp [hdigit]

theorem readDigits_zero_eq_some_iff
    : readDigits 0 digits = some n ↔ (∀ c ∈ digits, c.isDigit) ∧ placeValue digits = n ∧ n ≤ maxWord := by
  rw [readDigits_eq_some_iff (Nat.zero_le _), ofDigitChars_eq_placeValue, Nat.mul_zero, Nat.zero_add]

theorem readWord_eq_some_iff {text : String} : readWord text = some n ↔ Spells text.toList n ∧ n ≤ maxWord := by
  rw [readWord]
  generalize text.toList = cs
  have hplus : ¬Char.isDigit '+' := by decide
  split
  . simp only [reduceCtorEq, false_iff]
    intro ⟨hspells, _⟩
    cases hspells with
    | bare hne => contradiction
  . simp only [reduceCtorEq, false_iff]
    intro ⟨hspells, _⟩
    cases hspells with
    | bare _ hdigits => exact hplus (hdigits '+' List.mem_cons_self)
    | signed hne => contradiction
  . next digits hne =>
    rw [readDigits_zero_eq_some_iff]
    constructor
    . rintro ⟨hdigits, rfl, hword⟩
      exact ⟨.signed hne hdigits, hword⟩
    . intro ⟨hspells, hword⟩
      cases hspells with
      | bare _ hdigits => exact absurd (hdigits '+' List.mem_cons_self) hplus
      | signed _ hdigits => exact ⟨hdigits, rfl, hword⟩
  . next hempty _ hsigned =>
    rw [readDigits_zero_eq_some_iff]
    constructor
    . rintro ⟨hdigits, rfl, hword⟩
      exact ⟨.bare hempty hdigits, hword⟩
    . intro ⟨hspells, hword⟩
      cases hspells with
      | bare _ hdigits => exact ⟨hdigits, rfl, hword⟩
      | signed => exact absurd rfl (hsigned _)

end Brainfuck.Text
