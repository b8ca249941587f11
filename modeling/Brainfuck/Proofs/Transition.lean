import Brainfuck.Machine.Step
import Brainfuck.Proofs.Brackets

/-!
This module contains what a single instruction can do, said once for all instructions. `Machine.follows_step`
is about the position, the output and the debug switch; `Machine.perform_eq_fail_iff` is about faults; and
there is one lemma for each other part of a machine.
-/

namespace Brainfuck

variable {n : Nat}

/--
`Succeeds p m m' written`: the next instruction of `p` takes `m` to `m'` and writes `written`. It is
followed by the instruction behind it, and only a bracket can also be followed by the instruction behind
its partner.
-/
structure Machine.Succeeds (p : Program) (m m' : Machine n) (written : String) : Prop where
  ip : ∃ i, p.instruction? m.ip = some i ∧
    (m'.ip = m.ip + 1 ∨ i.IsBracket ∧ m'.ip = (p.jump? m.ip).getD m.ip + 1)
  output : m'.output = m.output ++ written
  debug : m'.debug = m.debug

namespace Transition

def Follows (p : Program) (m : Machine n) : Transition n → Prop
  | .halt m' => p.instruction? m.ip = none ∧ m' = m
  | .fail _ m' => p.instruction? m.ip ≠ none ∧ m' = m
  | .advance m' => m.Succeeds p m' ""
  | .write c m' => m.Succeeds p m' (.singleton c)
  | .ask resume => ∀ c, m.Succeeds p (resume c) ""

def map (f : Machine n → Machine n) : Transition n → Transition n
  | .halt m => .halt (f m)
  | .fail fault m => .fail fault (f m)
  | .advance m => .advance (f m)
  | .write c m => .write c (f m)
  | .ask resume => .ask fun c => f (resume c)

def machine (answer : Option Char) : Transition n → Machine n
  | .halt m => m
  | .fail _ m => m
  | .advance m => m
  | .write _ m => m
  | .ask resume => resume answer

end Transition

inductive Machine.Blocked (i : Instruction) (m : Machine n) : Fault → Prop where
  | overflow (hi : i = .right) (hlast : m.tape.pointer.val + 1 = n) : Blocked i m (.overflow m.ip)
  | underflow (hi : i = .left) (hfirst : m.tape.pointer.val = 0) : Blocked i m (.underflow m.ip)

namespace Machine

variable {p : Program} {m : Machine n} {i : Instruction}

theorem charOf_eq_ofNat (value : UInt8) : charOf value = Char.ofNat value.toNat := by
  rw [← Char.ofNat_toNat (charOf value)]
  rfl

theorem step_of_instruction (h : p.instruction? m.ip = some i) : m.step p = m.perform p i := by
  unfold step
  rw [h]

theorem Succeeds.next (h : p.instruction? m.ip = some i) {m' : Machine n} {written : String}
    (hip : m'.ip = m.ip + 1) (houtput : m'.output = m.output ++ written) (hdebug : m'.debug = m.debug)
    : m.Succeeds p m' written :=
  ⟨⟨i, h, .inl hip⟩, houtput, hdebug⟩

theorem Succeeds.bracket (h : p.instruction? m.ip = some i) (hi : i.IsBracket) {target : Nat}
    (htarget : target = m.ip ∨ target = (p.jump? m.ip).getD m.ip)
    : m.Succeeds p (m.advanceFrom target) "" := by
  refine ⟨⟨i, h, ?_⟩, String.append_empty.symm, rfl⟩
  cases htarget with
  | inl hnext => exact .inl (congrArg (· + 1) hnext)
  | inr hjump => exact .inr ⟨hi, congrArg (· + 1) hjump⟩

theorem follows_perform (h : p.instruction? m.ip = some i) : (m.perform p i).Follows p m := by
  have hempty : m.output = m.output ++ "" := String.append_empty.symm
  unfold perform
  cases i with
  | right | left =>
    dsimp only
    split
    . exact ⟨by simp [h], rfl⟩
    . exact .next h rfl hempty rfl
  | increment | decrement => exact .next h rfl hempty rfl
  | output => exact .next h rfl (String.push_eq_append _) rfl
  | input =>
    dsimp only
    split
    . exact .next h rfl hempty rfl
    . intro c
      exact .next h rfl hempty rfl
  | loopOpen =>
    dsimp only
    split
    . exact .bracket h (.inl rfl) (.inr rfl)
    . exact .bracket h (.inl rfl) (.inl rfl)
  | loopClose =>
    dsimp only
    split
    . exact .bracket h (.inr rfl) (.inl rfl)
    . exact .bracket h (.inr rfl) (.inr rfl)

theorem follows_step (p : Program) (m : Machine n) : (m.step p).Follows p m := by
  cases h : p.instruction? m.ip with
  | none =>
    unfold step
    rw [h]
    exact ⟨h, rfl⟩
  | some i =>
    rw [step_of_instruction h]
    apply follows_perform h

theorem perform_eq_fail_iff {fault : Fault} {m' : Machine n}
    : m.perform p i = .fail fault m' ↔ m.Blocked i fault ∧ m' = m := by
  unfold perform
  constructor
  . intro h
    cases i with
    | right =>
      dsimp only at h
      split at h
      . next hmove =>
        rw [Tape.moveRight?_eq_none_iff] at hmove
        cases h
        exact ⟨.overflow rfl hmove, rfl⟩
      . contradiction
    | left =>
      dsimp only at h
      split at h
      . next hmove =>
        rw [Tape.moveLeft?_eq_none_iff] at hmove
        cases h
        exact ⟨.underflow rfl hmove, rfl⟩
      . contradiction
    | input =>
      dsimp only at h
      split at h <;> contradiction
    | increment | decrement | output | loopOpen | loopClose => contradiction
  . intro ⟨hblocked, hm⟩
    subst hm
    cases hblocked with
    | overflow hi hlast =>
      subst hi
      dsimp only
      rw [(Tape.moveRight?_eq_none_iff _).2 hlast]
    | underflow hi hfirst =>
      subst hi
      dsimp only
      rw [(Tape.moveLeft?_eq_none_iff _).2 hfirst]

theorem blocked_overflow_iff {position : Nat}
    : m.Blocked i (.overflow position)
        ↔
      i = .right ∧ m.ip = position ∧ m.tape.pointer.val = n - 1 := by
  have hpointer := m.tape.pointer.isLt
  constructor
  . intro h
    cases h with
    | overflow hi hlast => exact ⟨hi, rfl, by omega⟩
  . intro ⟨hi, hip, hlast⟩
    subst hip
    exact .overflow hi (by omega)

theorem blocked_underflow_iff {position : Nat}
    : m.Blocked i (.underflow position) ↔ i = .left ∧ m.ip = position ∧ m.tape.pointer.val = 0 := by
  constructor
  . intro h
    cases h with
    | underflow hi hfirst => exact ⟨hi, rfl, hfirst⟩
  . intro ⟨hi, hip, hfirst⟩
    subst hip
    exact .underflow hi hfirst

theorem output_perform (p : Program) (m : Machine n) (i : Instruction) (answer : Option Char)
    : ((m.perform p i).machine answer).output
        =
      m.output ++ if i = .output then .singleton (charOf m.tape.current) else "" := by
  have hempty : m.output = m.output ++ "" := String.append_empty.symm
  unfold perform
  cases i with
  | output => exact String.push_eq_append _
  | increment | decrement | loopOpen | loopClose => exact hempty
  | right | left | input =>
    dsimp only
    split <;> exact hempty

theorem pointer_perform (p : Program) (m : Machine n) (i : Instruction) (answer : Option Char)
    : ((m.perform p i).machine answer).tape.pointer.val
        =
      match i with
      | .right => if m.tape.pointer.val + 1 < n then m.tape.pointer.val + 1 else m.tape.pointer.val
      | .left => m.tape.pointer.val - 1
      | _ => m.tape.pointer.val := by
  cases i with
  | right =>
    unfold perform
    by_cases hlt : m.tape.pointer.val + 1 < n
    . rw [Tape.moveRight?_of_lt hlt, if_pos hlt]
      rfl
    . rw [(Tape.moveRight?_eq_none_iff _).2 (by omega), if_neg hlt]
      rfl
  | left =>
    unfold perform
    by_cases hpos : 0 < m.tape.pointer.val
    . rw [Tape.moveLeft?_of_pos hpos]
      rfl
    . rw [(Tape.moveLeft?_eq_none_iff _).2 (by omega)]
      dsimp only [Transition.machine]
      omega
  | input =>
    unfold perform
    dsimp only
    split <;> rfl
  | increment | decrement | output | loopOpen | loopClose => rfl

theorem input_perform (hi : i ≠ .input) (answer : Option Char)
    : ((m.perform p i).machine answer).input = m.input := by
  unfold perform
  cases i with
  | input => contradiction
  | right | left =>
    dsimp only
    split <;> rfl
  | increment | decrement | output | loopOpen | loopClose => rfl

theorem perform_ne_ask (hi : i ≠ .input) (resume : Option Char → Machine n)
    : m.perform p i ≠ .ask resume := by
  unfold perform
  cases i with
  | input => contradiction
  | right | left =>
    dsimp only
    split <;> simp
  | increment | decrement | output | loopOpen | loopClose => simp

theorem perform_setDebug (p : Program) (m : Machine n) (i : Instruction) (on : Bool)
    : (m.setDebug on).perform p i = (m.perform p i).map (setDebug · on) := by
  unfold perform setDebug
  cases i with
  | right | left | input =>
    dsimp only
    split <;> rfl
  | increment | decrement | output | loopOpen | loopClose => rfl

theorem step_setDebug (p : Program) (m : Machine n) (on : Bool)
    : (m.setDebug on).step p = (m.step p).map (setDebug · on) := by
  cases h : p.instruction? m.ip with
  | none =>
    unfold step
    rw [h, show (m.setDebug on).ip = m.ip from rfl, h]
    rfl
  | some i =>
    rw [step_of_instruction h, ← perform_setDebug]
    apply step_of_instruction
    apply h

end Machine

theorem Transition.Follows.debug_machine {p : Program} {m : Machine n} {transition : Transition n}
    (h : transition.Follows p m) (answer : Option Char)
    : (transition.machine answer).debug = m.debug := by
  cases transition with
  | halt m' | fail fault m' => rw [machine, h.2]
  | advance m' | write c m' => rw [machine, h.debug]
  | ask resume => rw [machine, (h answer).debug]

end Brainfuck
