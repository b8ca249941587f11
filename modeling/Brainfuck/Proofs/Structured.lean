import Brainfuck.Proofs.Parse
import Mathlib.Logic.Function.Basic

/-!
This module contains structured programs: sequences of actions and nested loops without any positions to
jump to, and what they mean. A loop tests the current cell, and as long as it is not zero the body is run
to its end and the test is made again. Balanced code reads as exactly one structured program.
-/

namespace Brainfuck

inductive Action where
  | right
  | left
  | increment
  | decrement
  | output
  | input
  deriving DecidableEq, Repr

def Action.instruction : Action → Instruction
  | right => .right
  | left => .left
  | increment => .increment
  | decrement => .decrement
  | output => .output
  | input => .input

inductive Block where
  | done
  | act (action : Action) (rest : Block)
  | loop (body rest : Block)
  deriving DecidableEq, Repr

def Block.code : Block → List Instruction
  | done => []
  | act action rest => action.instruction :: rest.code
  | loop body rest => .loopOpen :: (body.code ++ .loopClose :: rest.code)

/--
What a structured program works on: the cells, the pointer, the output, the input that is left with the
number of characters that were taken from it, and the provider that is called once there is none left.
-/
structure Store (n : Nat) (τ : Type) where
  cells : Fin n → UInt8
  pointer : Fin n
  output : List Char
  unread : List Char
  consumed : Nat
  provider : τ
  calls : Nat

namespace Store

variable {n : Nat} {τ : Type}

def start (h : 0 < n) (input : String) (provider : τ) : Store n τ where
  cells _ := 0
  pointer := ⟨0, h⟩
  output := []
  unread := input.toList
  consumed := 0
  provider := provider
  calls := 0

def current (s : Store n τ) : UInt8 :=
  s.cells s.pointer

def put (s : Store n τ) (value : UInt8) : Store n τ :=
  { s with cells := Function.update s.cells s.pointer value }

end Store

variable {n : Nat} {τ : Type}

def Action.perform (provider : StateM τ (Option Char)) (position : Nat) (s : Store n τ)
    : Action → Except Fault (Store n τ)
  | right =>
    if h : s.pointer.val + 1 < n then
      .ok { s with pointer := ⟨s.pointer.val + 1, h⟩ }
    else
      .error (.overflow position)
  | left =>
    if 0 < s.pointer.val then
      .ok { s with pointer := ⟨s.pointer.val - 1, by omega⟩ }
    else
      .error (.underflow position)
  | increment => .ok (s.put (s.current + 1))
  | decrement => .ok (s.put (s.current - 1))
  | output => .ok { s with output := s.output ++ [Char.ofNat s.current.toNat] }
  | input =>
    match s.unread with
    | c :: unread => .ok { s.put (UInt8.ofNat c.toNat) with unread, consumed := s.consumed + 1 }
    | [] =>
      match provider.run s.provider with
      | (some c, rest) =>
        .ok { s.put (UInt8.ofNat c.toNat) with provider := rest, calls := s.calls + 1 }
      | (none, rest) => .ok { s.put 0 with provider := rest, calls := s.calls + 1 }

/--
`b.Runs provider position s fault? t`: the structured program `b`, whose first instruction is at
`position`, runs from `s` and comes to an end in `t`, at its last instruction or with a fault.
-/
inductive Block.Runs (provider : StateM τ (Option Char))
    : Block → Nat → Store n τ → Option Fault → Store n τ → Prop where
  | done {position : Nat} {s : Store n τ} : Runs provider .done position s none s
  | act {action : Action} {rest : Block} {position : Nat} {s t u : Store n τ} {fault? : Option Fault}
      (hact : action.perform provider position s = .ok t)
      (hrest : Runs provider rest (position + 1) t fault? u)
      : Runs provider (.act action rest) position s fault? u
  | fault {action : Action} {rest : Block} {position : Nat} {s : Store n τ} {fault : Fault}
      (hact : action.perform provider position s = .error fault)
      : Runs provider (.act action rest) position s (some fault) s
  | leave {body rest : Block} {position : Nat} {s t : Store n τ} {fault? : Option Fault}
      (hzero : s.current = 0)
      (hrest : Runs provider rest (position + body.code.length + 2) s fault? t)
      : Runs provider (.loop body rest) position s fault? t
  | again {body rest : Block} {position : Nat} {s t u : Store n τ} {fault? : Option Fault}
      (hzero : s.current ≠ 0) (hbody : Runs provider body (position + 1) s none t)
      (hloop : Runs provider (.loop body rest) position t fault? u)
      : Runs provider (.loop body rest) position s fault? u
  | abort {body rest : Block} {position : Nat} {s t : Store n τ} {fault : Fault}
      (hzero : s.current ≠ 0) (hbody : Runs provider body (position + 1) s (some fault) t)
      : Runs provider (.loop body rest) position s (some fault) t

theorem Action.not_isBracket (action : Action) : ¬action.instruction.IsBracket := by
  cases action <;> decide

theorem Action.instruction_injective {a b : Action} (h : a.instruction = b.instruction) : a = b := by
  cases a <;> cases b <;> trivial

theorem Action.exists_instruction_eq {i : Instruction} (hi : ¬i.IsBracket)
    : ∃ action : Action, action.instruction = i := by
  cases i with
  | right => exact ⟨.right, rfl⟩
  | left => exact ⟨.left, rfl⟩
  | increment => exact ⟨.increment, rfl⟩
  | decrement => exact ⟨.decrement, rfl⟩
  | output => exact ⟨.output, rfl⟩
  | input => exact ⟨.input, rfl⟩
  | loopOpen => exact absurd (.inl rfl) hi
  | loopClose => exact absurd (.inr rfl) hi

theorem Block.balanced_code (b : Block) : Balanced b.code := by
  induction b with
  | done => exact .nil
  | act action rest ih => exact Balanced.append (.singleton action.not_isBracket) ih
  | loop body rest ihbody ihrest =>
    unfold code
    rw [show .loopOpen :: (body.code ++ .loopClose :: rest.code)
      = (.loopOpen :: (body.code ++ [.loopClose])) ++ rest.code by simp]
    exact ihbody.enclose.append ihrest

theorem Block.partners_code (body rest : Block)
    : Partners (loop body rest).code 0 (body.code.length + 1) :=
  ⟨[], body.code, rest.code, rfl, body.balanced_code, rfl, by omega⟩

theorem Block.code_injective {a b : Block} (h : a.code = b.code) : a = b := by
  induction a generalizing b with
  | done =>
    cases b with
    | done => rfl
    | act | loop => contradiction
  | act action rest ih =>
    cases b with
    | done => contradiction
    | act action' rest' =>
      obtain ⟨haction, hrest⟩ := List.cons.inj h
      rw [Action.instruction_injective haction, ih hrest]
    | loop body rest' =>
      obtain ⟨haction, _⟩ := List.cons.inj h
      exact absurd (.inl haction) action.not_isBracket
  | loop body rest ihbody ihrest =>
    cases b with
    | done => contradiction
    | act action rest' =>
      obtain ⟨haction, _⟩ := List.cons.inj h
      exact absurd (.inl haction.symm) action.not_isBracket
    | loop body' rest' =>
      have hlength : body.code.length = body'.code.length := by
        have hpartners := body.partners_code rest
        rw [h] at hpartners
        have := hpartners.right_unique (body'.partners_code rest')
        omega
      obtain ⟨hbody, hrest⟩ := List.append_inj (List.cons.inj h).2 hlength
      rw [ihbody hbody, ihrest (List.cons.inj hrest).2]

theorem Balanced.exists_block {code : List Instruction} (h : Balanced code)
    : ∃ b : Block, b.code = code := by
  induction hlength : code.length using Nat.strongRecOn generalizing code with
  | ind length ih =>
    subst hlength
    cases code with
    | nil => exact ⟨.done, rfl⟩
    | cons i rest =>
      by_cases hi : i.IsBracket
      . cases hi with
        | inl hi =>
          subst hi
          -- The code starts with a loop: it is cut at the partner of its first bracket.
          obtain ⟨_, _, hscanned⟩ := Program.exists_scanned_of_balanced h
          obtain ⟨_, before, body, after, hcode, hbody, hbefore, _⟩ :=
            hscanned.exists_partner (List.getElem?_cons_zero ..)
          rw [List.length_eq_zero_iff] at hbefore
          subst hbefore
          obtain ⟨_, rfl⟩ := List.cons.inj hcode
          have hafter : Balanced after := by
            apply of_append _ hbody.enclose
            simpa using h
          obtain ⟨b, hb⟩ := ih body.length (by grind) hbody rfl
          obtain ⟨c, hc⟩ := ih after.length (by grind) hafter rfl
          refine ⟨.loop b c, ?_⟩
          unfold Block.code
          rw [hb, hc]
        | inr hi =>
          subst hi
          rw [← List.nil_append (.loopClose :: rest)] at h
          exact absurd .nil h.not_extends_loopClose
      . obtain ⟨action, haction⟩ := Action.exists_instruction_eq hi
        have hrest : Balanced rest := of_append h (.singleton hi)
        obtain ⟨b, hb⟩ := ih rest.length (by simp) hrest rfl
        refine ⟨.act action b, ?_⟩
        unfold Block.code
        rw [haction, hb]

end Brainfuck
