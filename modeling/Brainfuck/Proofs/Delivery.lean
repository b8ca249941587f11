import Brainfuck.Proofs.Cursor
import Brainfuck.Proofs.Execution

/-!
This module contains the proof that input is delivered in order. After any number of instructions the unread
rest of the input and the state of the provider are decided by how many input instructions there were, and
so is the value that the next of them stores.
-/

namespace Brainfuck

open RunState

variable {n : Nat} {σ τ : Type}

def providerAfter (provider : StateM τ (Option Char)) (start : τ) : Nat → τ
  | 0 => start
  | count + 1 => (provider.run (providerAfter provider start count)).2

/--
What the input instruction gets that comes after `count` others: the next character of the text, and if
there is none left, the next answer of the provider.
-/
def delivery (provider : StateM τ (Option Char)) (start : τ) (text : List Char) (count : Nat)
    : Option Char :=
  match text[count]? with
  | some c => some c
  | none => (provider.run (providerAfter provider start (count - text.length))).1

def cellCode : Option Char → Nat
  | some c => c.toNat % 256
  | none => 0

namespace Execution

def reads (e : Execution n σ) (k : Nat) : Nat :=
  (List.range k).countP fun j => e.next? j = some .input

/--
The values that these instructions stored, each as it is in the current cell right after.
-/
def stored (e : Execution n σ) (k : Nat) : List UInt8 :=
  (List.range k).filterMap fun j =>
    if e.next? j = some .input then some (e.reached (j + 1)).machine.tape.current else none

theorem reads_succ (e : Execution n σ) (k : Nat)
    : e.reads (k + 1) = e.reads k + if e.next? k = some .input then 1 else 0 := by
  unfold reads
  rw [List.range_succ, List.countP_append, List.countP_singleton]
  simp only [decide_eq_true_eq]

theorem stored_succ (e : Execution n σ) (k : Nat)
    : e.stored (k + 1)
        =
      e.stored k ++
        if e.next? k = some .input then [(e.reached (k + 1)).machine.tape.current] else [] := by
  unfold stored
  rw [List.range_succ, List.filterMap_append]
  by_cases hinput : e.next? k = some .input
  . simp [hinput]
  . simp [hinput]

end Execution

theorem Machine.toNat_byteOf (c : Option Char) : (byteOf c).toNat = cellCode c := by
  cases c with
  | none => rfl
  | some c => exact UInt8.toNat_ofNat'

structure RunState.Delivered (provider : StateM τ (Option Char)) (input : String) (r : Recording τ)
    (count : Nat) (s : RunState n (Recording τ)) : Prop where
  text : s.machine.input.text = input
  unread : s.machine.input.unread = input.toList.drop count
  source : s.world.source = providerAfter provider r.source (count - input.toList.length)
  asked : s.world.asked = r.asked + (count - input.toList.length)

namespace RunState.Delivered

variable {provider : StateM τ (Option Char)} {input : String} {r : Recording τ} {count : Nat}
  {s : RunState n (Recording τ)} {p : Program} {i : Instruction}

theorem turn_of_ne (h : s.Delivered provider input r count) (hi : p.instruction? s.machine.ip = some i)
    (hne : i ≠ .input)
    : (s.turn (Recording.console provider) p).state.Delivered provider input r count := by
  have hinput : (s.turn (Recording.console provider) p).state.machine.input = s.machine.input := by
    rw [machine_turn, Machine.step_of_instruction hi, Machine.input_perform hne]
  have hworld : (s.turn (Recording.console provider) p).state.world.source = s.world.source ∧
      (s.turn (Recording.console provider) p).state.world.asked = s.world.asked := by
    have hstep := Machine.step_of_instruction hi
    cases hperform : s.machine.perform p i with
    | ask resume => exact absurd hperform (Machine.perform_ne_ask hne resume)
    | halt machine | fail fault machine | advance machine =>
      unfold turn
      rw [hstep, hperform, Recording.traced_console]
      exact ⟨rfl, rfl⟩
    | write c machine =>
      rw [Recording.turn_console_of_write provider (hstep.trans hperform), Recording.traced_console]
      exact ⟨rfl, rfl⟩
  constructor
  . rw [hinput, h.text]
  . rw [hinput, h.unread]
  . rw [hworld.1, h.source]
  . rw [hworld.2, h.asked]

theorem turn_of_next? {c : Char} {rest : Input} (h : s.Delivered provider input r count)
    (hi : p.instruction? s.machine.ip = some .input) (hnext : s.machine.input.next? = some (c, rest))
    : (s.turn (Recording.console provider) p).state.Delivered provider input r (count + 1) ∧
      (s.turn (Recording.console provider) p).state.machine.tape.current.toNat
        = cellCode (delivery provider r.source input.toList count) := by
  have hdrop : input.toList.drop count = c :: rest.unread := by
    rw [← h.unread, Input.unread_eq_cons hnext]
  have hget : input.toList[count]? = some c := by
    rw [← List.head?_drop, hdrop]
    rfl
  have hlt : count < input.toList.length := (List.getElem?_eq_some_iff.1 hget).1
  have hstep : s.machine.step p = .advance ({ s.machine with input := rest }.store (some c)) := by
    rw [Machine.step_of_instruction hi]
    unfold Machine.perform
    simp only [hnext]
  have hsource := h.source
  have hasked := h.asked
  rw [show count - input.toList.length = 0 by omega] at hsource hasked
  rw [turn_of_advance hstep, Recording.traced_console]
  refine ⟨⟨?_, ?_, ?_, ?_⟩, ?_⟩
  . exact (Input.text_of_next? hnext).trans h.text
  . rw [← List.tail_drop, hdrop]
    rfl
  . rw [show count + 1 - input.toList.length = 0 by omega]
    exact hsource
  . rw [show count + 1 - input.toList.length = 0 by omega]
    exact hasked
  . unfold delivery
    rw [hget]
    exact (congrArg UInt8.toNat (Tape.current_write _ _)).trans (Machine.toNat_byteOf (some c))

theorem turn_of_next?_eq_none (h : s.Delivered provider input r count)
    (hi : p.instruction? s.machine.ip = some .input) (hnext : s.machine.input.next? = none)
    : (s.turn (Recording.console provider) p).state.Delivered provider input r (count + 1) ∧
      (s.turn (Recording.console provider) p).state.machine.tape.current.toNat
        = cellCode (delivery provider r.source input.toList count) := by
  have hdrop : input.toList.drop count = [] := by
    rw [← h.unread, Input.unread_eq_nil hnext]
  have hle : input.toList.length ≤ count := List.drop_eq_nil_iff.1 hdrop
  have hstep : s.machine.step p = .ask s.machine.store := by
    rw [Machine.step_of_instruction hi]
    unfold Machine.perform
    simp only [hnext]
  have hcalls : count + 1 - input.toList.length = count - input.toList.length + 1 := by omega
  rw [turn_of_ask hstep, Recording.traced_console, Recording.ask_console]
  dsimp only
  rw [h.source, h.asked]
  refine ⟨⟨h.text, ?_, ?_, ?_⟩, ?_⟩
  . rw [List.drop_eq_nil_of_le (by omega)]
    exact Input.unread_eq_nil hnext
  . rw [hcalls]
    rfl
  . rw [hcalls]
    rfl
  . unfold delivery
    rw [List.getElem?_eq_none hle]
    exact (congrArg UInt8.toNat (Tape.current_write _ _)).trans (Machine.toNat_byteOf _)

theorem turn_of_input (h : s.Delivered provider input r count)
    (hi : p.instruction? s.machine.ip = some .input)
    : (s.turn (Recording.console provider) p).state.Delivered provider input r (count + 1) ∧
      (s.turn (Recording.console provider) p).state.machine.tape.current.toNat
        = cellCode (delivery provider r.source input.toList count) := by
  cases hnext : s.machine.input.next? with
  | some next => exact h.turn_of_next? hi hnext
  | none => exact h.turn_of_next?_eq_none hi hnext

end RunState.Delivered

theorem Execution.delivered_reached {e : Execution n (Recording τ)} {provider : StateM τ (Option Char)}
    (hconsole : e.console = Recording.console provider) (k : Nat)
    : (e.reached k).Delivered provider e.input e.state.world (e.reads k) ∧
      (e.stored k).map UInt8.toNat
        = (List.range (e.reads k)).map fun j =>
            cellCode (delivery provider e.state.world.source e.input.toList j) := by
  induction k with
  | zero =>
    rw [reached_zero, show e.reads 0 = 0 from rfl]
    refine ⟨⟨rfl, Input.unread_ofString e.input, ?_, ?_⟩, rfl⟩
    . rw [Nat.zero_sub]
      rfl
    . rw [Nat.zero_sub]
      rfl
  | succ k ih =>
    obtain ⟨hdelivered, hstored⟩ := ih
    rw [reads_succ, stored_succ]
    cases hnext : e.next? k with
    | none =>
      rw [reached_succ_of_next?_eq_none hnext, if_neg (by simp), if_neg (by simp), List.append_nil]
      exact ⟨hdelivered, hstored⟩
    | some i =>
      obtain ⟨p, hparse, hsteps, hi⟩ := steps_of_next? hnext
      rw [reached_succ hparse hsteps, hconsole]
      by_cases hinput : i = .input
      . subst hinput
        obtain ⟨hturn, hvalue⟩ := hdelivered.turn_of_input hi
        rw [if_pos rfl, if_pos rfl, List.map_append, hstored, List.range_succ, List.map_append]
        refine ⟨hturn, ?_⟩
        rw [List.map_singleton, List.map_singleton, hvalue]
      . rw [if_neg (by simpa using hinput), if_neg (by simpa using hinput), List.append_nil]
        exact ⟨hdelivered.turn_of_ne hi hinput, hstored⟩

/--
Input is delivered in order. At every point of an execution, the number of input instructions so far decides
how often the provider has been called and in which state it is, which values these instructions have
stored, and how far the input has been read.
-/
theorem input_delivered_in_order (provider : StateM τ (Option Char)) (source input : String)
    (s : RunState n (Recording τ)) (k : Nat)
    : let e := Execution.recorded provider source input s
      (e.reached k).world.asked = s.world.asked + (e.reads k - input.toList.length) ∧
      (e.reached k).world.source
        = providerAfter provider s.world.source (e.reads k - input.toList.length) ∧
      (e.stored k).map UInt8.toNat
        = (List.range (e.reads k)).map (fun j =>
            cellCode (delivery provider s.world.source input.toList j)) ∧
      (e.reached k).machine.input.text = input ∧
      (e.reached k).machine.input.offset
        = (String.ofList (input.toList.take (e.reads k))).utf8ByteSize := by
  intro e
  obtain ⟨hdelivered, hstored⟩ := Execution.delivered_reached (show e.console = _ from rfl) k
  refine ⟨hdelivered.asked, hdelivered.source, hstored, hdelivered.text, ?_⟩
  have htaken : (e.reached k).machine.input.taken = input.toList.take (e.reads k) := by
    have htext := (e.reached k).machine.input.taken_append_unread
    rw [hdelivered.text, hdelivered.unread] at htext
    apply List.append_cancel_right
    exact htext.trans (List.take_append_drop _ _).symm
  rw [Input.offset_eq_utf8ByteSize_taken, htaken]

end Brainfuck
