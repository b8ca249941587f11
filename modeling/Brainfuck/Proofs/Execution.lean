import Brainfuck.Proofs.Parse
import Brainfuck.Proofs.Turn

/-!
This module contains the points of an execution: the state after any number of instructions, and the
instruction that comes next there. What is said about the course of an execution is said about its points.
They are those of a run of the parsed program, and one is followed by the state that a turn leaves.
-/

namespace Brainfuck

open RunState

structure Execution (n : Nat) (σ : Type) where
  console : Console (StateM σ)
  source : String
  input : String
  state : RunState n σ

variable {n : Nat} {σ : Type}

namespace Execution

def recorded {τ : Type} (provider : StateM τ (Option Char)) (source input : String)
    (state : RunState n (Recording τ)) : Execution n (Recording τ) where
  console := Recording.console provider
  source := source
  input := input
  state := state

def outcome (e : Execution n σ) (k : Nat) : (Ending × Machine n) × σ :=
  (e.state.machine.execute e.console k e.source e.input).run e.state.world

/--
The state after `k` instructions, or at the end if this comes before.
-/
def reached (e : Execution n σ) (k : Nat) : RunState n σ :=
  ⟨(e.outcome k).1.2, (e.outcome k).2⟩

/--
The instruction that is carried out, or fails, after `k` others. There is none once the execution is over.
-/
def next? (e : Execution n σ) (k : Nat) : Option Instruction :=
  match (e.outcome k).1.1 with
  | .interrupted => (instructions e.source)[(e.reached k).machine.ip]?
  | _ => none

def Halts (e : Execution n σ) (ending : Ending) (t : RunState n σ) : Prop :=
  Machine.Halts e.console e.source e.input e.state ending t

def start (e : Execution n σ) : RunState n σ :=
  Machine.start e.input e.state

variable {e : Execution n σ} {p : Program} {k : Nat} {i : Instruction} {ending : Ending}
  {t u : RunState n σ}

theorem outcome_of_fault {fault : Fault} (hparse : Program.parse e.source = .error fault) (k : Nat)
    : e.outcome k = e.start.result (.failed fault) := by
  apply Machine.execute_of_fault hparse

theorem outcome_of_parse (hparse : Program.parse e.source = .ok p) (k : Nat)
    : e.outcome k = (e.start.machine.run e.console p k).run e.start.world := by
  apply Machine.execute_of_parse hparse

theorem outcome_of_steps (hparse : Program.parse e.source = .ok p)
    (hsteps : Steps e.console p k e.start u) : e.outcome k = u.result .interrupted := by
  rw [outcome_of_parse hparse]
  apply Machine.run_of_steps hsteps 0

theorem outcome_of_stops (hparse : Program.parse e.source = .ok p) {j : Nat}
    (hstops : Stops e.console p j e.start ending t) (hjk : j < k) : e.outcome k = t.result ending := by
  rw [outcome_of_parse hparse]
  apply Machine.run_of_stops hstops hjk

theorem reached_of_outcome (h : e.outcome k = u.result ending) : e.reached k = u := by
  unfold reached
  rw [h]
  rfl

theorem reached_of_steps (hparse : Program.parse e.source = .ok p)
    (hsteps : Steps e.console p k e.start u) : e.reached k = u :=
  reached_of_outcome (outcome_of_steps hparse hsteps)

theorem reached_of_stops (hparse : Program.parse e.source = .ok p) {j : Nat}
    (hstops : Stops e.console p j e.start ending t) (hjk : j < k) : e.reached k = t :=
  reached_of_outcome (outcome_of_stops hparse hstops hjk)

theorem next?_of_steps (hparse : Program.parse e.source = .ok p)
    (hsteps : Steps e.console p k e.start u) : e.next? k = p.instruction? u.machine.ip := by
  have houtcome := outcome_of_steps hparse hsteps
  unfold next?
  rw [reached_of_outcome houtcome, houtcome, p.instruction?_eq_getElem?, (Program.parse_eq_ok hparse).1]
  rfl

theorem next?_of_outcome (h : e.outcome k = u.result ending) (hending : ending ≠ .interrupted)
    : e.next? k = none := by
  unfold next?
  rw [h]
  cases ending with
  | interrupted => contradiction
  | finished | failed fault => rfl

theorem steps_of_next? (h : e.next? k = some i)
    : ∃ p, Program.parse e.source = .ok p ∧ Steps e.console p k e.start (e.reached k) ∧
        p.instruction? (e.reached k).machine.ip = some i := by
  cases hparse : Program.parse e.source with
  | error fault =>
    rw [next?_of_outcome (outcome_of_fault hparse k) (by simp)] at h
    contradiction
  | ok p =>
    obtain ⟨u, hsteps, _⟩ | ⟨j, ending, u, hjk, hstops, _⟩ :=
      Machine.run_cases e.console p k e.start
    . rw [next?_of_steps hparse hsteps] at h
      rw [reached_of_steps hparse hsteps]
      exact ⟨p, rfl, hsteps, h⟩
    . rw [next?_of_outcome (outcome_of_stops hparse hstops hjk) hstops.ending_ne_interrupted] at h
      contradiction

theorem reached_zero : e.reached 0 = e.start := by
  cases hparse : Program.parse e.source with
  | error fault => exact reached_of_outcome (outcome_of_fault hparse 0)
  | ok p => exact reached_of_steps hparse (.refl _)

theorem reached_succ (hparse : Program.parse e.source = .ok p)
    (hsteps : Steps e.console p k e.start u) : e.reached (k + 1) = (u.turn e.console p).state := by
  cases hturn : u.turn e.console p with
  | stop ending t => exact reached_of_stops hparse ⟨u, hsteps, hturn⟩ (by omega)
  | next t => exact reached_of_steps hparse (hsteps.trans (.single hturn))

theorem reached_succ_of_next?_eq_none (h : e.next? k = none) : e.reached (k + 1) = e.reached k := by
  cases hparse : Program.parse e.source with
  | error fault =>
    rw [reached_of_outcome (outcome_of_fault hparse k)]
    exact reached_of_outcome (outcome_of_fault hparse (k + 1))
  | ok p =>
    obtain ⟨u, hsteps, _⟩ | ⟨j, ending, u, hjk, hstops, _⟩ :=
      Machine.run_cases e.console p k e.start
    . rw [next?_of_steps hparse hsteps] at h
      rw [reached_succ hparse hsteps, turn_of_end h, reached_of_steps hparse hsteps]
      rfl
    . rw [reached_of_stops hparse hstops hjk]
      exact reached_of_stops hparse hstops (by omega)

theorem halts_iff_stops (hparse : Program.parse e.source = .ok p)
    : e.Halts ending t ↔ ∃ k, Stops e.console p k e.start ending t := by
  apply Machine.halts_iff_stops hparse

theorem halts_iff_of_fault {fault : Fault} (hparse : Program.parse e.source = .error fault)
    : e.Halts ending t ↔ ending = .failed fault ∧ t = e.start := by
  apply Machine.halts_iff_of_fault hparse

end Execution

end Brainfuck
