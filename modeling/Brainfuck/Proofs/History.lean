import Brainfuck.Proofs.Correspondence
import Brainfuck.Proofs.Lifetime

/-!
This module contains the proof that an execution does not depend on what was asked of the machine before. It
starts with a reset, which leaves the length of the tape and the debug switch, and what it tells the world
is added to what the world was told before.
-/

namespace Brainfuck

open RunState

variable {n : Nat} {τ : Type}

namespace Call

/--
The state that a call leaves. One that runs programs is broken off when its budget is used up: a large
budget lets it come to its end.
-/
def perform (provider : StateM τ (Option Char)) (budget : Nat) (s : RunState n (Recording τ))
    : Call → RunState n (Recording τ)
  | .setInput text => { s with machine := s.machine.setInput text }
  | .setDebug on => { s with machine := s.machine.setDebug on }
  | .reset => { s with machine := s.machine.reset }
  | .execute source input => (Execution.recorded provider source input s).reached budget
  | .session lines =>
    let out := ((Recording.session provider).run budget s.machine).run { s.world with lines }
    ⟨out.1.2, out.2⟩

def debug? : Call → Option Bool
  | .setDebug on => some on
  | _ => none

end Call

def RunState.afterCalls (provider : StateM τ (Option Char)) (s : RunState n (Recording τ))
    (calls : List (Call × Nat)) : RunState n (Recording τ) :=
  calls.foldl (fun s c => c.1.perform provider c.2 s) s

theorem Execution.debug_reached {σ : Type} (e : Execution n σ) (k : Nat)
    : (e.reached k).machine.debug = e.state.machine.debug := by
  induction k with
  | zero =>
    rw [reached_zero]
    rfl
  | succ k ih =>
    cases hnext : e.next? k with
    | none => rw [reached_succ_of_next?_eq_none hnext, ih]
    | some i =>
      obtain ⟨p, hparse, hsteps, _⟩ := steps_of_next? hnext
      have hfollows := (e.reached k).machine.follows_step p
      rw [reached_succ hparse hsteps, machine_turn, hfollows.debug_machine, ih]

theorem Session.debug_run {σ : Type} (session : Session (StateM σ)) (budget : Nat) (s : RunState n σ)
    : ((session.run budget s.machine).run s.world).1.2.debug = s.machine.debug := by
  induction budget generalizing s with
  | zero => rfl
  | succ budget ih =>
    rw [run_succ]
    dsimp only
    split
    . rfl
    . next line _ =>
      let taken : RunState n σ := { s with world := (session.nextLine.run s.world).2 }
      have hdebug := (session.execution line taken).debug_reached budget
      split
      . exact ih taken
      . split
        . exact (ih _).trans hdebug
        . exact hdebug

theorem Call.debug_perform (provider : StateM τ (Option Char)) (budget : Nat)
    (s : RunState n (Recording τ)) (c : Call)
    : (c.perform provider budget s).machine.debug = c.debug?.getD s.machine.debug := by
  cases c with
  | setInput text | setDebug on | reset => rfl
  | execute source input => exact Execution.debug_reached _ budget
  | session lines =>
    exact (Recording.session provider).debug_run budget { s with world.lines := lines }

theorem RunState.debug_afterCalls (provider : StateM τ (Option Char)) (s : RunState n (Recording τ))
    (calls : List (Call × Nat))
    : (s.afterCalls provider calls).machine.debug
        =
      (calls.filterMap (·.1.debug?)).getLast?.getD s.machine.debug := by
  unfold afterCalls
  induction calls generalizing s with
  | nil => rfl
  | cons c rest ih =>
    rw [List.foldl_cons, ih, Call.debug_perform, List.filterMap_cons]
    cases c.1.debug? with
    | none => rfl
    | some on =>
      rw [List.getLast?_cons]
      rfl

/--
What the world has been told if it was told `r` after `earlier`. Programs take no lines of a session.
-/
def Recording.onto (earlier r : Recording τ) : Recording τ where
  source := r.source
  lines := earlier.lines
  printed := earlier.printed ++ r.printed
  records := earlier.records ++ r.records
  asked := earlier.asked + r.asked
  written := earlier.written

theorem Recording.onto_fresh (earlier : Recording τ)
    : earlier.onto { source := earlier.source } = earlier := by
  unfold onto
  dsimp only
  rw [String.append_empty, Array.append_empty, Nat.add_zero]

theorem Recording.matches_onto (provider : StateM τ (Option Char)) (earlier : Recording τ)
    : (console provider).Matches (fun r r' => r' = earlier.onto r) (console provider) := by
  constructor
  . intro r r' h c
    rw [h, print_console, print_console]
    unfold onto
    rw [String.push_eq_append, String.push_eq_append, String.append_assoc]
  . intro r r' h record
    rw [h, trace_console, trace_console]
    unfold onto
    rw [Array.append_push]
  . intro r r' h
    rw [h, ask_console, ask_console]
    rfl
  . intro r r' h
    rw [h, ask_console, ask_console]
    rfl

theorem Execution.outcome_eq_onto (provider : StateM τ (Option Char)) (source input : String)
    {length : Nat} (s : RunState (max length 1) (Recording τ)) (k : Nat)
    : let fresh := recorded provider source input
        ⟨(Machine.create length).setDebug s.machine.debug, { source := s.world.source }⟩
      (recorded provider source input s).outcome k
        = ((fresh.outcome k).1, s.world.onto (fresh.outcome k).2) := by
  intro fresh
  have hmatches : fresh.Matches (fun r r' => r' = s.world.onto r) (recorded provider source input s) :=
    ⟨Recording.matches_onto provider s.world, rfl, rfl, s.world.onto_fresh.symm⟩
  obtain ⟨hsame, hworld⟩ := hmatches.outcome k
  exact Prod.ext hsame hworld

/--
Executions do not depend on the past. After any calls, each of them carried through or broken off anywhere,
a machine is in the mode that was chosen last. An execution comes to an end if and only if it does on a new
machine in this mode, with the provider as it is now. Both hand back the same ending and the same machine,
and print, trace and ask the same.
-/
theorem execution_independent_of_history (provider : StateM τ (Option Char)) (length : Nat)
    (world : Recording τ) (calls : List (Call × Nat)) (source input : String)
    : let s := RunState.afterCalls provider ⟨Machine.create length, world⟩ calls
      let debug := (calls.filterMap (·.1.debug?)).getLast?.getD false
      let used := Execution.recorded provider source input s
      let fresh := Execution.recorded provider source input
        ⟨(Machine.create length).setDebug debug, { source := s.world.source }⟩
      s.machine.debug = debug ∧
      (∀ ending, (∃ t, used.Halts ending t) ↔ ∃ t, fresh.Halts ending t) ∧
      ∀ k,
        (used.outcome k).1 = (fresh.outcome k).1 ∧
        (used.outcome k).2.source = (fresh.outcome k).2.source ∧
        (used.outcome k).2.printed = s.world.printed ++ (fresh.outcome k).2.printed ∧
        (used.outcome k).2.records = s.world.records ++ (fresh.outcome k).2.records ∧
        (used.outcome k).2.asked = s.world.asked + (fresh.outcome k).2.asked := by
  intro s debug used fresh
  have hdebug : s.machine.debug = debug := RunState.debug_afterCalls provider _ calls
  have houtcome (k : Nat) : used.outcome k = ((fresh.outcome k).1, s.world.onto (fresh.outcome k).2) := by
    dsimp only [fresh]
    rw [← hdebug]
    exact Execution.outcome_eq_onto provider source input s k
  refine ⟨hdebug, ?_, ?_⟩
  . intro ending
    have hsame (k : Nat) : (used.outcome k).1.1 = (fresh.outcome k).1.1 := by rw [houtcome]
    unfold Execution.Halts
    rw [Machine.exists_halts_iff, Machine.exists_halts_iff]
    unfold Execution.outcome at hsame
    simp only [hsame]
  . intro k
    rw [houtcome]
    exact ⟨rfl, rfl, rfl, rfl, rfl⟩

end Brainfuck
