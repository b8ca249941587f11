import Brainfuck.Recording
import Brainfuck.Proofs.Transition

/-!
This module contains the view of a run as a sequence of turns. `RunState.turn` is one round of the loop
in `Machine.run` on a console that acts on a state of the world; `Steps` counts rounds. A run with a
budget either comes to its end within the budget or is broken off in the state after that many rounds.
What a round tells a recording is in `Recording.traced_console` and `Recording.ask_console`.
-/

namespace Brainfuck

structure RunState (n : Nat) (σ : Type) where
  machine : Machine n
  world : σ

inductive Turn (n : Nat) (σ : Type) where
  | stop (ending : Ending) (state : RunState n σ)
  | next (state : RunState n σ)

variable {n : Nat} {σ : Type}

namespace Turn

def map (f : RunState n σ → RunState n σ) : Turn n σ → Turn n σ
  | .stop ending s => .stop ending (f s)
  | .next s => .next (f s)

def state : Turn n σ → RunState n σ
  | .stop _ s => s
  | .next s => s

end Turn

namespace RunState

def traced (console : Console (StateM σ)) (p : Program) (s : RunState n σ) : σ :=
  ((s.machine.traceNext console p).run s.world).2

def turn (console : Console (StateM σ)) (p : Program) (s : RunState n σ) : Turn n σ :=
  match s.machine.step p with
  | .halt machine => .stop .finished ⟨machine, s.traced console p⟩
  | .fail fault machine => .stop (.failed fault) ⟨machine, s.traced console p⟩
  | .advance machine => .next ⟨machine, s.traced console p⟩
  | .write c machine =>
    if machine.debug then
      .next ⟨machine, s.traced console p⟩
    else
      .next ⟨machine, ((console.print c).run (s.traced console p)).2⟩
  | .ask resume =>
    let answer := console.ask.run (s.traced console p)
    .next ⟨resume answer.1, answer.2⟩

def result (ending : Ending) (s : RunState n σ) : (Ending × Machine n) × σ :=
  ((ending, s.machine), s.world)

end RunState

open RunState

namespace Machine

variable (console : Console (StateM σ)) (p : Program)

theorem run_zero (s : RunState n σ)
    : (run console p 0 s.machine).run s.world = s.result .interrupted :=
  rfl

theorem run_succ (budget : Nat) (s : RunState n σ)
    : (run console p (budget + 1) s.machine).run s.world
        =
      match s.turn console p with
      | .stop ending t => t.result ending
      | .next t => (run console p budget t.machine).run t.world := by
  rw [run, StateT.run_bind]
  unfold turn
  cases s.machine.step p with
  | halt machine => rfl
  | fail fault machine => rfl
  | advance machine => rfl
  | write c machine =>
    dsimp only
    cases machine.debug with
    | true => rfl
    | false => rfl
  | ask resume => rfl

end Machine

inductive Steps (console : Console (StateM σ)) (p : Program)
    : Nat → RunState n σ → RunState n σ → Prop where
  | refl (s : RunState n σ) : Steps console p 0 s s
  | head {k : Nat} {s t u : RunState n σ} (hturn : s.turn console p = .next t)
      (h : Steps console p k t u) : Steps console p (k + 1) s u

/--
`Stops console p k s ending t`: the run from `s` ends in the round after `k` others, and leaves `t`.
-/
def Stops (console : Console (StateM σ)) (p : Program) (k : Nat) (s : RunState n σ) (ending : Ending)
    (t : RunState n σ) : Prop :=
  ∃ u, Steps console p k s u ∧ u.turn console p = .stop ending t

variable {console : Console (StateM σ)} {p : Program} {s t u : RunState n σ} {ending : Ending}
  {j k : Nat}

theorem RunState.turn_ne_interrupted : s.turn console p ≠ .stop .interrupted t := by
  unfold turn
  split
  . simp
  . simp
  . simp
  . split <;> simp
  . simp

namespace RunState

variable {machine : Machine n}

theorem turn_of_halt (h : s.machine.step p = .halt machine)
    : s.turn console p = .stop .finished ⟨machine, s.traced console p⟩ := by
  unfold turn
  rw [h]

theorem turn_of_fail {fault : Fault} (h : s.machine.step p = .fail fault machine)
    : s.turn console p = .stop (.failed fault) ⟨machine, s.traced console p⟩ := by
  unfold turn
  rw [h]

theorem turn_of_advance (h : s.machine.step p = .advance machine)
    : s.turn console p = .next ⟨machine, s.traced console p⟩ := by
  unfold turn
  rw [h]

theorem turn_of_write {c : Char} (h : s.machine.step p = .write c machine)
    : s.turn console p
        =
      if machine.debug then
        .next ⟨machine, s.traced console p⟩
      else
        .next ⟨machine, ((console.print c).run (s.traced console p)).2⟩ := by
  unfold turn
  rw [h]

theorem turn_of_ask {resume : Option Char → Machine n} (h : s.machine.step p = .ask resume)
    : s.turn console p
        =
      .next ⟨resume (console.ask.run (s.traced console p)).1,
        (console.ask.run (s.traced console p)).2⟩ := by
  unfold turn
  rw [h]

theorem turn_of_end (h : p.instruction? s.machine.ip = none) : s.turn console p = .stop .finished s := by
  have hstep : s.machine.step p = .halt s.machine := by
    unfold Machine.step
    rw [h]
  have htraced : s.traced console p = s.world := by
    unfold traced Machine.traceNext
    rw [h]
    split <;> rfl
  rw [turn_of_halt hstep, htraced]

theorem turn_of_blocked {i : Instruction} {fault : Fault} (hi : p.instruction? s.machine.ip = some i)
    (h : s.machine.Blocked i fault)
    : s.turn console p = .stop (.failed fault) ⟨s.machine, s.traced console p⟩ := by
  apply turn_of_fail
  rw [Machine.step_of_instruction hi, Machine.perform_eq_fail_iff]
  exact ⟨h, rfl⟩

theorem stop_cases (h : s.turn console p = .stop ending t)
    : (p.instruction? s.machine.ip = none ∧ ending = .finished ∧ t = s) ∨
      ∃ i fault, p.instruction? s.machine.ip = some i ∧ s.machine.Blocked i fault ∧
        ending = .failed fault ∧ t = ⟨s.machine, s.traced console p⟩ := by
  cases hi : p.instruction? s.machine.ip with
  | none =>
    rw [turn_of_end hi] at h
    cases h
    exact .inl ⟨rfl, rfl, rfl⟩
  | some i =>
    have hstep := Machine.step_of_instruction hi
    have hfollows := s.machine.follows_step p
    unfold turn at h
    cases hs : s.machine.step p with
    | halt machine =>
      rw [hs] at hfollows
      rw [hfollows.1] at hi
      contradiction
    | fail fault machine =>
      rw [hs] at h
      rw [hs, eq_comm, Machine.perform_eq_fail_iff] at hstep
      obtain ⟨hblocked, rfl⟩ := hstep
      cases h
      exact .inr ⟨i, fault, rfl, hblocked, rfl, rfl⟩
    | advance machine | ask resume =>
      rw [hs] at h
      contradiction
    | write c machine =>
      rw [hs] at h
      dsimp only at h
      split at h <;> contradiction

theorem machine_turn (console : Console (StateM σ)) (p : Program) (s : RunState n σ)
    : (s.turn console p).state.machine
        =
      (s.machine.step p).machine (console.ask.run (s.traced console p)).1 := by
  unfold turn
  cases s.machine.step p with
  | halt machine | fail fault machine | advance machine | ask resume => rfl
  | write c machine =>
    dsimp only
    split <;> rfl

theorem succeeds_of_turn (h : s.turn console p = .next t)
    : ∃ written, s.machine.Succeeds p t.machine written := by
  have hfollows := s.machine.follows_step p
  unfold turn at h
  cases hstep : s.machine.step p with
  | halt machine | fail fault machine =>
    rw [hstep] at h
    contradiction
  | advance machine =>
    rw [hstep] at h hfollows
    cases h
    exact ⟨_, hfollows⟩
  | write c machine =>
    rw [hstep] at h hfollows
    dsimp only at h
    split at h
    . cases h
      exact ⟨_, hfollows⟩
    . cases h
      exact ⟨_, hfollows⟩
  | ask resume =>
    rw [hstep] at h hfollows
    cases h
    exact ⟨_, hfollows _⟩

end RunState

namespace Steps

theorem single (hturn : s.turn console p = .next t) : Steps console p 1 s t :=
  .head hturn (.refl t)

theorem trans (hst : Steps console p j s t) (htu : Steps console p k t u)
    : Steps console p (j + k) s u := by
  induction hst with
  | refl s => rwa [Nat.zero_add]
  | head hturn h ih =>
    rw [Nat.add_right_comm]
    exact .head hturn (ih htu)

end Steps

namespace Stops

theorem of_turn (hturn : s.turn console p = .stop ending t) : Stops console p 0 s ending t :=
  ⟨s, .refl s, hturn⟩

theorem head (hturn : s.turn console p = .next t) (h : Stops console p k t ending u)
    : Stops console p (k + 1) s ending u := by
  obtain ⟨v, hsteps, hstop⟩ := h
  exact ⟨v, .head hturn hsteps, hstop⟩

theorem after (hsteps : Steps console p j s t) (h : Stops console p k t ending u)
    : Stops console p (j + k) s ending u := by
  obtain ⟨v, hsteps', hstop⟩ := h
  exact ⟨v, hsteps.trans hsteps', hstop⟩

theorem tail (h : Stops console p k s ending t) (hturn : s.turn console p = .next u)
    : ∃ j, k = j + 1 ∧ Stops console p j u ending t := by
  obtain ⟨v, hsteps, hstop⟩ := h
  cases hsteps with
  | refl =>
    rw [hturn] at hstop
    contradiction
  | head hturn' hsteps =>
    rw [hturn] at hturn'
    cases hturn'
    exact ⟨_, rfl, v, hsteps, hstop⟩

theorem ending_ne_interrupted (h : Stops console p k s ending t) : ending ≠ .interrupted := by
  obtain ⟨v, hsteps, hstop⟩ := h
  intro hending
  rw [hending] at hstop
  exact turn_ne_interrupted hstop

end Stops

namespace Machine

theorem run_of_steps (h : Steps console p k s t) (budget : Nat)
    : (run console p (k + budget) s.machine).run s.world
        =
      (run console p budget t.machine).run t.world := by
  induction h with
  | refl s => rw [Nat.zero_add]
  | head hturn h ih =>
    rw [Nat.add_right_comm, run_succ, hturn]
    exact ih

theorem run_of_stops (h : Stops console p k s ending t) {budget : Nat} (hbudget : k < budget)
    : (run console p budget s.machine).run s.world = t.result ending := by
  obtain ⟨u, hsteps, hstop⟩ := h
  rw [show budget = k + (budget - k - 1 + 1) by omega, run_of_steps hsteps, run_succ, hstop]

theorem run_cases (console : Console (StateM σ)) (p : Program) (budget : Nat) (s : RunState n σ)
    : (∃ t, Steps console p budget s t ∧
        (run console p budget s.machine).run s.world = t.result .interrupted) ∨
      ∃ k ending t, k < budget ∧ Stops console p k s ending t ∧
        (run console p budget s.machine).run s.world = t.result ending := by
  induction budget generalizing s with
  | zero => exact .inl ⟨s, .refl s, run_zero console p s⟩
  | succ budget ih =>
    rw [run_succ]
    cases hturn : s.turn console p with
    | stop ending t => exact .inr ⟨0, ending, t, by omega, .of_turn hturn, rfl⟩
    | next t =>
      obtain ⟨u, hsteps, hrun⟩ | ⟨k, ending, u, hk, hstops, hrun⟩ := ih t
      . exact .inl ⟨u, .head hturn hsteps, hrun⟩
      . exact .inr ⟨k + 1, ending, u, by omega, hstops.head hturn, hrun⟩

end Machine

theorem RunState.result_inj {ending' : Ending} (h : s.result ending = t.result ending')
    : ending = ending' ∧ s = t := by
  obtain ⟨machine, world⟩ := s
  obtain ⟨machine', world'⟩ := t
  unfold result at h
  simp only [Prod.mk.injEq] at h
  obtain ⟨⟨rfl, rfl⟩, rfl⟩ := h
  exact ⟨rfl, rfl⟩

theorem Stops.unique {ending' : Ending} (h : Stops console p k s ending t)
    (h' : Stops console p j s ending' u) : ending = ending' ∧ t = u := by
  apply result_inj
  rw [← Machine.run_of_stops h (show k < k + j + 1 by omega)]
  apply Machine.run_of_stops h'
  omega

namespace Machine

def Halts (console : Console (StateM σ)) (source input : String) (s : RunState n σ) (ending : Ending)
    (t : RunState n σ) : Prop :=
  ending ≠ .interrupted ∧
    ∃ budget, (execute console budget source input s.machine).run s.world = t.result ending

def start (input : String) (s : RunState n σ) : RunState n σ :=
  { s with machine := s.machine.reset.setInput input }

variable {source input : String}

theorem execute_of_parse (hparse : Program.parse source = .ok p) (budget : Nat) (s : RunState n σ)
    : (execute console budget source input s.machine).run s.world
        =
      (run console p budget (start input s).machine).run (start input s).world := by
  unfold execute
  simp only [hparse]
  rfl

theorem execute_of_fault {fault : Fault} (hparse : Program.parse source = .error fault)
    (budget : Nat) (s : RunState n σ)
    : (execute console budget source input s.machine).run s.world
        =
      (start input s).result (.failed fault) := by
  unfold execute
  simp only [hparse]
  rfl

theorem halts_iff_stops (hparse : Program.parse source = .ok p)
    : Halts console source input s ending t
        ↔
      ∃ k, Stops console p k (start input s) ending t := by
  unfold Halts
  constructor
  . intro ⟨hending, budget, hrun⟩
    rw [execute_of_parse hparse] at hrun
    obtain ⟨u, _, hrun'⟩ | ⟨k, ending', u, _, hstops, hrun'⟩ :=
      run_cases console p budget (start input s)
    . rw [hrun'] at hrun
      exact absurd (result_inj hrun).1.symm hending
    . rw [hrun'] at hrun
      obtain ⟨rfl, rfl⟩ := result_inj hrun
      exact ⟨k, hstops⟩
  . intro ⟨k, hstops⟩
    refine ⟨hstops.ending_ne_interrupted, k + 1, ?_⟩
    rw [execute_of_parse hparse]
    apply run_of_stops hstops
    omega

theorem halts_iff_of_fault {fault : Fault} (hparse : Program.parse source = .error fault)
    : Halts console source input s ending t ↔ ending = .failed fault ∧ t = start input s := by
  unfold Halts
  simp only [execute_of_fault hparse]
  constructor
  . intro ⟨_, _, hrun⟩
    obtain ⟨hending, hstate⟩ := result_inj hrun
    exact ⟨hending.symm, hstate.symm⟩
  . intro ⟨hending, hstate⟩
    subst hending hstate
    exact ⟨by simp, 0, rfl⟩

theorem exists_halts_iff
    : (∃ t, Halts console source input s ending t)
        ↔
      ending ≠ .interrupted ∧
        ∃ budget, ((execute console budget source input s.machine).run s.world).1.1 = ending := by
  constructor
  . intro ⟨t, hending, budget, hrun⟩
    refine ⟨hending, budget, ?_⟩
    rw [hrun]
    rfl
  . intro ⟨hending, budget, hrun⟩
    subst hrun
    exact ⟨⟨_, _⟩, hending, budget, rfl⟩

theorem Halts.unique {ending' : Ending} (h : Halts console source input s ending t)
    (h' : Halts console source input s ending' u) : ending = ending' ∧ t = u := by
  cases hparse : Program.parse source with
  | error fault =>
    rw [halts_iff_of_fault hparse] at h h'
    rw [h.1, h.2, h'.1, h'.2]
    exact ⟨rfl, rfl⟩
  | ok p =>
    rw [halts_iff_stops hparse] at h h'
    obtain ⟨j, hj⟩ := h
    obtain ⟨k, hk⟩ := h'
    exact hj.unique hk

end Machine

def Machine.nextRecord? (p : Program) (m : Machine n) : Option TraceRecord :=
  (p.instruction? m.ip).map fun i => .capture m.ip i m.tape

namespace Recording

variable {τ : Type} (provider : StateM τ (Option Char))

theorem traced_console (p : Program) (s : RunState n (Recording τ))
    : s.traced (Recording.console provider) p
        =
      { s.world with
        records :=
          s.world.records ++ if s.machine.debug then (s.machine.nextRecord? p).toList else [] } := by
  unfold traced Machine.traceNext Machine.nextRecord?
  cases s.machine.debug with
  | false => rfl
  | true =>
    cases p.instruction? s.machine.ip with
    | none => rfl
    | some i => rfl

theorem traced_of_instruction {p : Program} {s : RunState n (Recording τ)} {i : Instruction}
    (hi : p.instruction? s.machine.ip = some i)
    : s.traced (Recording.console provider) p
        =
      { s.world with
        records := s.world.records ++
          if s.machine.debug then [TraceRecord.capture s.machine.ip i s.machine.tape] else [] } := by
  rw [traced_console]
  unfold Machine.nextRecord?
  rw [hi]
  rfl

theorem print_console (c : Char) (r : Recording τ)
    : ((Recording.console provider).print c).run r = ((), { r with printed := r.printed.push c }) :=
  rfl

theorem trace_console (record : TraceRecord) (r : Recording τ)
    : ((Recording.console provider).trace record).run r
        =
      ((), { r with records := r.records.push record }) :=
  rfl

theorem ask_console (r : Recording τ)
    : (Recording.console provider).ask.run r
        =
      ((provider.run r.source).1,
        { r with source := (provider.run r.source).2, asked := r.asked + 1 }) :=
  rfl

theorem turn_console_of_write {p : Program} {s : RunState n (Recording τ)} {c : Char}
    {machine : Machine n} (h : s.machine.step p = .write c machine)
    : s.turn (Recording.console provider) p
        =
      let world := s.traced (Recording.console provider) p
      .next ⟨machine,
        { world with printed := if machine.debug then world.printed else world.printed.push c }⟩ := by
  rw [RunState.turn_of_write h, print_console]
  cases machine.debug with
  | true => rfl
  | false => rfl

end Recording

end Brainfuck
