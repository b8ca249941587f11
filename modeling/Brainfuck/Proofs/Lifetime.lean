import Brainfuck.Proofs.Course

/-!
This module contains the life of a machine as a transition system: calls are made of an idle machine, and
a call that runs programs goes on instruction by instruction and line by line. The states between any two
instructions are states of this system, also those of a program that never ends. The machine that an
execution or a session hands back is always one of them.
-/

namespace Brainfuck

open Recording (console)

inductive Activity where
  | idle
  | reading
  | running (p : Program) (inSession : Bool)

structure Moment (n : Nat) (τ : Type) where
  activity : Activity
  state : RunState n (Recording τ)

/--
What can be asked of a machine. Running code hands its arguments on to `execute`.
-/
inductive Call where
  | setInput (text : String)
  | setDebug (on : Bool)
  | reset
  | execute (source input : String)
  | session (lines : List String)

variable {n : Nat} {τ : Type}

namespace Moment

def launch (source input : String) (inSession : Bool) (s : RunState n (Recording τ)) : Moment n τ :=
  match Program.parse source with
  | .error _ => ⟨.idle, Machine.start input s⟩
  | .ok p => ⟨.running p inSession, Machine.start input s⟩

def call (s : RunState n (Recording τ)) : Call → Moment n τ
  | .setInput text => ⟨.idle, { s with machine := s.machine.setInput text }⟩
  | .setDebug on => ⟨.idle, { s with machine := s.machine.setDebug on }⟩
  | .reset => ⟨.idle, { s with machine := s.machine.reset }⟩
  | .execute source input => launch source input false s
  | .session lines => ⟨.reading, { s with world.lines := lines }⟩

def next? (provider : StateM τ (Option Char)) (m : Moment n τ) : Option (Moment n τ) :=
  match m.activity with
  | .idle => none
  | .reading =>
    match m.state.world.lines with
    | [] => some ⟨.idle, m.state⟩
    | line :: rest =>
      let s := { m.state with world.lines := rest }
      if (stripComments line).isEmpty then some ⟨.reading, s⟩ else some (launch line "" true s)
  | .running p inSession =>
    match m.state.turn (console provider) p with
    | .next t => some ⟨.running p inSession, t⟩
    | .stop .finished t =>
      if inSession then
        let text := closing t.machine.output t.machine.debug
        some ⟨.reading, { t with world.written := t.world.written ++ text }⟩
      else
        some ⟨.idle, t⟩
    | .stop _ t => some ⟨.idle, t⟩

end Moment

inductive Reachable (provider : StateM τ (Option Char)) (length : Nat)
    : Moment (max length 1) τ → Prop where
  | make {m : Machine (max length 1)} (hmake : Machine.make? length = some m) (world : Recording τ)
      : Reachable provider length ⟨.idle, m, world⟩
  | call {s : RunState (max length 1) (Recording τ)} (h : Reachable provider length ⟨.idle, s⟩)
      (c : Call) : Reachable provider length (.call s c)
  | next {m m' : Moment (max length 1) τ} (h : Reachable provider length m)
      (hnext : m.next? provider = some m') : Reachable provider length m'

namespace Reachable

variable {provider : StateM τ (Option Char)} {length : Nat} {p : Program} {inSession : Bool}
  {s t : RunState (max length 1) (Recording τ)}

theorem steps {k : Nat} (h : Reachable provider length ⟨.running p inSession, s⟩)
    (hsteps : Steps (console provider) p k s t)
    : Reachable provider length ⟨.running p inSession, t⟩ := by
  induction hsteps with
  | refl s => exact h
  | head hturn _ ih =>
    apply ih
    apply h.next
    simp only [Moment.next?, hturn]

theorem failed {k : Nat} {fault : Fault} (h : Reachable provider length ⟨.running p inSession, s⟩)
    (hstops : Stops (console provider) p k s (.failed fault) t)
    : Reachable provider length ⟨.idle, t⟩ := by
  obtain ⟨u, hsteps, hturn⟩ := hstops
  apply (h.steps hsteps).next
  simp only [Moment.next?, hturn]

theorem finished {k : Nat} (h : Reachable provider length ⟨.running p inSession, s⟩)
    (hstops : Stops (console provider) p k s .finished t)
    : Reachable provider length
        (if inSession then
          ⟨.reading,
            { t with world.written := t.world.written ++ closing t.machine.output t.machine.debug }⟩
        else
          ⟨.idle, t⟩) := by
  obtain ⟨u, hsteps, hturn⟩ := hstops
  apply (h.steps hsteps).next
  simp only [Moment.next?, hturn]
  split <;> rfl

end Reachable

theorem Recording.nextLine_session (provider : StateM τ (Option Char)) (r : Recording τ)
    : (session provider).nextLine.run r
        =
      match r.lines with
      | [] => (none, r)
      | line :: rest => (some line, { r with lines := rest }) := by
  obtain ⟨source, lines, printed, records, asked, written⟩ := r
  cases lines with
  | nil => rfl
  | cons line rest => rfl

namespace Reachable

variable {provider : StateM τ (Option Char)} {length : Nat} {s : RunState (max length 1) (Recording τ)}

theorem launch_execute {source input : String} {inSession : Bool}
    (h : Reachable provider length (.launch source input inSession s)) (budget : Nat)
    : ∃ (ending : Ending) (t : RunState (max length 1) (Recording τ)),
        (s.machine.execute (console provider) budget source input).run s.world = t.result ending ∧
        match ending with
        | .interrupted => ∃ p, Reachable provider length ⟨.running p inSession, t⟩
        | .failed _ => Reachable provider length ⟨.idle, t⟩
        | .finished => Reachable provider length
          (if inSession then
            ⟨.reading,
              { t with world.written := t.world.written ++ closing t.machine.output t.machine.debug }⟩
          else
            ⟨.idle, t⟩) := by
  unfold Moment.launch at h
  cases hparse : Program.parse source with
  | error fault =>
    rw [hparse] at h
    exact ⟨_, _, Machine.execute_of_fault hparse budget s, h⟩
  | ok p =>
    rw [hparse] at h
    rw [Machine.execute_of_parse hparse]
    obtain ⟨t, hsteps, hrun⟩ | ⟨k, ending, t, _, hstops, hrun⟩ :=
      Machine.run_cases (console provider) p budget (Machine.start input s)
    . exact ⟨_, t, hrun, p, h.steps hsteps⟩
    . refine ⟨ending, t, hrun, ?_⟩
      cases ending with
      | finished => exact h.finished hstops
      | failed fault => exact h.failed hstops
      | interrupted => exact absurd rfl hstops.ending_ne_interrupted

theorem execute (h : Reachable provider length ⟨.idle, s⟩) (budget : Nat) (source input : String)
    : ∃ (activity : Activity) (ending : Ending) (t : RunState (max length 1) (Recording τ)),
        (s.machine.execute (console provider) budget source input).run s.world = t.result ending ∧
        Reachable provider length ⟨activity, t⟩ ∧ (ending ≠ .interrupted → activity = .idle) := by
  obtain ⟨ending, t, hrun, ht⟩ := (h.call (.execute source input)).launch_execute budget
  cases ending with
  | finished => exact ⟨.idle, .finished, t, hrun, ht, fun _ => rfl⟩
  | failed fault => exact ⟨.idle, .failed fault, t, hrun, ht, fun _ => rfl⟩
  | interrupted =>
    obtain ⟨p, ht⟩ := ht
    exact ⟨_, .interrupted, t, hrun, ht, by simp⟩

theorem reading_run (h : Reachable provider length ⟨.reading, s⟩) (budget : Nat)
    : ∃ (activity : Activity) (ending : Ending) (t : RunState (max length 1) (Recording τ)),
        ((Recording.session provider).run budget s.machine).run s.world = t.result ending ∧
        Reachable provider length ⟨activity, t⟩ ∧ (ending ≠ .interrupted → activity = .idle) := by
  induction budget generalizing s with
  | zero => exact ⟨.reading, .interrupted, s, rfl, h, by simp⟩
  | succ budget ih =>
    rw [Session.run_succ, Recording.nextLine_session]
    cases hlines : s.world.lines with
    | nil =>
      refine ⟨.idle, .finished, s, rfl, ?_, fun _ => rfl⟩
      apply h.next
      simp only [Moment.next?, hlines]
    | cons line rest =>
      have hempty : (stripComments line).isEmpty ↔ instructions line = [] :=
        String.isEmpty_iff.trans (stripComments_eq_empty_iff line)
      dsimp only
      split
      . next hblank =>
        -- A line without an instruction uses up a round of the session and nothing else.
        apply ih (s := { s with world.lines := rest })
        apply h.next
        simp only [Moment.next?, hlines, hempty, hblank, if_true]
      . next hprogram =>
        have hlaunch : Reachable provider length (.launch line "" true { s with world.lines := rest }) := by
          apply h.next
          simp only [Moment.next?, hlines, hempty, hprogram, if_false]
        obtain ⟨ending, t, hrun, ht⟩ := hlaunch.launch_execute budget
        have houtcome
            : ((Recording.session provider).execution line { s with world.lines := rest }).outcome budget
                =
              t.result ending := hrun
        rw [Execution.reached_of_outcome houtcome, houtcome]
        cases ending with
        | finished => exact ih ht
        | failed fault => exact ⟨.idle, .failed fault, t, rfl, ht, fun _ => rfl⟩
        | interrupted =>
          obtain ⟨p, ht⟩ := ht
          exact ⟨_, .interrupted, t, rfl, ht, by simp⟩

theorem session (h : Reachable provider length ⟨.idle, s⟩) (budget : Nat) (lines : List String)
    : ∃ (activity : Activity) (ending : Ending) (t : RunState (max length 1) (Recording τ)),
        ((Recording.session provider).run budget s.machine).run { s.world with lines } = t.result ending ∧
        Reachable provider length ⟨activity, t⟩ ∧ (ending ≠ .interrupted → activity = .idle) := by
  apply (h.call (.session lines)).reading_run

end Reachable

end Brainfuck
