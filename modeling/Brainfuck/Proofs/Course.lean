import Brainfuck.Session
import Brainfuck.Proofs.Execution

/-!
This module contains the course of a session, line by line. `Session.Course` says what becomes of every line
that a session takes: it is skipped, or it is executed and comes to an end. A session comes to its end exactly
if it has such a course.
-/

namespace Brainfuck

open RunState

variable {n : Nat} {σ : Type}

namespace Execution

variable {e : Execution n σ} {k k' : Nat}

theorem outcome_of_le (h : (e.outcome k).1.1 ≠ .interrupted) (hle : k ≤ k')
    : e.outcome k' = e.outcome k := by
  cases hparse : Program.parse e.source with
  | error fault => rw [outcome_of_fault hparse, outcome_of_fault hparse]
  | ok p =>
    obtain ⟨u, hsteps, _⟩ | ⟨j, ending, u, hjk, hstops, _⟩ :=
      Machine.run_cases e.console p k e.start
    . rw [outcome_of_steps hparse hsteps] at h
      exact absurd rfl h
    . rw [outcome_of_stops hparse hstops hjk, outcome_of_stops hparse hstops (by omega)]

theorem reached_of_le (h : (e.outcome k).1.1 ≠ .interrupted) (hle : k ≤ k')
    : e.reached k' = e.reached k := by
  unfold reached
  rw [outcome_of_le h hle]

end Execution

namespace Session

def execution (session : Session (StateM σ)) (line : String) (s : RunState n σ) : Execution n σ where
  console := session.console
  source := line
  input := ""
  state := s

def closed (session : Session (StateM σ)) (s : RunState n σ) : RunState n σ :=
  { s with world := ((session.write (closing s.machine.output s.machine.debug)).run s.world).2 }

theorem run_succ (session : Session (StateM σ)) (budget : Nat) (s : RunState n σ)
    : (session.run (budget + 1) s.machine).run s.world
        =
      let s' : RunState n σ := { s with world := (session.nextLine.run s.world).2 }
      match (session.nextLine.run s.world).1 with
      | none => s'.result .finished
      | some line =>
        if instructions line = [] then
          (session.run budget s'.machine).run s'.world
        else
          let t := (session.execution line s').reached budget
          match ((session.execution line s').outcome budget).1.1 with
          | .finished => (session.run budget (session.closed t).machine).run (session.closed t).world
          | ending => t.result ending := by
  rw [Session.run, StateT.run_bind]
  obtain ⟨line?, w⟩ := session.nextLine.run s.world
  cases line? with
  | none => rfl
  | some line =>
    change StateT.run (if (stripComments line).isEmpty then _ else _) w = _
    dsimp only
    by_cases hblank : instructions line = []
    . rw [if_pos (String.isEmpty_iff.2 ((stripComments_eq_empty_iff line).2 hblank)), if_pos hblank]
    . rw [if_neg fun h => hblank ((stripComments_eq_empty_iff line).1 (String.isEmpty_iff.1 h)),
        if_neg hblank, StateT.run_bind]
      unfold Execution.reached Execution.outcome execution
      dsimp only
      generalize (s.machine.execute session.console budget line "").run w = out
      obtain ⟨⟨ending, machine⟩, world⟩ := out
      cases ending <;> rfl

def Halts (session : Session (StateM σ)) (s : RunState n σ) (ending : Ending) (t : RunState n σ) : Prop :=
  ending ≠ .interrupted ∧ ∃ budget, (session.run budget s.machine).run s.world = t.result ending

inductive Item (n : Nat) (σ : Type) where
  | skipped (line : String)
  /-- The line was executed, and `k` instructions were enough for it to come to its end. -/
  | executed (e : Execution n σ) (k : Nat)

/--
`session.Course s items ending t`: from the state `s` the session does `items` with the lines that it takes,
and ends in the state `t`.
-/
inductive Course (session : Session (StateM σ))
    : RunState n σ → List (Item n σ) → Ending → RunState n σ → Prop where
  | done {s : RunState n σ} {w : σ} (hline : session.nextLine.run s.world = (none, w))
      : Course session s [] .finished { s with world := w }
  | skip {s t : RunState n σ} {w : σ} {line : String} {items : List (Item n σ)} {ending : Ending}
      (hline : session.nextLine.run s.world = (some line, w)) (hblank : instructions line = [])
      (h : Course session { s with world := w } items ending t)
      : Course session s (.skipped line :: items) ending t
  | fail {s : RunState n σ} {w : σ} {line : String} {k : Nat} {fault : Fault}
      (hline : session.nextLine.run s.world = (some line, w)) (hprogram : instructions line ≠ [])
      (hfail : ((session.execution line { s with world := w }).outcome k).1.1 = .failed fault)
      : Course session s [.executed (session.execution line { s with world := w }) k] (.failed fault)
          ((session.execution line { s with world := w }).reached k)
  | run {s t : RunState n σ} {w : σ} {line : String} {k : Nat} {items : List (Item n σ)} {ending : Ending}
      (hline : session.nextLine.run s.world = (some line, w)) (hprogram : instructions line ≠ [])
      (hrun : ((session.execution line { s with world := w }).outcome k).1.1 = .finished)
      (h : Course session (session.closed ((session.execution line { s with world := w }).reached k))
        items ending t)
      : Course session s (.executed (session.execution line { s with world := w }) k :: items) ending t

variable {session : Session (StateM σ)} {s t : RunState n σ} {items : List (Item n σ)} {ending : Ending}

theorem Course.ending_ne_interrupted (h : session.Course s items ending t) : ending ≠ .interrupted := by
  induction h with
  | done | fail => simp
  | skip _ _ _ ih | run _ _ _ _ ih => exact ih

theorem exists_course_of_run {budget : Nat}
    (hrun : (session.run budget s.machine).run s.world = t.result ending) (hending : ending ≠ .interrupted)
    : ∃ items, session.Course s items ending t := by
  induction budget generalizing s with
  | zero => exact absurd (result_inj hrun).1.symm hending
  | succ budget ih =>
    rw [run_succ] at hrun
    dsimp only at hrun
    cases hline : session.nextLine.run s.world with
    | mk line? w =>
      rw [hline] at hrun
      cases line? with
      | none =>
        obtain ⟨rfl, rfl⟩ := result_inj hrun
        exact ⟨[], .done hline⟩
      | some line =>
        dsimp only at hrun
        split at hrun
        . next hblank =>
          obtain ⟨items, hcourse⟩ := ih (s := { s with world := w }) hrun
          exact ⟨_, .skip hline hblank hcourse⟩
        . next hprogram =>
          split at hrun
          . next hfinished =>
            obtain ⟨items, hcourse⟩ := ih hrun
            exact ⟨_, .run hline hprogram hfinished hcourse⟩
          . obtain ⟨hsame, rfl⟩ := result_inj hrun
            cases ending with
            | finished => contradiction
            | interrupted => contradiction
            | failed fault => exact ⟨_, .fail hline hprogram hsame⟩

theorem run_of_program {w : σ} {line : String} {k budget : Nat}
    (hline : session.nextLine.run s.world = (some line, w)) (hprogram : instructions line ≠ [])
    (hended : ((session.execution line { s with world := w }).outcome k).1.1 ≠ .interrupted)
    (hbudget : k < budget)
    : (session.run budget s.machine).run s.world
        =
      let t := (session.execution line { s with world := w }).reached k
      match ((session.execution line { s with world := w }).outcome k).1.1 with
      | .finished => (session.run (budget - 1) (session.closed t).machine).run (session.closed t).world
      | ending => t.result ending := by
  obtain ⟨more, rfl⟩ := Nat.exists_eq_add_of_lt hbudget
  rw [run_succ, hline]
  dsimp only
  rw [if_neg hprogram, Execution.outcome_of_le hended (by omega), Execution.reached_of_le hended (by omega)]
  rfl

theorem Course.exists_run (h : session.Course s items ending t)
    : ∃ least, ∀ budget, least < budget →
        (session.run budget s.machine).run s.world = t.result ending := by
  induction h with
  | done hline =>
    refine ⟨0, fun budget hbudget => ?_⟩
    obtain ⟨more, rfl⟩ := Nat.exists_eq_add_of_lt hbudget
    rw [run_succ, hline]
  | skip hline hblank _ ih =>
    obtain ⟨least, hleast⟩ := ih
    refine ⟨least + 1, fun budget hbudget => ?_⟩
    obtain ⟨more, rfl⟩ := Nat.exists_eq_add_of_lt hbudget
    rw [run_succ, hline]
    dsimp only
    rw [if_pos hblank]
    exact hleast _ (by omega)
  | @fail s w line k fault hline hprogram hfail =>
    refine ⟨k, fun budget hbudget => ?_⟩
    rw [run_of_program hline hprogram (by simp [hfail]) hbudget, hfail]
  | @run s t w line k items ending hline hprogram hrun _ ih =>
    obtain ⟨least, hleast⟩ := ih
    refine ⟨k + least + 1, fun budget hbudget => ?_⟩
    rw [run_of_program hline hprogram (k := k) (by simp [hrun]) (by omega), hrun]
    exact hleast _ (by omega)

theorem halts_iff_exists_course : session.Halts s ending t ↔ ∃ items, session.Course s items ending t := by
  constructor
  . intro ⟨hending, budget, hrun⟩
    exact exists_course_of_run hrun hending
  . intro ⟨items, hcourse⟩
    obtain ⟨least, hleast⟩ := hcourse.exists_run
    exact ⟨hcourse.ending_ne_interrupted, least + 1, hleast _ (Nat.lt_succ_self least)⟩

theorem exists_halts_iff
    : (∃ t, session.Halts s ending t)
        ↔
      ending ≠ .interrupted ∧ ∃ budget, ((session.run budget s.machine).run s.world).1.1 = ending := by
  constructor
  . intro ⟨t, hending, budget, hrun⟩
    refine ⟨hending, budget, ?_⟩
    rw [hrun]
    rfl
  . intro ⟨hending, budget, hrun⟩
    subst hrun
    exact ⟨⟨_, _⟩, hending, budget, rfl⟩

theorem Halts.exists_run (h : session.Halts s ending t)
    : ∃ least, ∀ budget, least < budget →
        (session.run budget s.machine).run s.world = t.result ending := by
  obtain ⟨items, hcourse⟩ := halts_iff_exists_course.1 h
  exact hcourse.exists_run

end Session

end Brainfuck
