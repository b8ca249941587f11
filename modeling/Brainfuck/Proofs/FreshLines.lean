import Brainfuck.Proofs.Course
import Brainfuck.Proofs.History

/-!
This module contains the proof that a session is the sequence of its programs. Each of them does what it does
on a new machine, and only the provider goes from one to the next. `Performed` says this without the session:
the programs are executed apart from each other, up to the first one that fails.
-/

namespace Brainfuck

open RunState

variable {n : Nat} {τ : Type}

structure LineRun (n : Nat) (τ : Type) where
  ending : Ending
  state : RunState n (Recording τ)

namespace LineRun

def closing (run : LineRun n τ) : String :=
  match run.ending with
  | .finished => Brainfuck.closing run.state.machine.output run.state.machine.debug
  | _ => ""

def onto (run : LineRun n τ) (s : RunState n (Recording τ)) : RunState n (Recording τ) where
  machine := run.state.machine
  world := { s.world.onto run.state.world with written := s.world.written ++ run.closing }

end LineRun

def Execution.fresh (provider : StateM τ (Option Char)) (length : Nat) (debug : Bool) (source : τ)
    (line : String) : Execution (max length 1) (Recording τ) :=
  recorded provider line "" ⟨(Machine.create length).setDebug debug, { source }⟩

/--
`Performed provider length debug source lines runs ending left`: the lines that are not empty without their
comments are executed in order, each on a new machine, with the provider as the line before has left it. They
come to `runs`. The first line that fails is the last one and decides the ending, and `left` are the lines
behind it.
-/
inductive Performed (provider : StateM τ (Option Char)) (length : Nat) (debug : Bool)
    : τ → List String → List (LineRun (max length 1) τ) → Ending → List String → Prop where
  | done (source : τ) : Performed provider length debug source [] [] .finished []
  | skip {source : τ} {line : String} {rest left : List String} {runs : List (LineRun (max length 1) τ)}
      {ending : Ending} (hblank : stripComments line = "")
      (h : Performed provider length debug source rest runs ending left)
      : Performed provider length debug source (line :: rest) runs ending left
  | fail {source : τ} {line : String} {rest : List String} {fault : Fault}
      {t : RunState (max length 1) (Recording τ)} (hprogram : stripComments line ≠ "")
      (hfail : (Execution.fresh provider length debug source line).Halts (.failed fault) t)
      : Performed provider length debug source (line :: rest) [⟨.failed fault, t⟩] (.failed fault) rest
  | run {source : τ} {line : String} {rest left : List String} {runs : List (LineRun (max length 1) τ)}
      {ending : Ending} {t : RunState (max length 1) (Recording τ)} (hprogram : stripComments line ≠ "")
      (hrun : (Execution.fresh provider length debug source line).Halts .finished t)
      (h : Performed provider length debug t.world.source rest runs ending left)
      : Performed provider length debug source (line :: rest) (⟨.finished, t⟩ :: runs) ending left

namespace RunState

def withLines (s : RunState n (Recording τ)) (lines : List String) : RunState n (Recording τ) :=
  { s with world := { s.world with lines } }

/--
The state in which a session ends that began in the state `s`: the machine and the provider are as the last
program has left them, and the world has heard of all programs in their order.
-/
def afterRuns (s : RunState n (Recording τ)) (runs : List (LineRun n τ)) (left : List String)
    : RunState n (Recording τ) where
  machine := (runs.getLast?.map (·.state.machine)).getD s.machine
  world := {
    source := (runs.getLast?.map (·.state.world.source)).getD s.world.source
    lines := left
    printed := s.world.printed ++ String.join (runs.map (·.state.world.printed))
    records := s.world.records ++ runs.flatMap (·.state.world.records.toList)
    asked := s.world.asked + runs.foldr (·.state.world.asked + ·) 0
    written := s.world.written ++ String.join (runs.map LineRun.closing) }

theorem afterRuns_nil (s : RunState n (Recording τ)) (left : List String)
    : s.afterRuns [] left = s.withLines left := by
  unfold afterRuns withLines
  simp

theorem afterRuns_cons (s : RunState n (Recording τ)) (run : LineRun n τ) (runs : List (LineRun n τ))
    (left : List String) : s.afterRuns (run :: runs) left = (run.onto s).afterRuns runs left := by
  have hlast {α : Type} (f : LineRun n τ → α) (a : α)
      : ((run :: runs).getLast?.map f).getD a = (runs.getLast?.map f).getD (f run) := by
    rw [List.getLast?_cons]
    cases runs.getLast? <;> rfl
  have hrecords (a b : Array TraceRecord) (l : List TraceRecord) : a ++ (b.toList ++ l) = a ++ b ++ l := by
    apply Array.toList_inj.1
    simp
  unfold afterRuns LineRun.onto Recording.onto
  simp only [hlast, List.map_cons, List.flatMap_cons, String.join_cons, List.foldr_cons, hrecords,
    String.append_assoc, Nat.add_assoc]

end RunState

theorem Execution.halts_iff_exists_outcome {σ : Type} {e : Execution n σ} {ending : Ending}
    {t : RunState n σ}
    : e.Halts ending t ↔ ending ≠ .interrupted ∧ ∃ k, (e.outcome k).1.1 = ending ∧ e.reached k = t := by
  constructor
  . intro ⟨hending, k, hk⟩
    have houtcome : e.outcome k = t.result ending := hk
    refine ⟨hending, k, ?_, reached_of_outcome houtcome⟩
    rw [houtcome]
    rfl
  . intro ⟨hending, k, hsame, hreached⟩
    subst hsame hreached
    exact ⟨hending, k, rfl⟩

namespace Session

section

variable {provider : StateM τ (Option Char)} {line : String} {r w : Recording τ}

theorem nextLine_eq_none_iff
    : (Recording.session provider).nextLine.run r = (none, w) ↔ r.lines = [] ∧ w = r := by
  rw [Recording.nextLine_session]
  cases r.lines with
  | nil =>
    rw [Prod.mk.injEq]
    simp [eq_comm]
  | cons line rest =>
    rw [Prod.mk.injEq]
    simp

theorem nextLine_eq_some_iff
    : (Recording.session provider).nextLine.run r = (some line, w)
        ↔
      ∃ rest, r.lines = line :: rest ∧ w = { r with lines := rest } := by
  rw [Recording.nextLine_session]
  cases r.lines with
  | nil =>
    rw [Prod.mk.injEq]
    simp
  | cons line rest =>
    rw [Prod.mk.injEq]
    simp [eq_comm]

end

section

variable {provider : StateM τ (Option Char)} {length k : Nat} {line : String} {rest : List String}
  {s t u : RunState (max length 1) (Recording τ)} {ending : Ending}

theorem ending_execution
    : (((Recording.session provider).execution line (s.withLines rest)).outcome k).1.1
        =
      ((Execution.fresh provider length s.machine.debug s.world.source line).outcome k).1.1 := by
  have houtcome := Execution.outcome_eq_onto provider line "" (s.withLines rest) k
  exact congrArg (·.1.1) houtcome

theorem reached_execution
    (ht : (Execution.fresh provider length s.machine.debug s.world.source line).reached k = t)
    : ((Recording.session provider).execution line (s.withLines rest)).reached k
        =
      ⟨t.machine, (s.withLines rest).world.onto t.world⟩ := by
  have houtcome := Execution.outcome_eq_onto provider line "" (s.withLines rest) k
  subst ht
  exact congrArg (fun out => RunState.mk out.1.2 out.2) houtcome

theorem closed_execution
    (ht : (Execution.fresh provider length s.machine.debug s.world.source line).reached k = t)
    : (Recording.session provider).closed
          (((Recording.session provider).execution line (s.withLines rest)).reached k)
        =
      LineRun.onto ⟨.finished, t⟩ (s.withLines rest) := by
  rw [reached_execution ht]
  rfl

theorem failed_execution (fault : Fault)
    (ht : (Execution.fresh provider length s.machine.debug s.world.source line).reached k = t)
    : ((Recording.session provider).execution line (s.withLines rest)).reached k
        =
      LineRun.onto ⟨.failed fault, t⟩ (s.withLines rest) := by
  rw [reached_execution ht]
  unfold LineRun.onto LineRun.closing
  rw [String.append_empty]
  rfl

end

end Session

theorem Performed.exists_course {provider : StateM τ (Option Char)} {length : Nat} {debug : Bool}
    {source : τ} {lines left : List String} {runs : List (LineRun (max length 1) τ)} {ending : Ending}
    (h : Performed provider length debug source lines runs ending left)
    {s : RunState (max length 1) (Recording τ)} (hdebug : s.machine.debug = debug)
    (hsource : s.world.source = source) (hlines : s.world.lines = lines)
    : ∃ items, (Recording.session provider).Course s items ending (s.afterRuns runs left) := by
  induction h generalizing s with
  | done source =>
    rw [afterRuns_nil, ← hlines]
    exact ⟨[], .done (Session.nextLine_eq_none_iff.2 ⟨hlines, rfl⟩)⟩
  | @skip source line rest left runs ending hblank _ ih =>
    obtain ⟨items, hcourse⟩ := ih (s := s.withLines rest) hdebug hsource rfl
    refine ⟨_, .skip ?_ ((stripComments_eq_empty_iff line).1 hblank) hcourse⟩
    exact Session.nextLine_eq_some_iff.2 ⟨rest, hlines, rfl⟩
  | @fail source line rest fault t hprogram hfail =>
    subst hdebug hsource
    obtain ⟨_, k, hending, ht⟩ := Execution.halts_iff_exists_outcome.1 hfail
    have hafter : s.afterRuns [⟨.failed fault, t⟩] rest
        = ((Recording.session provider).execution line (s.withLines rest)).reached k := by
      rw [Session.failed_execution fault ht, afterRuns_cons, afterRuns_nil]
      rfl
    rw [hafter]
    refine ⟨_, .fail ?_ (mt (stripComments_eq_empty_iff line).2 hprogram) ?_⟩
    . exact Session.nextLine_eq_some_iff.2 ⟨rest, hlines, rfl⟩
    . exact Session.ending_execution.trans hending
  | @run source line rest left runs ending t hprogram hrun _ ih =>
    subst hdebug hsource
    obtain ⟨_, k, hending, ht⟩ := Execution.halts_iff_exists_outcome.1 hrun
    have hdebug : t.machine.debug = s.machine.debug := by
      rw [← ht]
      exact Execution.debug_reached _ k
    obtain ⟨items, hcourse⟩ := ih (s := LineRun.onto ⟨.finished, t⟩ (s.withLines rest)) hdebug rfl rfl
    have hclosed : (Recording.session provider).Course
        ((Recording.session provider).closed
          (((Recording.session provider).execution line (s.withLines rest)).reached k))
        items ending (s.afterRuns (⟨.finished, t⟩ :: runs) left) := by
      rw [Session.closed_execution ht, afterRuns_cons]
      exact hcourse
    refine ⟨_, .run ?_ (mt (stripComments_eq_empty_iff line).2 hprogram) ?_ hclosed⟩
    . exact Session.nextLine_eq_some_iff.2 ⟨rest, hlines, rfl⟩
    . exact Session.ending_execution.trans hending

theorem Session.Course.exists_performed {provider : StateM τ (Option Char)} {length : Nat}
    {s t : RunState (max length 1) (Recording τ)} {items : List (Item (max length 1) (Recording τ))}
    {ending : Ending} (h : (Recording.session provider).Course s items ending t)
    : ∃ runs left,
        Performed provider length s.machine.debug s.world.source s.world.lines runs ending left ∧
        t = s.afterRuns runs left := by
  induction h with
  | @done s w hline =>
    obtain ⟨hlines, rfl⟩ := nextLine_eq_none_iff.1 hline
    refine ⟨[], [], ?_, ?_⟩
    . rw [hlines]
      exact .done s.world.source
    . rw [afterRuns_nil, ← hlines]
      rfl
  | @skip s t w line items ending hline hblank _ ih =>
    obtain ⟨rest, hlines, rfl⟩ := nextLine_eq_some_iff.1 hline
    obtain ⟨runs, left, hperformed, ht⟩ := ih
    rw [hlines]
    exact ⟨runs, left, .skip ((stripComments_eq_empty_iff line).2 hblank) hperformed, ht⟩
  | @fail s w line k fault hline hprogram hfail =>
    obtain ⟨rest, hlines, rfl⟩ := nextLine_eq_some_iff.1 hline
    let fresh := Execution.fresh provider length s.machine.debug s.world.source line
    have hending : (fresh.outcome k).1.1 = .failed fault := ending_execution.symm.trans hfail
    refine ⟨[⟨.failed fault, fresh.reached k⟩], rest, ?_, ?_⟩
    . rw [hlines]
      apply Performed.fail (mt (stripComments_eq_empty_iff line).1 hprogram)
      exact Execution.halts_iff_exists_outcome.2 ⟨by simp, k, hending, rfl⟩
    . rw [afterRuns_cons, afterRuns_nil]
      exact failed_execution fault rfl
  | @run s t w line k items ending hline hprogram hrun _ ih =>
    obtain ⟨rest, hlines, rfl⟩ := nextLine_eq_some_iff.1 hline
    let fresh := Execution.fresh provider length s.machine.debug s.world.source line
    have hending : (fresh.outcome k).1.1 = .finished := ending_execution.symm.trans hrun
    have hclosed : (Recording.session provider).closed
        (((Recording.session provider).execution line
          { s with world := { s.world with lines := rest } }).reached k)
        = LineRun.onto ⟨.finished, fresh.reached k⟩ (s.withLines rest) := closed_execution rfl
    rw [hclosed] at ih
    obtain ⟨runs, left, hperformed, ht⟩ := ih
    have hdebug : (LineRun.onto ⟨.finished, fresh.reached k⟩ (s.withLines rest)).machine.debug
        = s.machine.debug := fresh.debug_reached k
    rw [hdebug] at hperformed
    refine ⟨⟨.finished, fresh.reached k⟩ :: runs, left, ?_, ?_⟩
    . rw [hlines]
      refine .run (mt (stripComments_eq_empty_iff line).1 hprogram) ?_ hperformed
      exact Execution.halts_iff_exists_outcome.2 ⟨by simp, k, hending, rfl⟩
    . rw [afterRuns_cons]
      exact ht

/--
A session is the sequence of its programs. It comes to an end exactly if each program does that it executes,
every one on a new machine in the same mode and with no input, in the order of the lines and up to the first
that fails. Then the session has the ending of this program, or finishes, and what it leaves is what the
programs have left.
-/
theorem session_performs_lines_fresh (provider : StateM τ (Option Char)) (length : Nat)
    (lines : List String) (s t : RunState (max length 1) (Recording τ)) (ending : Ending)
    : (Recording.session provider).Halts (s.withLines lines) ending t
        ↔
      ∃ runs left, Performed provider length s.machine.debug s.world.source lines runs ending left ∧
        t = s.afterRuns runs left := by
  rw [Session.halts_iff_exists_course]
  constructor
  . intro ⟨items, hcourse⟩
    exact hcourse.exists_performed
  . intro ⟨runs, left, hperformed, ht⟩
    rw [ht]
    exact hperformed.exists_course (s := s.withLines lines) rfl rfl rfl

end Brainfuck
