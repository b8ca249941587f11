import Brainfuck.Proofs.Course

/-!
This module contains the comparison of worlds. Two consoles match under a relation between the worlds they
act on if whatever a machine asks of them keeps the relation and brings the same answers. Then the same
program goes the same way with both of them, instruction by instruction. Sessions that match go the same
way line by line.
-/

namespace Brainfuck

variable {n : Nat} {σ σ' : Type}

structure Console.Matches (R : σ → σ' → Prop) (console : Console (StateM σ))
    (console' : Console (StateM σ')) : Prop where
  print {w : σ} {w' : σ'} (h : R w w') (c : Char)
    : R ((console.print c).run w).2 ((console'.print c).run w').2
  trace {w : σ} {w' : σ'} (h : R w w') (record : TraceRecord)
    : R ((console.trace record).run w).2 ((console'.trace record).run w').2
  answer {w : σ} {w' : σ'} (h : R w w') : (console'.ask.run w').1 = (console.ask.run w).1
  ask {w : σ} {w' : σ'} (h : R w w') : R (console.ask.run w).2 (console'.ask.run w').2

variable {R : σ → σ' → Prop} {console : Console (StateM σ)} {console' : Console (StateM σ')}
  {w : σ} {w' : σ'}

namespace Console.Matches

theorem traced (h : console.Matches R console') (p : Program) (m : Machine n) (hw : R w w')
    : R (RunState.traced console p ⟨m, w⟩) (RunState.traced console' p ⟨m, w'⟩) := by
  unfold RunState.traced Machine.traceNext
  dsimp only
  cases m.debug with
  | false => exact hw
  | true =>
    cases p.instruction? m.ip with
    | none => exact hw
    | some i => exact h.trace hw _

theorem run (h : console.Matches R console') (p : Program) (budget : Nat) (m : Machine n) (hw : R w w')
    : ((m.run console' p budget).run w').1 = ((m.run console p budget).run w).1 ∧
      R ((m.run console p budget).run w).2 ((m.run console' p budget).run w').2 := by
  induction budget generalizing m w w' with
  | zero => exact ⟨rfl, hw⟩
  | succ budget ih =>
    have htraced := h.traced p m hw
    have hrun := Machine.run_succ console p budget ⟨m, w⟩
    have hrun' := Machine.run_succ console' p budget ⟨m, w'⟩
    dsimp only at hrun hrun'
    rw [hrun, hrun']
    unfold RunState.turn
    dsimp only
    cases m.step p with
    | halt machine | fail fault machine => exact ⟨rfl, htraced⟩
    | advance machine => exact ih machine htraced
    | write c machine =>
      dsimp only
      cases machine.debug with
      | true => exact ih machine htraced
      | false => exact ih machine (h.print htraced c)
    | ask resume =>
      dsimp only
      rw [h.answer htraced]
      exact ih _ (h.ask htraced)

end Console.Matches

namespace Execution

structure Matches (R : σ → σ' → Prop) (e : Execution n σ) (e' : Execution n σ') : Prop where
  console : e.console.Matches R e'.console
  source : e'.source = e.source
  machine : e'.start.machine = e.start.machine
  world : R e.state.world e'.state.world

variable {e : Execution n σ} {e' : Execution n σ'}

namespace Matches

theorem outcome (h : Matches R e e') (k : Nat)
    : (e'.outcome k).1 = (e.outcome k).1 ∧ R (e.outcome k).2 (e'.outcome k).2 := by
  cases hparse : Program.parse e.source with
  | error fault =>
    rw [outcome_of_fault hparse, outcome_of_fault (h.source ▸ hparse)]
    unfold RunState.result
    rw [h.machine]
    exact ⟨rfl, h.world⟩
  | ok p =>
    rw [outcome_of_parse hparse, outcome_of_parse (h.source ▸ hparse), h.machine]
    exact h.console.run p k e.start.machine h.world

theorem machine_reached (h : Matches R e e') (k : Nat) : (e'.reached k).machine = (e.reached k).machine := by
  unfold reached
  rw [(h.outcome k).1]

theorem next? (h : Matches R e e') (k : Nat) : e'.next? k = e.next? k := by
  unfold Execution.next?
  rw [(h.outcome k).1, h.machine_reached, h.source]

end Matches

end Execution

structure Session.Matches (R : σ → σ' → Prop) (session : Session (StateM σ))
    (session' : Session (StateM σ')) : Prop where
  console : session.console.Matches R session'.console
  line {w : σ} {w' : σ'} (h : R w w') : (session'.nextLine.run w').1 = (session.nextLine.run w).1
  nextLine {w : σ} {w' : σ'} (h : R w w') : R (session.nextLine.run w).2 (session'.nextLine.run w').2
  write {w : σ} {w' : σ'} (h : R w w') (text : String)
    : R ((session.write text).run w).2 ((session'.write text).run w').2

theorem Session.Matches.run {session : Session (StateM σ)} {session' : Session (StateM σ')}
    (h : session.Matches R session') (budget : Nat) (m : Machine n) (hw : R w w')
    : ((session'.run budget m).run w').1 = ((session.run budget m).run w).1 ∧
      R ((session.run budget m).run w).2 ((session'.run budget m).run w').2 := by
  induction budget generalizing m w w' with
  | zero => exact ⟨rfl, hw⟩
  | succ budget ih =>
    have hrun := run_succ session budget ⟨m, w⟩
    have hrun' := run_succ session' budget ⟨m, w'⟩
    have hnext := h.nextLine hw
    dsimp only at hrun hrun'
    rw [hrun, hrun', h.line hw]
    cases (session.nextLine.run w).1 with
    | none => exact ⟨rfl, hnext⟩
    | some line =>
      dsimp only
      split
      . exact ih m hnext
      . have hmatches : Execution.Matches R
            (session.execution line ⟨m, (session.nextLine.run w).2⟩)
            (session'.execution line ⟨m, (session'.nextLine.run w').2⟩) :=
          ⟨h.console, rfl, rfl, hnext⟩
        obtain ⟨hsame, hreached⟩ := hmatches.outcome budget
        have hmachine := hmatches.machine_reached budget
        rw [hsame]
        split
        . unfold Session.closed
          dsimp only
          rw [hmachine]
          exact ih _ (h.write hreached _)
        . unfold RunState.result
          rw [hmachine]
          exact ⟨rfl, hreached⟩

end Brainfuck
