import Brainfuck.Proofs.Parse
import Brainfuck.Proofs.Turn

/-!
This module contains the proof that debug mode is transparent. A run in debug mode goes in lockstep with
the run outside of it: round by round, its state is the one that `RunState.debugged` makes of the state
outside. The trace consists of the records of the states that the run outside of debug mode passes
through.
-/

namespace Brainfuck

open Recording (console)

variable {n : Nat} {τ : Type}

namespace RunState

/--
The state in debug mode that belongs to a state outside of it, if `printed` has been printed and `records`
have been traced.
-/
def debugged (printed : String) (records : Array TraceRecord) (s : RunState n (Recording τ))
    : RunState n (Recording τ) :=
  ⟨s.machine.setDebug true, { s.world with printed, records }⟩

structure Plain (r : Recording τ) (s : RunState n (Recording τ)) : Prop where
  debug : s.machine.debug = false
  printed : s.world.printed = r.printed ++ s.machine.output
  records : s.world.records = r.records

def history {σ : Type} (console : Console (StateM σ)) (p : Program) (budget : Nat) (s : RunState n σ)
    : List TraceRecord :=
  match budget with
  | 0 => []
  | budget + 1 =>
    match s.machine.nextRecord? p with
    | none => []
    | some record =>
      match s.turn console p with
      | .stop _ _ => [record]
      | .next t => record :: t.history console p budget

variable {provider : StateM τ (Option Char)} {p : Program} {r : Recording τ}
  {s : RunState n (Recording τ)}

theorem traced_of_plain (h : s.Plain r) : s.traced (console provider) p = s.world := by
  rw [Recording.traced_console, h.debug]
  rfl

theorem traced_debugged (printed : String) (records : Array TraceRecord)
    : (s.debugged printed records).traced (console provider) p
        =
      { s.world with printed, records := records ++ (s.machine.nextRecord? p).toList } := by
  rw [Recording.traced_console]
  rfl

theorem turn_debugged (h : s.Plain r) (printed : String) (records : Array TraceRecord)
    : (s.debugged printed records).turn (console provider) p
        =
      (s.turn (console provider) p).map
        (debugged printed (records ++ (s.machine.nextRecord? p).toList)) := by
  have hfollows := s.machine.follows_step p
  unfold turn
  rw [traced_of_plain h, traced_debugged,
    show (s.debugged printed records).machine = s.machine.setDebug true from rfl, s.machine.step_setDebug]
  cases hstep : s.machine.step p with
  | halt machine => rfl
  | fail fault machine => rfl
  | advance machine => rfl
  | ask resume => rfl
  | write c machine =>
    rw [hstep] at hfollows
    have hdebug : machine.debug = false := by rw [hfollows.debug, h.debug]
    dsimp only
    rw [hdebug]
    rfl

theorem Plain.succeeds {machine : Machine n} {written : String} {world : Recording τ} (h : s.Plain r)
    (hmachine : s.machine.Succeeds p machine written)
    (hprinted : world.printed = s.world.printed ++ written)
    (hrecords : world.records = s.world.records) : Plain r ⟨machine, world⟩ := by
  constructor
  . rw [hmachine.debug, h.debug]
  . rw [hmachine.output, hprinted, h.printed, String.append_assoc]
  . rw [hrecords, h.records]

theorem Plain.turn (h : s.Plain r) (provider : StateM τ (Option Char)) (p : Program)
    : (s.turn (console provider) p).state.Plain r := by
  have hfollows := s.machine.follows_step p
  cases hstep : s.machine.step p with
  | halt machine =>
    rw [hstep] at hfollows
    rw [turn_of_halt hstep, traced_of_plain h, hfollows.2]
    exact h
  | fail fault machine =>
    rw [hstep] at hfollows
    rw [turn_of_fail hstep, traced_of_plain h, hfollows.2]
    exact h
  | advance machine =>
    rw [hstep] at hfollows
    rw [turn_of_advance hstep, traced_of_plain h]
    exact h.succeeds hfollows String.append_empty.symm rfl
  | ask resume =>
    rw [hstep] at hfollows
    rw [turn_of_ask hstep, traced_of_plain h]
    exact h.succeeds (hfollows _) String.append_empty.symm rfl
  | write c machine =>
    rw [hstep] at hfollows
    have hdebug : ¬machine.debug := by simp [hfollows.debug, h.debug]
    rw [turn_of_write hstep, if_neg hdebug, traced_of_plain h]
    exact h.succeeds hfollows (String.push_eq_append c) rfl

end RunState

open RunState

variable {provider : StateM τ (Option Char)} {p : Program} {r : Recording τ}
  {s : RunState n (Recording τ)}

theorem Machine.run_plain (h : s.Plain r) (budget : Nat)
    : let out := (s.machine.run (console provider) p budget).run s.world
      Plain r ⟨out.1.2, out.2⟩ := by
  induction budget generalizing s with
  | zero => exact h
  | succ budget ih =>
    have hturn := h.turn provider p
    rw [run_succ]
    cases hs : s.turn (console provider) p with
    | stop ending t =>
      rw [hs] at hturn
      exact hturn
    | next t =>
      rw [hs] at hturn
      exact ih hturn

theorem RunState.turn_of_nextRecord?_eq_none {σ : Type} {console : Console (StateM σ)} {s : RunState n σ}
    (h : s.machine.nextRecord? p = none)
    : s.turn console p = .stop .finished ⟨s.machine, s.traced console p⟩ := by
  apply turn_of_halt
  unfold Machine.step
  rw [Option.map_eq_none_iff.1 h]

theorem Machine.run_debugged (h : s.Plain r) (printed : String) (records : Array TraceRecord)
    (budget : Nat)
    : ((s.debugged printed records).machine.run (console provider) p budget).run
          (s.debugged printed records).world
        =
      let out := (s.machine.run (console provider) p budget).run s.world
      result out.1.1
        (debugged printed (records ++ s.history (console provider) p budget) ⟨out.1.2, out.2⟩) := by
  induction budget generalizing s records with
  | zero => rfl
  | succ budget ih =>
    have hturn := h.turn provider p
    rw [run_succ, run_succ, turn_debugged h, history]
    cases hrecord : s.machine.nextRecord? p with
    | none =>
      -- The round only finds that the program is over, which is not traced.
      rw [turn_of_nextRecord?_eq_none hrecord]
      rfl
    | some record =>
      cases hs : s.turn (console provider) p with
      | stop ending t => rfl
      | next t =>
        rw [hs] at hturn
        dsimp only [Turn.map, Turn.state] at hturn ⊢
        rw [ih hturn]
        rfl

/--
The record of the instruction before which a run was broken off.
-/
def Ending.pendingRecord? (code : List Instruction) (m : Machine n) : Ending → Option TraceRecord
  | .interrupted => code[m.ip]?.map fun i => .capture m.ip i m.tape
  | _ => none

theorem Ending.pendingRecord?_eq_none {code : List Instruction} {m : Machine n} {ending : Ending}
    (h : ending ≠ .interrupted) : ending.pendingRecord? code m = none := by
  cases ending with
  | interrupted => contradiction
  | finished | failed => rfl

/--
What a record says about the machine before an instruction of `code`: where it stands, what it is about to do, and
the cells at most five away from the pointer.
-/
structure TraceRecord.Shows (record : TraceRecord) (code : List Instruction) (m : Machine n) : Prop where
  ip : record.ip = m.ip
  instruction : code[m.ip]? = some record.instruction
  pointer : record.pointer = m.tape.pointer.val
  base : record.base = m.tape.pointer.val - 5
  window : record.window = (m.tape.cells.toList.take (m.tape.pointer.val + 6)).drop (m.tape.pointer.val - 5)

theorem TraceRecord.shows_of_pendingRecord? {code : List Instruction} {m : Machine n} {ending : Ending}
    {record : TraceRecord} (h : ending.pendingRecord? code m = some record) : record.Shows code m := by
  cases ending with
  | finished | failed => contradiction
  | interrupted =>
    obtain ⟨i, hi, rfl⟩ := Option.map_eq_some_iff.mp h
    exact ⟨rfl, hi, rfl, rfl, window_capture m.ip i m.tape⟩

theorem Machine.pendingRecord?_interrupted (m : Machine n)
    : Ending.interrupted.pendingRecord? p.code.toList m = m.nextRecord? p := by
  unfold Ending.pendingRecord? nextRecord?
  rw [p.instruction?_eq_getElem?]

theorem RunState.getElem?_history {σ : Type} {console : Console (StateM σ)} {s : RunState n σ}
    (budget k : Nat)
    : (s.history console p budget)[k]?
        =
      if k < budget then
        let out := (s.machine.run console p k).run s.world
        out.1.1.pendingRecord? p.code.toList out.1.2
      else
        none := by
  induction budget generalizing s k with
  | zero => simp [history]
  | succ budget ih =>
    rw [history]
    cases k with
    | zero =>
      rw [if_pos (Nat.zero_lt_succ budget), Machine.run_zero]
      dsimp only [result]
      rw [Machine.pendingRecord?_interrupted]
      cases s.machine.nextRecord? p with
      | none => rfl
      | some record =>
        dsimp only
        split <;> rfl
    | succ k =>
      rw [Machine.run_succ]
      cases hrecord : s.machine.nextRecord? p with
      | none =>
        rw [turn_of_nextRecord?_eq_none hrecord]
        simp [result, Ending.pendingRecord?]
      | some record =>
        cases hturn : s.turn console p with
        | stop ending t =>
          -- A run that came to its end was not broken off before an instruction.
          have hending : ending ≠ .interrupted := by
            intro h
            rw [h] at hturn
            exact turn_ne_interrupted hturn
          simp [result, Ending.pendingRecord?_eq_none hending]
        | next t =>
          dsimp only
          rw [List.getElem?_cons_succ, ih]
          simp only [Nat.add_lt_add_iff_right]

theorem Machine.plain_start (input : String) (m : Machine n) (r : Recording τ)
    : (start input ⟨m.setDebug false, r⟩).Plain r :=
  ⟨rfl, String.append_empty.symm, rfl⟩

theorem Machine.start_debugged (input : String) (m : Machine n) (r : Recording τ)
    : start input ⟨m.setDebug true, r⟩
        =
      (start input ⟨m.setDebug false, r⟩).debugged r.printed r.records :=
  rfl

theorem Machine.execute_debugged (provider : StateM τ (Option Char)) (source input : String)
    (m : Machine n) (r : Recording τ) (budget : Nat)
    : let plain := fun k => ((m.setDebug false).execute (console provider) k source input).run r
      Plain r ⟨(plain budget).1.2, (plain budget).2⟩ ∧
      ∃ captures : List TraceRecord,
        ((m.setDebug true).execute (console provider) budget source input).run r
            = result (plain budget).1.1
              (debugged r.printed (r.records ++ captures) ⟨(plain budget).1.2, (plain budget).2⟩) ∧
        ∀ k, captures[k]?
          =
            if k < budget then
              (plain k).1.1.pendingRecord? (instructions source) (plain k).1.2
            else
              none := by
  intro plain
  cases hparse : Program.parse source with
  | error fault =>
    have hplain : ∀ k, plain k = (start input ⟨m.setDebug false, r⟩).result (.failed fault) :=
      fun k => execute_of_fault hparse k ⟨m.setDebug false, r⟩
    rw [hplain budget]
    refine ⟨plain_start input m r, [], ?_, ?_⟩
    . exact execute_of_fault hparse budget ⟨m.setDebug true, r⟩
    . intro k
      rw [hplain k]
      simp [result, Ending.pendingRecord?]
  | ok p =>
    have hplain (k : Nat)
        : plain k
            =
          (run (console provider) p k (start input ⟨m.setDebug false, r⟩).machine).run
            (start input ⟨m.setDebug false, r⟩).world :=
      execute_of_parse hparse k ⟨m.setDebug false, r⟩
    have hstart := plain_start input m r
    refine ⟨?_, (start input ⟨m.setDebug false, r⟩).history (console provider) p budget, ?_, ?_⟩
    . rw [hplain budget]
      exact run_plain hstart budget
    . rw [hplain budget]
      refine (execute_of_parse hparse budget ⟨m.setDebug true, r⟩).trans ?_
      rw [start_debugged]
      exact run_debugged hstart r.printed r.records budget
    . intro k
      rw [hplain k, getElem?_history, (Program.parse_eq_ok hparse).1]

theorem Machine.halts_debugged_iff (provider : StateM τ (Option Char)) (source input : String)
    (m : Machine n) (r : Recording τ) (ending : Ending)
    : (∃ t, Halts (console provider) source input ⟨m.setDebug false, r⟩ ending t)
        ↔
      ∃ t, Halts (console provider) source input ⟨m.setDebug true, r⟩ ending t := by
  have hsame (budget : Nat)
      : (((m.setDebug true).execute (console provider) budget source input).run r).1.1
          =
        (((m.setDebug false).execute (console provider) budget source input).run r).1.1 := by
    obtain ⟨_, captures, hdebugged, _⟩ := execute_debugged provider source input m r budget
    rw [hdebugged]
    rfl
  rw [exists_halts_iff, exists_halts_iff]
  simp only [hsame]

/--
Debug mode changes what is shown and nothing else. Whatever the provider does, and also if the run is
broken off, both modes come to the same ending with the same machine and the same calls of the provider.
Outside of debug mode the output is printed and nothing is traced. In debug mode nothing is printed, and
the records show, one for each instruction that is carried out or fails, the states before these
instructions: the position, the instruction, the pointer and the cells around it.
-/
theorem debug_mode_transparent (provider : StateM τ (Option Char)) (source input : String)
    (m : Machine n) (r : Recording τ)
    : let plain := fun budget => ((m.setDebug false).execute (console provider) budget source input).run r
      let debugged := fun budget => ((m.setDebug true).execute (console provider) budget source input).run r
      (∀ ending,
        (∃ t, Machine.Halts (console provider) source input ⟨m.setDebug false, r⟩ ending t) ↔
          ∃ t, Machine.Halts (console provider) source input ⟨m.setDebug true, r⟩ ending t) ∧
      ∀ budget,
        (debugged budget).1.1 = (plain budget).1.1 ∧
        (debugged budget).1.2 = (plain budget).1.2.setDebug true ∧
        (debugged budget).2.source = (plain budget).2.source ∧
        (debugged budget).2.asked = (plain budget).2.asked ∧
        (plain budget).2.records = r.records ∧
        (plain budget).2.printed = r.printed ++ (plain budget).1.2.output ∧
        (debugged budget).2.printed = r.printed ∧
        ∃ captures : List TraceRecord,
          (debugged budget).2.records = r.records ++ captures ∧
          (∀ k, captures[k]?
            =
              if k < budget then
                (plain k).1.1.pendingRecord? (instructions source) (plain k).1.2
              else
                none) ∧
          ∀ k (record : TraceRecord), captures[k]? = some record →
            record.Shows (instructions source) (plain k).1.2 := by
  intro plain debugged
  refine ⟨Machine.halts_debugged_iff provider source input m r, ?_⟩
  intro budget
  obtain ⟨hplain, captures, hdebugged, hcaptures⟩ :=
    Machine.execute_debugged provider source input m r budget
  rw [show debugged budget = _ from hdebugged]
  refine ⟨rfl, rfl, rfl, rfl, hplain.records, hplain.printed, rfl, captures, rfl, hcaptures, ?_⟩
  intro k record hrecord
  rw [hcaptures k, Option.ite_none_right_eq_some] at hrecord
  exact TraceRecord.shows_of_pendingRecord? hrecord.2

end Brainfuck
