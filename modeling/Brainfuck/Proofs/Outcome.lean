import Brainfuck.Proofs.Cursor
import Brainfuck.Proofs.Execution
import Brainfuck.Proofs.Safety

/-!
This module contains what an execution leaves when it comes to its end. Brackets that do not match are
found before anything happens. A move off the tape leaves what the instructions before it have left, and a
program that finishes is at its end, with all that it wrote as its output.
-/

namespace Brainfuck

open RunState

variable {n : Nat}

theorem Steps.ip_le {σ : Type} {console : Console (StateM σ)} {p : Program} {k : Nat}
    {s t : RunState n σ} (hmatched : p.IsMatched) (hs : s.machine.ip ≤ p.length)
    (h : Steps console p k s t) : t.machine.ip ≤ p.length := by
  induction h with
  | refl s => exact hs
  | head hturn _ ih => exact ih (ip_le_of_turn hmatched hturn)

theorem Program.length_le_of_instruction?_eq_none {p : Program} {position : Nat}
    (h : p.instruction? position = none) : p.length ≤ position := by
  apply Array.getElem?_eq_none_iff.1 h

theorem Program.length_of_parse {source : String} {p : Program} (hparse : parse source = .ok p)
    : p.length = (instructions source).length := by
  rw [← (parse_eq_ok hparse).1]
  rfl

namespace Execution

variable {σ : Type}

/--
The characters that the first `k` instructions write: each of them has the code that is in the current cell
when the instruction is carried out.
-/
def written (e : Execution n σ) (k : Nat) : List Char :=
  (List.range k).filterMap fun j =>
    if e.next? j = some .output then some (.ofNat (e.reached j).machine.tape.current.toNat) else none

structure Untouched (e : Execution n σ) (t : RunState n σ) : Prop where
  world : t.world = e.state.world
  cells : ∀ address : Fin n, t.machine.tape.cells[address] = 0
  pointer : t.machine.tape.pointer.val = 0
  ip : t.machine.ip = 0
  output : t.machine.output = ""
  text : t.machine.input.text = e.input
  offset : t.machine.input.offset = 0
  debug : t.machine.debug = e.state.machine.debug

theorem output_reached (e : Execution n σ) (k : Nat)
    : (e.reached k).machine.output.toList = e.written k := by
  induction k with
  | zero =>
    rw [reached_zero]
    rfl
  | succ k ih =>
    unfold written at ih ⊢
    rw [List.range_succ, List.filterMap_append, ← ih]
    cases hnext : e.next? k with
    | none =>
      rw [reached_succ_of_next?_eq_none hnext]
      simp [hnext]
    | some i =>
      obtain ⟨p, hparse, hsteps, hi⟩ := steps_of_next? hnext
      rw [reached_succ hparse hsteps, machine_turn, Machine.step_of_instruction hi, Machine.output_perform,
        Machine.charOf_eq_ofNat, String.toList_append]
      by_cases houtput : i = .output
      . simp [hnext, houtput]
      . simp [hnext, houtput]

theorem untouched_iff (e : Execution n σ) (t : RunState n σ) : e.Untouched t ↔ t = e.start := by
  constructor
  . intro h
    obtain ⟨⟨⟨cells, pointer⟩, ip, output, input, debug⟩, world⟩ := t
    have hcells : cells = .replicate n 0 := by
      apply Vector.ext
      intro address haddress
      rw [Vector.getElem_replicate]
      exact h.cells ⟨address, haddress⟩
    have hpointer : pointer = ⟨0, e.state.machine.tape.pointer.pos⟩ := Fin.ext h.pointer
    have hinput : input = .ofString e.input := Input.eq_of_offset_eq h.text h.offset
    have hip : ip = 0 := h.ip
    have houtput : output = "" := h.output
    have hdebug : debug = e.state.machine.debug := h.debug
    have hworld : world = e.state.world := h.world
    rw [hcells, hpointer, hinput, hip, houtput, hdebug, hworld]
    rfl
  . intro h
    subst h
    refine ⟨rfl, ?_, rfl, rfl, rfl, rfl, rfl, rfl⟩
    intro address
    exact Vector.getElem_replicate _

theorem halts_unmatched_iff (e : Execution n σ) (t : RunState n σ)
    : (∃ bracket position, e.Halts (.failed (.unmatched bracket position)) t)
        ↔
      ¬Balanced (instructions e.source) ∧ e.Untouched t := by
  rw [untouched_iff, ← Program.exists_parse_eq_ok_iff]
  cases hparse : Program.parse e.source with
  | error fault =>
    obtain ⟨bracket, position, rfl⟩ := Program.parse_eq_error hparse
    simp only [halts_iff_of_fault hparse]
    simp
  | ok p =>
    simp only [halts_iff_stops hparse]
    constructor
    . intro ⟨bracket, position, k, u, _, hturn⟩
      -- A round does not end with a fault of this kind.
      obtain ⟨_, hending, _⟩ | ⟨i, fault, _, hblocked, hending, _⟩ := stop_cases hturn
      . contradiction
      . cases hending
        contradiction
    . simp

theorem halts_finished_iff (e : Execution n σ) (t : RunState n σ)
    : e.Halts .finished t
        ↔
      Balanced (instructions e.source) ∧ t.machine.ip = (instructions e.source).length ∧
        ∃ k, t = e.reached k := by
  rw [← Program.exists_parse_eq_ok_iff]
  cases hparse : Program.parse e.source with
  | error fault =>
    simp only [halts_iff_of_fault hparse]
    simp
  | ok p =>
    have hlength := Program.length_of_parse hparse
    rw [halts_iff_stops hparse]
    constructor
    . intro ⟨k, u, hsteps, hturn⟩
      obtain ⟨hi, _, rfl⟩ | ⟨i, fault, _, _, hending, _⟩ := stop_cases hturn
      . have hle := hsteps.ip_le (Program.parse_eq_ok hparse).2 (Nat.zero_le _)
        have hge := Program.length_le_of_instruction?_eq_none hi
        exact ⟨⟨p, rfl⟩, by omega, k, (reached_of_steps hparse hsteps).symm⟩
      . contradiction
    . intro ⟨_, hip, k, hk⟩
      obtain ⟨u, hsteps, _⟩ | ⟨j, ending, u, hjk, hstops, _⟩ :=
        Machine.run_cases e.console p k e.start
      . rw [reached_of_steps hparse hsteps] at hk
        subst hk
        refine ⟨k, t, hsteps, turn_of_end ?_⟩
        apply Array.getElem?_eq_none
        exact Nat.le_of_eq (hlength.trans hip.symm)
      . rw [reached_of_stops hparse hstops hjk] at hk
        subst hk
        obtain ⟨v, hsteps, hturn⟩ := hstops
        obtain ⟨_, rfl, _⟩ | ⟨i, fault, hi, _, _, rfl⟩ := stop_cases hturn
        . exact ⟨j, v, hsteps, hturn⟩
        . -- Where an instruction fails, the program is not at its end.
          have := Program.lt_length_of_instruction? hi
          dsimp only at hip
          omega

variable {τ : Type}

/--
`e.FailsAt k i t`: after `k` instructions have been carried out, the instruction `i` fails and leaves `t`.
Since those instructions nothing has changed, but in debug mode there is a record of the one that fails.
-/
structure FailsAt (e : Execution n (Recording τ)) (k : Nat) (i : Instruction)
    (t : RunState n (Recording τ)) : Prop where
  next : e.next? k = some i
  machine : t.machine = (e.reached k).machine
  world : t.world =
    { (e.reached k).world with
      records := (e.reached k).world.records ++
        if t.machine.debug then [TraceRecord.capture t.machine.ip i t.machine.tape] else [] }

variable {e : Execution n (Recording τ)} {k : Nat} {i : Instruction} {t : RunState n (Recording τ)}
  {provider : StateM τ (Option Char)}

theorem FailsAt.instruction (h : e.FailsAt k i t) : (instructions e.source)[t.machine.ip]? = some i := by
  obtain ⟨p, hparse, _, hi⟩ := steps_of_next? h.next
  rw [← (Program.parse_eq_ok hparse).1, ← p.instruction?_eq_getElem?, h.machine, hi]

theorem halts_runtime_iff (hconsole : e.console = Recording.console provider) {fault : Fault}
    (hfault : fault.kind = .runtime)
    : e.Halts (.failed fault) t
        ↔
      Balanced (instructions e.source) ∧ ∃ k i, e.FailsAt k i t ∧ t.machine.Blocked i fault := by
  rw [← Program.exists_parse_eq_ok_iff]
  cases hparse : Program.parse e.source with
  | error fault' =>
    obtain ⟨bracket, position, rfl⟩ := Program.parse_eq_error hparse
    rw [halts_iff_of_fault hparse]
    constructor
    . intro ⟨hending, _⟩
      cases hending
      contradiction
    . simp
  | ok p =>
    rw [halts_iff_stops hparse]
    constructor
    . intro ⟨k, u, hsteps, hturn⟩
      have hreached := reached_of_steps hparse hsteps
      obtain ⟨_, hending, _⟩ | ⟨i, fault, hi, hblocked, hending, rfl⟩ := stop_cases hturn
      . contradiction
      . cases hending
        refine ⟨⟨p, rfl⟩, k, i, ⟨?_, ?_, ?_⟩, hblocked⟩
        . rw [next?_of_steps hparse hsteps, hi]
        . rw [hreached]
        . rw [hreached, hconsole, Recording.traced_of_instruction provider hi]
    . intro ⟨_, k, i, hfails, hblocked⟩
      obtain ⟨p', hparse', hsteps, hi⟩ := steps_of_next? hfails.next
      obtain rfl : p = p' := Except.ok.inj (hparse.symm.trans hparse')
      refine ⟨k, _, hsteps, ?_⟩
      rw [hfails.machine] at hblocked
      rw [turn_of_blocked hi hblocked, hconsole, Recording.traced_of_instruction provider hi,
        ← hfails.machine, ← hfails.world]

theorem halts_move_iff (hconsole : e.console = Recording.console provider) {fault : Fault}
    {move : Instruction} {position edge : Nat} (hfault : fault.kind = .runtime)
    (hblocked : ∀ (i : Instruction) (m : Machine n),
      m.Blocked i fault ↔ i = move ∧ m.ip = position ∧ m.tape.pointer.val = edge)
    : e.Halts (.failed fault) t
        ↔
      Balanced (instructions e.source) ∧ t.machine.ip = position ∧
        (instructions e.source)[position]? = some move ∧ t.machine.tape.pointer.val = edge ∧
        ∃ k, e.FailsAt k move t := by
  rw [halts_runtime_iff hconsole hfault]
  simp only [hblocked]
  constructor
  . intro ⟨hbalanced, k, i, hfails, hi, hip, hedge⟩
    subst hi hip
    exact ⟨hbalanced, rfl, hfails.instruction, hedge, k, hfails⟩
  . intro ⟨hbalanced, hip, _, hedge, k, hfails⟩
    exact ⟨hbalanced, k, move, hfails, rfl, hip, hedge⟩

end Execution

/--
What an execution leaves at its end, on a machine in any state. Exactly if the brackets do not match it
fails for them, and nothing has happened. It fails at a move off the tape exactly if such a move comes next
after some number of instructions, and keeps what these have left. It finishes exactly if it comes to the
end of the program, and then the output is what its instructions wrote.
-/
theorem execution_keeps_completed_state {τ : Type} (provider : StateM τ (Option Char))
    (source input : String) (s : RunState n (Recording τ))
    : let e := Execution.recorded provider source input s
      ((∃ bracket position t, e.Halts (.failed (.unmatched bracket position)) t)
        ↔ ¬Balanced (instructions source)) ∧
      (∀ t, (∃ bracket position, e.Halts (.failed (.unmatched bracket position)) t)
        ↔ ¬Balanced (instructions source) ∧ e.Untouched t) ∧
      (∀ position t, e.Halts (.failed (.overflow position)) t
        ↔ Balanced (instructions source) ∧ t.machine.ip = position ∧
          (instructions source)[position]? = some .right ∧ t.machine.tape.pointer.val = n - 1 ∧
          ∃ k, e.FailsAt k .right t) ∧
      (∀ position t, e.Halts (.failed (.underflow position)) t
        ↔ Balanced (instructions source) ∧ t.machine.ip = position ∧
          (instructions source)[position]? = some .left ∧ t.machine.tape.pointer.val = 0 ∧
          ∃ k, e.FailsAt k .left t) ∧
      ∀ t, e.Halts .finished t
        ↔ Balanced (instructions source) ∧ t.machine.ip = (instructions source).length ∧
          ∃ k, t = e.reached k ∧ t.machine.output.toList = e.written k := by
  intro e
  refine ⟨?_, e.halts_unmatched_iff, ?_, ?_, ?_⟩
  . constructor
    . intro ⟨bracket, position, t, hhalts⟩
      exact ((e.halts_unmatched_iff t).1 ⟨bracket, position, hhalts⟩).1
    . intro hbalanced
      have huntouched := (e.untouched_iff e.start).2 rfl
      obtain ⟨bracket, position, hhalts⟩ := (e.halts_unmatched_iff e.start).2 ⟨hbalanced, huntouched⟩
      exact ⟨bracket, position, e.start, hhalts⟩
  . intro position t
    exact Execution.halts_move_iff rfl rfl fun _ _ => Machine.blocked_overflow_iff
  . intro position t
    exact Execution.halts_move_iff rfl rfl fun _ _ => Machine.blocked_underflow_iff
  . intro t
    rw [e.halts_finished_iff]
    constructor
    . intro ⟨hbalanced, hip, k, hk⟩
      refine ⟨hbalanced, hip, k, hk, ?_⟩
      rw [hk, e.output_reached]
    . intro ⟨hbalanced, hip, k, hk, _⟩
      exact ⟨hbalanced, hip, k, hk⟩

end Brainfuck
