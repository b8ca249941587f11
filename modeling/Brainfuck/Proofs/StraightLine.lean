import Brainfuck.Proofs.Outcome
import Brainfuck.Proofs.TapeLength

/-!
This module contains the meaning of programs without brackets, told by counting. Such a program carries out its
instructions in order, so that the pointer is where the moves before an instruction have displaced it, and a cell
is the number of increments less the number of decrements that were carried out there.
-/

namespace Brainfuck

open RunState

variable {n : Nat} {σ : Type} {code : List Instruction}

def displacement (code : List Instruction) (k : Nat) : Int :=
  (code.take k).count .right - (code.take k).count .left

inductive LeavesTape (n : Nat) (code : List Instruction) (k : Nat) : Fault → Prop where
  | overflow (hi : code[k]? = some .right) (hlast : displacement code k = n - 1)
      : LeavesTape n code k (.overflow k)
  | underflow (hi : code[k]? = some .left) (hfirst : displacement code k = 0)
      : LeavesTape n code k (.underflow k)

def countAt (code : List Instruction) (i : Instruction) (k : Nat) (address : Int) : Nat :=
  (List.range k).countP fun j => code[j]? = some i ∧ displacement code j = address

def netChange (code : List Instruction) (k : Nat) (address : Int) : Int :=
  countAt code .increment k address - countAt code .decrement k address

/--
The characters that the first `k` instructions write: for each output instruction the one whose code is the net
change of the current cell so far, modulo 256.
-/
def countedOutput (code : List Instruction) (k : Nat) : List Char :=
  (List.range k).filterMap fun j =>
    if code[j]? = some .output then
      some (.ofNat (netChange code j (displacement code j) % 256).toNat)
    else
      none

theorem displacement_succ {k : Nat} {i : Instruction} (hi : code[k]? = some i)
    : displacement code (k + 1)
        =
      displacement code k + (if i = .right then 1 else 0) - (if i = .left then 1 else 0) := by
  unfold displacement
  rw [List.take_add_one, hi, List.count_append, List.count_append]
  cases i <;> simp <;> omega

theorem countAt_succ (code : List Instruction) (i : Instruction) (k : Nat) (address : Int)
    : countAt code i (k + 1) address
        =
      countAt code i k address + if code[k]? = some i ∧ displacement code k = address then 1 else 0 := by
  unfold countAt
  rw [List.range_succ, List.countP_append, List.countP_singleton]
  simp only [decide_eq_true_eq]

theorem netChange_succ {k : Nat} {i : Instruction} (hi : code[k]? = some i) (address : Int)
    : netChange code (k + 1) address
        =
      netChange code k address +
        if displacement code k = address then
          (if i = .increment then 1 else 0) - (if i = .decrement then 1 else 0)
        else
          0 := by
  unfold netChange
  rw [countAt_succ, countAt_succ, hi]
  by_cases haddress : displacement code k = address
  . cases i <;> simp [haddress] <;> omega
  . simp [haddress]

theorem LeavesTape.lt_length {k : Nat} {fault : Fault} (h : LeavesTape n code k fault) : k < code.length := by
  cases h with
  | overflow hi | underflow hi => exact (List.getElem?_eq_some_iff.1 hi).1

theorem Balanced.of_not_isBracket (hfree : ∀ i ∈ code, ¬i.IsBracket) : Balanced code := by
  induction code with
  | nil => exact .nil
  | cons i code ih =>
    obtain ⟨hi, hcode⟩ := List.forall_mem_cons.1 hfree
    exact (Balanced.singleton hi).append (ih hcode)

theorem Machine.cell_perform {p : Program} {m : Machine n} {i : Instruction} (hi : i ≠ .input)
    (answer : Option Char) (address : Nat)
    : ((m.perform p i).machine answer).tape.cell address
        =
      match i with
      | .increment => if m.tape.pointer.val = address then m.tape.cell address + 1 else m.tape.cell address
      | .decrement => if m.tape.pointer.val = address then m.tape.cell address - 1 else m.tape.cell address
      | _ => m.tape.cell address := by
  cases i with
  | input => contradiction
  | right =>
    unfold perform
    by_cases hlt : m.tape.pointer.val + 1 < n
    . rw [Tape.moveRight?_of_lt hlt]
      rfl
    . rw [(Tape.moveRight?_eq_none_iff _).2 (by omega)]
      rfl
  | left =>
    unfold perform
    by_cases hpos : 0 < m.tape.pointer.val
    . rw [Tape.moveLeft?_of_pos hpos]
      rfl
    . rw [(Tape.moveLeft?_eq_none_iff _).2 (by omega)]
      rfl
  | increment | decrement =>
    refine (Tape.cell_write _ _ _).trans ?_
    dsimp only
    split
    . next heq => rw [Tape.current_eq_cell, heq]
    . rfl
  | output | loopOpen | loopClose => rfl

namespace RunState

structure Displaced (code : List Instruction) (k : Nat) (s : RunState n σ) : Prop where
  ip : s.machine.ip = k
  pointer : s.machine.tape.pointer.val = displacement code k

def Tallied (code : List Instruction) (k : Nat) (s : RunState n σ) : Prop :=
  ∀ address < n, (s.machine.tape.cell address).toNat = netChange code k address % 256

variable {console : Console (StateM σ)} {p : Program} {s t : RunState n σ} {k : Nat} {i : Instruction}

theorem Displaced.blocked_iff (h : s.Displaced code k) (hi : code[k]? = some i) {fault : Fault}
    : s.machine.Blocked i fault ↔ LeavesTape n code k fault := by
  have hip := h.ip
  have hpointer := h.pointer
  constructor
  . intro hblocked
    cases hblocked with
    | overflow hright hlast =>
      subst hright
      rw [hip]
      exact .overflow hi (by omega)
    | underflow hleft hfirst =>
      subst hleft
      rw [hip]
      exact .underflow hi (by omega)
  . intro hleaves
    cases hleaves with
    | overflow hright hlast =>
      rw [hi] at hright
      rw [← hip]
      exact .overflow (Option.some.inj hright) (by omega)
    | underflow hleft hfirst =>
      rw [hi] at hleft
      rw [← hip]
      exact .underflow (Option.some.inj hleft) (by omega)

theorem Displaced.pointer_perform (h : s.Displaced code k) (hi : code[k]? = some i)
    (hstays : ∀ fault, ¬LeavesTape n code k fault) (p : Program) (answer : Option Char)
    : ((s.machine.perform p i).machine answer).tape.pointer.val = displacement code (k + 1) := by
  have hpointer := h.pointer
  have hlt := s.machine.tape.pointer.isLt
  rw [Machine.pointer_perform, displacement_succ hi, ← hpointer]
  cases i with
  | right =>
    have hroom : s.machine.tape.pointer.val + 1 < n := by
      apply Nat.lt_of_not_le
      intro hle
      exact hstays _ (.overflow hi (by omega))
    simp [hroom]
  | left =>
    have hpos : 0 < s.machine.tape.pointer.val := by
      apply Nat.pos_of_ne_zero
      intro hzero
      exact hstays _ (.underflow hi (by omega))
    simp only [reduceCtorEq, reduceIte]
    omega
  | increment | decrement | output | input | loopOpen | loopClose => simp

theorem Displaced.turn (console : Console (StateM σ)) (h : s.Displaced code k) (hp : p.code.toList = code)
    (hi : code[k]? = some i) (hbracket : ¬i.IsBracket) (hstays : ∀ fault, ¬LeavesTape n code k fault)
    : ∃ t, s.turn console p = .next t ∧ t.Displaced code (k + 1) := by
  have hnext : p.instruction? s.machine.ip = some i := by rw [p.instruction?_eq_getElem?, hp, h.ip, hi]
  cases hturn : s.turn console p with
  | stop ending t =>
    -- Only a move off the tape could stop the run here.
    obtain ⟨hend, _⟩ | ⟨i', fault, hi', hblocked, _⟩ := stop_cases hturn
    . rw [hend] at hnext
      contradiction
    . obtain rfl := Option.some.inj (hi'.symm.trans hnext)
      exact absurd ((h.blocked_iff hi).1 hblocked) (hstays fault)
  | next t =>
    refine ⟨t, rfl, ?_, ?_⟩
    . obtain ⟨_, ⟨i', hi', hip⟩, _⟩ := succeeds_of_turn hturn
      obtain rfl := Option.some.inj (hi'.symm.trans hnext)
      obtain hip | ⟨hbad, _⟩ := hip
      . rw [hip, h.ip]
      . exact absurd hbad hbracket
    . have hmachine := machine_turn console p s
      rw [hturn, Machine.step_of_instruction hnext] at hmachine
      rw [show t.machine = _ from hmachine, h.pointer_perform hi hstays]

theorem Tallied.turn (h : s.Tallied code k) (hdisplaced : s.Displaced code k)
    (hnext : p.instruction? s.machine.ip = some i) (hi : code[k]? = some i) (hinput : i ≠ .input)
    : (s.turn console p).state.Tallied code (k + 1) := by
  intro address haddress
  have hcell := h address haddress
  have hpointer := hdisplaced.pointer
  rw [machine_turn, Machine.step_of_instruction hnext, Machine.cell_perform hinput, netChange_succ hi]
  cases i with
  | increment =>
    dsimp only
    by_cases hhere : s.machine.tape.pointer.val = address
    . rw [if_pos hhere, if_pos (by omega), UInt8.toNat_add]
      simp only [reduceCtorEq, reduceIte, UInt8.reduceToNat]
      omega
    . rw [if_neg hhere, if_neg (by omega), hcell, Int.add_zero]
  | decrement =>
    dsimp only
    by_cases hhere : s.machine.tape.pointer.val = address
    . rw [if_pos hhere, if_pos (by omega), UInt8.toNat_sub]
      simp only [reduceCtorEq, reduceIte, UInt8.reduceToNat]
      omega
    . rw [if_neg hhere, if_neg (by omega), hcell, Int.add_zero]
  | right | left | output | input | loopOpen | loopClose => simpa using hcell

end RunState

/--
How a program without brackets ends after `k` instructions: it fails at the first move off the tape, and finishes if
there is none.
-/
inductive EndsAt (n : Nat) (code : List Instruction) (k : Nat) : Ending → Prop where
  | failed {fault : Fault} (hleaves : LeavesTape n code k fault)
      (hfirst : ∀ j < k, ∀ earlier, ¬LeavesTape n code j earlier) : EndsAt n code k (.failed fault)
  | finished (hlength : k = code.length) (hstays : ∀ j fault, ¬LeavesTape n code j fault)
      : EndsAt n code k .finished

theorem exists_endsAt (n : Nat) (code : List Instruction) : ∃ k ending, EndsAt n code k ending := by
  classical
  by_cases hleaves : ∃ k fault, LeavesTape n code k fault
  . obtain ⟨fault, hfault⟩ := Nat.find_spec hleaves
    refine ⟨_, _, .failed hfault ?_⟩
    intro j hj earlier hearlier
    exact Nat.find_min hleaves hj ⟨earlier, hearlier⟩
  . simp only [not_exists] at hleaves
    exact ⟨_, _, .finished rfl hleaves⟩

namespace Execution

structure Unbroken (e : Execution n σ) (p : Program) (k : Nat) : Prop where
  parse : Program.parse e.source = .ok p
  not_isBracket : ∀ i ∈ instructions e.source, ¬i.IsBracket
  le_length : k ≤ (instructions e.source).length
  stays : ∀ j < k, ∀ fault, ¬LeavesTape n (instructions e.source) j fault

variable {e : Execution n σ} {p : Program} {j k : Nat} {ending : Ending}

namespace Unbroken

theorem mono (h : e.Unbroken p k) (hjk : j ≤ k) : e.Unbroken p j where
  parse := h.parse
  not_isBracket := h.not_isBracket
  le_length := Nat.le_trans hjk h.le_length
  stays l hl := h.stays l (Nat.lt_of_lt_of_le hl hjk)

theorem code_eq (h : e.Unbroken p k) : p.code.toList = instructions e.source :=
  (Program.parse_eq_ok h.parse).1

theorem steps (h : e.Unbroken p k)
    : Steps e.console p k e.start (e.reached k) ∧ (e.reached k).Displaced (instructions e.source) k := by
  induction k with
  | zero =>
    rw [reached_zero]
    exact ⟨.refl _, rfl, rfl⟩
  | succ k ih =>
    obtain ⟨hsteps, hdisplaced⟩ := ih (h.mono (Nat.le_succ k))
    have hi := List.getElem?_eq_getElem (Nat.lt_of_succ_le h.le_length)
    have hbracket := h.not_isBracket _ (List.mem_of_getElem? hi)
    have hstays := h.stays k (Nat.lt_succ_self k)
    obtain ⟨t, hturn, ht⟩ := hdisplaced.turn e.console h.code_eq hi hbracket hstays
    have hsteps := hsteps.trans (.single hturn)
    rw [reached_of_steps h.parse hsteps]
    exact ⟨hsteps, ht⟩

theorem instruction? (h : e.Unbroken p k)
    : p.instruction? (e.reached k).machine.ip = (instructions e.source)[k]? := by
  rw [p.instruction?_eq_getElem?, h.code_eq, h.steps.2.ip]

theorem next? (h : e.Unbroken p k) : e.next? k = (instructions e.source)[k]? := by
  rw [next?_of_steps h.parse h.steps.1, h.instruction?]

theorem tallied (h : e.Unbroken p k) (hinput : .input ∉ instructions e.source)
    : (e.reached k).Tallied (instructions e.source) k := by
  induction k with
  | zero =>
    intro address _
    have hblank : e.start.machine.tape = .blank e.state.machine.tape.pointer.pos := rfl
    rw [reached_zero, hblank, Tape.cell_blank]
    rfl
  | succ k ih =>
    have hbefore := h.mono (Nat.le_succ k)
    obtain ⟨hsteps, hdisplaced⟩ := hbefore.steps
    have hi := List.getElem?_eq_getElem (Nat.lt_of_succ_le h.le_length)
    rw [reached_succ h.parse hsteps]
    apply (ih hbefore).turn hdisplaced (hbefore.instruction?.trans hi) hi
    intro hread
    rw [hread] at hi
    exact hinput (List.mem_of_getElem? hi)

theorem current (h : e.Unbroken p k) (hinput : .input ∉ instructions e.source)
    : (e.reached k).machine.tape.current.toNat
        =
      netChange (instructions e.source) k (displacement (instructions e.source) k) % 256 := by
  have htallied := h.tallied hinput _ (e.reached k).machine.tape.pointer.isLt
  rwa [← Tape.current_eq_cell, h.steps.2.pointer] at htallied

theorem output (h : e.Unbroken p k) (hinput : .input ∉ instructions e.source)
    : (e.reached k).machine.output.toList = countedOutput (instructions e.source) k := by
  rw [e.output_reached]
  apply List.filterMap_congr
  intro j hj
  have hbefore := h.mono (Nat.le_of_lt (List.mem_range.1 hj))
  rw [hbefore.next?, ← hbefore.current hinput, Int.toNat_natCast]

end Unbroken

/--
`e.CarriesOut k t`: the execution has carried out the first `k` instructions of the program, each of them once and
in order, and `t` is what they leave. The instruction behind them, if there is one, is the last that is tried.
-/
structure CarriesOut (e : Execution n σ) (k : Nat) (t : RunState n σ) : Prop where
  order : ∀ j, e.next? j = if j ≤ k then (instructions e.source)[j]? else none
  ip : t.machine.ip = k
  pointer : t.machine.tape.pointer.val = displacement (instructions e.source) k

structure Counted (code : List Instruction) (k : Nat) (t : RunState n σ) : Prop where
  cells : ∀ address : Fin n, (t.machine.tape.cells.get address).toNat = netChange code k address.val % 256
  output : t.machine.output.toList = countedOutput code k

section Ends

variable (hparse : Program.parse e.source = .ok p) (hfree : ∀ i ∈ instructions e.source, ¬i.IsBracket)
  (hends : EndsAt n (instructions e.source) k ending)

include hparse hfree hends

theorem unbroken_of_endsAt : e.Unbroken p k := by
  cases hends with
  | failed hleaves hfirst => exact ⟨hparse, hfree, Nat.le_of_lt hleaves.lt_length, hfirst⟩
  | finished hlength hstays => exact ⟨hparse, hfree, Nat.le_of_eq hlength, fun j _ => hstays j⟩

theorem exists_stops_of_endsAt
    : ∃ t, Stops e.console p k e.start ending t ∧ t.machine = (e.reached k).machine := by
  have hunbroken := unbroken_of_endsAt hparse hfree hends
  obtain ⟨hsteps, hdisplaced⟩ := hunbroken.steps
  have hnext := hunbroken.instruction?
  cases hends with
  | failed hleaves _ =>
    have hi := List.getElem?_eq_getElem hleaves.lt_length
    rw [hi] at hnext
    have hblocked := (hdisplaced.blocked_iff hi).2 hleaves
    exact ⟨_, ⟨_, hsteps, turn_of_blocked hnext hblocked⟩, rfl⟩
  | finished hlength _ =>
    rw [List.getElem?_eq_none (Nat.le_of_eq hlength.symm)] at hnext
    exact ⟨_, ⟨_, hsteps, turn_of_end hnext⟩, rfl⟩

theorem next?_of_endsAt (j : Nat) : e.next? j = if j ≤ k then (instructions e.source)[j]? else none := by
  have hunbroken := unbroken_of_endsAt hparse hfree hends
  by_cases hjk : j ≤ k
  . rw [if_pos hjk, (hunbroken.mono hjk).next?]
  . obtain ⟨t, hstops, _⟩ := exists_stops_of_endsAt hparse hfree hends
    rw [if_neg hjk]
    exact next?_of_outcome (outcome_of_stops hparse hstops (Nat.lt_of_not_le hjk)) hstops.ending_ne_interrupted

end Ends

end Execution

/--
Programs without brackets are decided by the displacements of their beginnings. On a tape of any length and with
any console, the execution halts; it fails at the first move off the tape, and finishes if there is no such move.
What comes before has been carried out once and in order, and if nothing is read, the cells and the output can be
counted.
-/
theorem bracket_free_execution_decided (e : Execution n σ)
    (hfree : ∀ i ∈ instructions e.source, ¬i.IsBracket)
    : let code := instructions e.source
      (∃ ending t, e.Halts ending t) ∧
      (∀ ending, (∃ t, e.Halts ending t) ↔ ∃ k, EndsAt n code k ending) ∧
      ∀ ending t k, e.Halts ending t → EndsAt n code k ending →
        e.CarriesOut k t ∧ (.input ∉ code → Execution.Counted code k t) := by
  intro code
  obtain ⟨p, hparse⟩ := (Program.exists_parse_eq_ok_iff e.source).2 (Balanced.of_not_isBracket hfree)
  have hhalts : ∀ {k ending}, EndsAt n code k ending →
      ∃ t, e.Halts ending t ∧ t.machine = (e.reached k).machine := by
    intro k ending hends
    obtain ⟨t, hstops, hmachine⟩ := Execution.exists_stops_of_endsAt hparse hfree hends
    exact ⟨t, (Execution.halts_iff_stops hparse).2 ⟨k, hstops⟩, hmachine⟩
  -- An execution has one ending only, so it is the one that counting gives.
  obtain ⟨last, final, hfinal⟩ := exists_endsAt n code
  obtain ⟨u, hu, _⟩ := hhalts hfinal
  refine ⟨⟨final, u, hu⟩, ?_, ?_⟩
  . intro ending
    constructor
    . intro ⟨t, ht⟩
      rw [(ht.unique hu).1]
      exact ⟨last, hfinal⟩
    . intro ⟨k, hends⟩
      obtain ⟨t, ht, _⟩ := hhalts hends
      exact ⟨t, ht⟩
  . intro ending t k ht hends
    obtain ⟨v, hv, hmachine⟩ := hhalts hends
    rw [← (ht.unique hv).2] at hmachine
    have hunbroken := Execution.unbroken_of_endsAt hparse hfree hends
    have hdisplaced := hunbroken.steps.2
    refine ⟨⟨Execution.next?_of_endsAt hparse hfree hends, ?_, ?_⟩, fun hinput => ⟨?_, ?_⟩⟩
    . rw [hmachine, hdisplaced.ip]
    . rw [hmachine, hdisplaced.pointer]
    . intro address
      rw [hmachine, ← hunbroken.tallied hinput address.val address.isLt, Tape.cell,
        Vector.getElem?_eq_getElem address.isLt]
      rfl
    . rw [hmachine, hunbroken.output hinput]

theorem bracket_free_execution_decided_underflow
    : let e := Execution.recorded answersInOrder "+>-.<<" "" ⟨Machine.create 2, { source := [] }⟩
      (∀ i ∈ instructions e.source, ¬i.IsBracket) ∧ .input ∉ instructions e.source ∧
        ∃ t, e.Halts (.failed (.underflow 5)) t ∧ t.machine.tape.pointer.val = 0 ∧
          (∀ address : Fin (max 2 1), (t.machine.tape.cells.get address).toNat = if address.val = 0 then 1 else 255) ∧
          t.machine.output.toList = ['ÿ'] := by
  intro e
  let code : List Instruction := [.increment, .right, .decrement, .output, .left, .left]
  have hcode : instructions e.source = code := by decide +kernel
  have hfree : ∀ i ∈ instructions e.source, ¬i.IsBracket := by
    rw [hcode]
    decide
  have hinput : .input ∉ instructions e.source := by
    rw [hcode]
    decide
  have hright : ∀ j < 5, code[j]? = some .right → displacement code j ≠ (max 2 1 : Nat) - 1 := by decide
  have hleft : ∀ j < 5, code[j]? = some .left → displacement code j ≠ 0 := by decide
  have hends : EndsAt (max 2 1) (instructions e.source) 5 (.failed (.underflow 5)) := by
    rw [hcode]
    refine .failed (.underflow rfl rfl) ?_
    intro j hj earlier hearlier
    cases hearlier with
    | overflow hi hlast => exact hright j hj hi hlast
    | underflow hi hfirst => exact hleft j hj hi hfirst
  have hdisplacement : displacement code 5 = 0 := by decide
  have hchange : ∀ address : Fin (max 2 1),
      netChange code 5 address.val % 256 = if address.val = 0 then 1 else 255 := by decide
  obtain ⟨_, hiff, hleaves⟩ := bracket_free_execution_decided e hfree
  obtain ⟨t, ht⟩ := (hiff _).2 ⟨5, hends⟩
  obtain ⟨hcarries, hcounted⟩ := hleaves _ t 5 ht hends
  have hpointer := hcarries.pointer
  obtain ⟨hcells, houtput⟩ := hcounted hinput
  rw [hcode] at hpointer hcells houtput
  refine ⟨hfree, hinput, t, ht, ?_, ?_, ?_⟩
  . omega
  . intro address
    have hcell := hcells address
    rw [hchange] at hcell
    by_cases hzero : address.val = 0
    . rw [if_pos hzero] at hcell ⊢
      omega
    . rw [if_neg hzero] at hcell ⊢
      omega
  . rw [houtput]
    decide

end Brainfuck
