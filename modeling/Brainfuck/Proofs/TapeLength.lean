import Brainfuck.Proofs.Execution
import Mathlib.Algebra.Order.SuccPred
import Mathlib.Data.Nat.SuccPred
import Mathlib.Order.SuccPred.Archimedean

/-!
This module contains the comparison of executions on tapes of different lengths. Two tapes are alike if they
show the same unbounded tape, on which the cells that a tape does not have are zero. Runs from like states
stay alike as long as the pointer stays on both tapes, and the shorter tape is left by the same instruction
that takes the longer one there.
-/

namespace Brainfuck

open RunState

variable {N n : Nat}

namespace Tape

/--
The value at an address, and zero for a cell that the tape does not have.
-/
def cell (t : Tape n) (address : Nat) : UInt8 :=
  t.cells[address]?.getD 0

structure Alike (t : Tape N) (t' : Tape n) : Prop where
  pointer : t'.pointer.val = t.pointer.val
  cell : ∀ address, t'.cell address = t.cell address

theorem current_eq_cell (t : Tape n) : t.current = t.cell t.pointer.val := by
  unfold current cell
  simp

theorem cell_write (t : Tape n) (value : UInt8) (address : Nat)
    : (t.write value).cell address = if t.pointer.val = address then value else t.cell address := by
  unfold write cell
  dsimp only
  rw [Vector.getElem?_set]
  split <;> simp

theorem cell_blank (h : 0 < n) (address : Nat) : (blank h).cell address = 0 := by
  unfold blank cell
  dsimp only
  rw [Vector.getElem?_replicate]
  split <;> rfl

namespace Alike

variable {t : Tape N} {t' : Tape n}

theorem current (h : t.Alike t') : t'.current = t.current := by
  rw [current_eq_cell, current_eq_cell, h.cell, h.pointer]

theorem write (h : t.Alike t') (value : UInt8) : (t.write value).Alike (t'.write value) where
  pointer := h.pointer
  cell address := by rw [cell_write, cell_write, h.pointer, h.cell]

theorem move (h : t.Alike t') {pointer : Fin N} {pointer' : Fin n} (hpointer : pointer'.val = pointer.val)
    : Alike { t with pointer } { t' with pointer := pointer' } where
  pointer := hpointer
  cell := h.cell

end Alike

end Tape

namespace Machine

structure Alike (m : Machine N) (m' : Machine n) : Prop where
  tape : m.tape.Alike m'.tape
  ip : m'.ip = m.ip
  output : m'.output = m.output
  input : m'.input = m.input

variable {m : Machine N} {m' : Machine n}

theorem Alike.setTape (h : m.Alike m') {tape : Tape N} {tape' : Tape n} (htape : tape.Alike tape')
    : Alike { m with tape } { m' with tape := tape' } :=
  ⟨htape, h.ip, h.output, h.input⟩

theorem Alike.push (h : m.Alike m') (c : Char)
    : Alike { m with output := m.output.push c } { m' with output := m'.output.push c } :=
  ⟨h.tape, h.ip, congrArg (·.push c) h.output, h.input⟩

theorem Alike.setInput (h : m.Alike m') (input : Input) : Alike { m with input } { m' with input } :=
  ⟨h.tape, h.ip, h.output, rfl⟩

theorem Alike.advanceFrom (h : m.Alike m') {ip ip' : Nat} (hip : ip' = ip)
    : (m.advanceFrom ip).Alike (m'.advanceFrom ip') :=
  ⟨h.tape, congrArg (· + 1) hip, h.output, h.input⟩

theorem Alike.store (h : m.Alike m') (c : Option Char) : (m.store c).Alike (m'.store c) :=
  (h.setTape (h.tape.write _)).advanceFrom h.ip

end Machine

inductive Transition.Alike : Transition N → Transition n → Prop where
  | halt {m : Machine N} {m' : Machine n} (h : m.Alike m') : Alike (.halt m) (.halt m')
  | fail {m : Machine N} {m' : Machine n} (fault : Fault) (h : m.Alike m')
      : Alike (.fail fault m) (.fail fault m')
  | advance {m : Machine N} {m' : Machine n} (h : m.Alike m') : Alike (.advance m) (.advance m')
  | write {m : Machine N} {m' : Machine n} (c : Char) (h : m.Alike m') : Alike (.write c m) (.write c m')
  | ask {resume : Option Char → Machine N} {resume' : Option Char → Machine n}
      (h : ∀ c, (resume c).Alike (resume' c)) : Alike (.ask resume) (.ask resume')

theorem Machine.Alike.perform {m : Machine N} {m' : Machine n} (h : m.Alike m') (p : Program)
    {i : Instruction}
    (hright : i = .right → (m.tape.pointer.val + 1 < N ↔ m.tape.pointer.val + 1 < n))
    : (m.perform p i).Alike (m'.perform p i) := by
  have hpointer := h.tape.pointer
  cases i with
  | right =>
    specialize hright rfl
    unfold Machine.perform
    by_cases hlt : m.tape.pointer.val + 1 < N
    . rw [Tape.moveRight?_of_lt hlt, Tape.moveRight?_of_lt (show m'.tape.pointer.val + 1 < n by omega)]
      exact .advance ((h.setTape (h.tape.move (by simp [hpointer]))).advanceFrom h.ip)
    . rw [(Tape.moveRight?_eq_none_iff _).2 (show m.tape.pointer.val + 1 = N by omega),
        (Tape.moveRight?_eq_none_iff _).2 (show m'.tape.pointer.val + 1 = n by omega), h.ip]
      exact .fail _ h
  | left =>
    unfold Machine.perform
    by_cases hpos : 0 < m.tape.pointer.val
    . rw [Tape.moveLeft?_of_pos hpos, Tape.moveLeft?_of_pos (show 0 < m'.tape.pointer.val by omega)]
      exact .advance ((h.setTape (h.tape.move (by simp [hpointer]))).advanceFrom h.ip)
    . rw [(Tape.moveLeft?_eq_none_iff _).2 (show m.tape.pointer.val = 0 by omega),
        (Tape.moveLeft?_eq_none_iff _).2 (show m'.tape.pointer.val = 0 by omega), h.ip]
      exact .fail _ h
  | increment | decrement =>
    unfold Machine.perform
    rw [h.tape.current]
    exact .advance ((h.setTape (h.tape.write _)).advanceFrom h.ip)
  | output =>
    unfold Machine.perform
    rw [h.tape.current]
    exact .write _ ((h.push _).advanceFrom h.ip)
  | input =>
    unfold Machine.perform
    rw [h.input]
    dsimp only
    split
    . exact .advance ((h.setInput _).store _)
    . exact .ask h.store
  | loopOpen | loopClose =>
    unfold Machine.perform
    rw [h.tape.current, h.ip]
    exact .advance (h.advanceFrom rfl)

variable {τ : Type}

structure RunState.Alike (s : RunState N (Recording τ)) (s' : RunState n (Recording τ)) : Prop where
  machine : s.machine.Alike s'.machine
  source : s'.world.source = s.world.source
  asked : s'.world.asked = s.world.asked

inductive Turn.Alike : Turn N (Recording τ) → Turn n (Recording τ) → Prop where
  | stop {s : RunState N (Recording τ)} {s' : RunState n (Recording τ)} (ending : Ending) (h : s.Alike s')
      : Alike (.stop ending s) (.stop ending s')
  | next {s : RunState N (Recording τ)} {s' : RunState n (Recording τ)} (h : s.Alike s')
      : Alike (.next s) (.next s')

variable {provider : StateM τ (Option Char)} {p : Program} {s t : RunState N (Recording τ)}
  {s' : RunState n (Recording τ)}

namespace RunState.Alike

theorem setMachine (h : s.Alike s') {m : Machine N} {m' : Machine n} (hm : m.Alike m')
    : Alike { s with machine := m } { s' with machine := m' } :=
  ⟨hm, h.source, h.asked⟩

theorem traced (h : s.Alike s') (provider : StateM τ (Option Char)) (p : Program)
    : Alike { s with world := s.traced (Recording.console provider) p }
        { s' with world := s'.traced (Recording.console provider) p } := by
  rw [Recording.traced_console, Recording.traced_console]
  exact ⟨h.machine, h.source, h.asked⟩

theorem step (h : s.Alike s')
    (hright : p.instruction? s.machine.ip = some .right →
      (s.machine.tape.pointer.val + 1 < N ↔ s.machine.tape.pointer.val + 1 < n))
    : (s.machine.step p).Alike (s'.machine.step p) := by
  unfold Machine.step
  rw [h.machine.ip]
  split
  . exact .halt h.machine
  . next i hi =>
    apply h.machine.perform
    intro hir
    rw [hir] at hi
    exact hright hi

theorem turn (h : s.Alike s') (provider : StateM τ (Option Char))
    (hright : p.instruction? s.machine.ip = some .right →
      (s.machine.tape.pointer.val + 1 < N ↔ s.machine.tape.pointer.val + 1 < n))
    : (s.turn (Recording.console provider) p).Alike (s'.turn (Recording.console provider) p) := by
  have htraced := h.traced provider p
  have halike := h.step hright
  generalize hstep : s.machine.step p = transition at halike
  generalize hstep' : s'.machine.step p = transition' at halike
  cases halike with
  | halt hm =>
    rw [turn_of_halt hstep, turn_of_halt hstep']
    exact .stop _ (htraced.setMachine hm)
  | fail fault hm =>
    rw [turn_of_fail hstep, turn_of_fail hstep']
    exact .stop _ (htraced.setMachine hm)
  | advance hm =>
    rw [turn_of_advance hstep, turn_of_advance hstep']
    exact .next (htraced.setMachine hm)
  | write c hm =>
    -- The modes can differ, so one world may be told the character and the other not.
    rw [Recording.turn_console_of_write provider hstep, Recording.turn_console_of_write provider hstep']
    exact .next ⟨hm, htraced.source, htraced.asked⟩
  | ask hm =>
    rw [turn_of_ask hstep, turn_of_ask hstep', Recording.ask_console, Recording.ask_console,
      htraced.source, htraced.asked]
    exact .next ⟨hm _, rfl, rfl⟩

end RunState.Alike

theorem Turn.Alike.exists_next {turn : Turn n (Recording τ)} (h : (Turn.next t).Alike turn)
    : ∃ t', turn = .next t' ∧ t.Alike t' := by
  cases h with
  | next h => exact ⟨_, rfl, h⟩

theorem Turn.Alike.exists_stop {ending : Ending} {turn : Turn n (Recording τ)}
    (h : (Turn.stop ending t).Alike turn) : ∃ t', turn = .stop ending t' ∧ t.Alike t' := by
  cases h with
  | stop _ h => exact ⟨_, rfl, h⟩

theorem RunState.pointer_of_next {σ : Type} {console : Console (StateM σ)} {s t : RunState n σ}
    (hi : p.instruction? s.machine.ip = some .right) (h : s.turn console p = .next t)
    : t.machine.tape.pointer.val = s.machine.tape.pointer.val + 1 := by
  have hpointer := s.machine.pointer_perform p .right (console.ask.run (s.traced console p)).1
  have hmachine := s.machine_turn console p
  rw [h, Machine.step_of_instruction hi] at hmachine
  rw [← hmachine] at hpointer
  have hlast : s.machine.tape.pointer.val + 1 ≠ n := by
    intro hlast
    rw [turn_of_blocked hi (.overflow rfl hlast)] at h
    contradiction
  have hlt := s.machine.tape.pointer.isLt
  dsimp only [Turn.state] at hpointer
  rw [hpointer, if_pos (by omega)]

theorem Steps.alike {k : Nat} {u : RunState N (Recording τ)}
    (hsteps : Steps (Recording.console provider) p k s u) (h : s.Alike s')
    (hfits : ∀ j v, j ≤ k → Steps (Recording.console provider) p j s v →
      v.machine.tape.pointer.val < n)
    : ∃ u', Steps (Recording.console provider) p k s' u' ∧ u.Alike u' := by
  induction hsteps generalizing s' with
  | refl s => exact ⟨s', .refl s', h⟩
  | @head k s t u hturn hsteps ih =>
    -- The turn was taken on the one tape, and by `hfits` it stays on the other.
    have hright (hi : p.instruction? s.machine.ip = some .right)
        : s.machine.tape.pointer.val + 1 < N ↔ s.machine.tape.pointer.val + 1 < n := by
      have hpointer := pointer_of_next hi hturn
      have hlt := t.machine.tape.pointer.isLt
      have hlt' := hfits 1 t (by omega) (.single hturn)
      omega
    have halike := h.turn provider hright
    rw [hturn] at halike
    obtain ⟨t', hturn', ht⟩ := halike.exists_next
    have hfits' (j : Nat) (v : RunState N (Recording τ)) (hj : j ≤ k)
        (hv : Steps (Recording.console provider) p j t v) : v.machine.tape.pointer.val < n := by
      apply hfits (j + 1) v (by omega)
      exact .head hturn hv
    obtain ⟨u', hsteps', hu⟩ := ih ht hfits'
    exact ⟨u', .head hturn' hsteps', hu⟩

namespace Execution

structure Alike (provider : StateM τ (Option Char)) (e : Execution N (Recording τ))
    (e' : Execution n (Recording τ)) : Prop where
  console : e.console = Recording.console provider
  console' : e'.console = Recording.console provider
  source : e'.source = e.source
  start : e.start.Alike e'.start

theorem alike_recorded (provider : StateM τ (Option Char)) (source input : String) (m : Machine N)
    (m' : Machine n) (r : Recording τ)
    : Alike provider (recorded provider source input ⟨m, r⟩)
        (recorded provider source input ⟨m', r⟩) := by
  refine ⟨rfl, rfl, rfl, ⟨⟨rfl, ?_⟩, rfl, rfl, rfl⟩, rfl, rfl⟩
  intro address
  exact (Tape.cell_blank _ address).trans (Tape.cell_blank _ address).symm

variable {e : Execution N (Recording τ)} {e' : Execution n (Recording τ)} {ending : Ending} {k : Nat}

theorem Alike.steps (h : Alike provider e e') (hparse : Program.parse e.source = .ok p)
    {u : RunState N (Recording τ)} (hsteps : Steps e.console p k e.start u)
    (hfits : ∀ j, j ≤ k → (e.reached j).machine.tape.pointer.val < n)
    : ∃ u', Steps e'.console p k e'.start u' ∧ u.Alike u' := by
  have hfits' (j : Nat) (v : RunState N (Recording τ)) (hj : j ≤ k) (hv : Steps e.console p j e.start v)
      : v.machine.tape.pointer.val < n := by
    rw [← reached_of_steps hparse hv]
    exact hfits j hj
  rw [h.console] at hsteps hfits'
  rw [h.console']
  exact hsteps.alike h.start hfits'

theorem Alike.halts (h : Alike provider e e') (hhalts : e.Halts ending t)
    (hending : ∀ position, ending ≠ .failed (.overflow position))
    (hfits : ∀ k, (e.reached k).machine.tape.pointer.val < n)
    : ∃ t', e'.Halts ending t' ∧ t.Alike t' := by
  cases hparse : Program.parse e.source with
  | error fault =>
    obtain ⟨hfault, ht⟩ := (halts_iff_of_fault hparse).1 hhalts
    rw [← h.source] at hparse
    refine ⟨_, (halts_iff_of_fault hparse).2 ⟨hfault, rfl⟩, ?_⟩
    rw [ht]
    exact h.start
  | ok p =>
    obtain ⟨k, u, hsteps, hturn⟩ := (halts_iff_stops hparse).1 hhalts
    obtain ⟨u', hsteps', hu⟩ := h.steps hparse hsteps fun j _ => hfits j
    have hright (hi : p.instruction? u.machine.ip = some .right)
        : u.machine.tape.pointer.val + 1 < N ↔ u.machine.tape.pointer.val + 1 < n := by
      -- A move to the right that ends the run has left the tape.
      obtain ⟨hnone, _⟩ | ⟨i, fault, hi', hblocked, hfault, _⟩ := stop_cases hturn
      . rw [hnone] at hi
        contradiction
      . rw [hi] at hi'
        cases hi'
        cases hblocked with
        | overflow _ _ => exact absurd hfault (hending _)
        | underflow hleft _ => contradiction
    have halike := hu.turn provider hright
    rw [← h.console, hturn, h.console, ← h.console'] at halike
    obtain ⟨t', hturn', ht⟩ := halike.exists_stop
    rw [← h.source] at hparse
    exact ⟨t', (halts_iff_stops hparse).2 ⟨k, u', hsteps', hturn'⟩, ht⟩

theorem Alike.halts_overflow (h : Alike provider e e') (hnext : e.next? k = some .right)
    (hfits : ∀ j, j ≤ k → (e.reached j).machine.tape.pointer.val < n)
    (hlast : (e.reached k).machine.tape.pointer.val + 1 = n)
    : ∃ t', e'.Halts (.failed (.overflow (e.reached k).machine.ip)) t' ∧ (e.reached k).Alike t' := by
  obtain ⟨p, hparse, hsteps, hi⟩ := steps_of_next? hnext
  obtain ⟨u', hsteps', hu⟩ := h.steps hparse hsteps hfits
  have hlast' : u'.machine.tape.pointer.val + 1 = n := by
    rw [hu.machine.tape.pointer, hlast]
  rw [← hu.machine.ip] at hi ⊢
  have hturn : u'.turn e'.console p = _ := turn_of_blocked hi (.overflow rfl hlast')
  rw [← h.source] at hparse
  refine ⟨_, (halts_iff_stops hparse).2 ⟨k, u', hsteps', hturn⟩, hu.machine, ?_, ?_⟩
  . rw [← hu.source, h.console', Recording.traced_console]
  . rw [← hu.asked, h.console', Recording.traced_console]

theorem exists_crossing {σ : Type} {e : Execution N σ} (hn : 0 < n)
    (hle : n ≤ (e.reached k).machine.tape.pointer.val)
    : ∃ k, e.next? k = some .right ∧ (∀ j, j ≤ k → (e.reached j).machine.tape.pointer.val < n) ∧
        (e.reached k).machine.tape.pointer.val + 1 = n ∧
        (e.reached (k + 1)).machine.tape.pointer.val = n := by
  have hexists : ∃ k, n ≤ (e.reached k).machine.tape.pointer.val := ⟨k, hle⟩
  obtain ⟨k, hk, hfirst⟩
      : ∃ k, n ≤ (e.reached k).machine.tape.pointer.val ∧
          ∀ j, j < k → (e.reached j).machine.tape.pointer.val < n :=
    ⟨_, Nat.find_spec hexists, fun j hj => Nat.not_le.1 (Nat.find_min hexists hj)⟩
  cases k with
  | zero =>
    rw [reached_zero] at hk
    exact absurd hk (Nat.not_le.2 hn)
  | succ k =>
    have hbefore := hfirst k (by omega)
    cases hnext : e.next? k with
    | none =>
      rw [reached_succ_of_next?_eq_none hnext] at hk
      omega
    | some i =>
      obtain ⟨p, hparse, hsteps, hi⟩ := steps_of_next? hnext
      have hpointer := (e.reached k).machine.pointer_perform p i
        (e.console.ask.run ((e.reached k).traced e.console p)).1
      rw [← Machine.step_of_instruction hi, ← machine_turn, ← reached_succ hparse hsteps] at hpointer
      have hfits (j : Nat) (hj : j ≤ k) : (e.reached j).machine.tape.pointer.val < n := by
        apply hfirst
        omega
      -- Only a move to the right takes the pointer over `n - 1`, and it takes it one cell further.
      cases i with
      | right =>
        dsimp only at hpointer
        split at hpointer
        . exact ⟨k, hnext, hfits, by omega, by omega⟩
        . omega
      | left | increment | decrement | output | input | loopOpen | loopClose =>
        dsimp only at hpointer
        omega

theorem exists_greatest_pointer {σ : Type} (e : Execution N σ)
    : ∃ M, IsGreatest (Set.range fun k => (e.reached k).machine.tape.pointer.val) M := by
  apply BddAbove.exists_isGreatest_of_nonempty
  . refine ⟨N, ?_⟩
    intro address ⟨k, hk⟩
    subst hk
    exact Nat.le_of_lt (e.reached k).machine.tape.pointer.isLt
  . exact ⟨_, 0, rfl⟩

end Execution

theorem Tape.cell_of_le (t : Tape n) {address : Nat} (h : n ≤ address) : t.cell address = 0 := by
  unfold cell
  rw [Vector.getElem?_eq_none h]
  rfl

/--
How much tape an execution needs. Let it end on a tape of `N` cells without leaving the tape to the right,
and let `M` be the greatest address that the pointer gets to. On every tape of more than `M` cells it ends
in the same way, and the cells behind `M` stay zero. On every shorter tape it fails at the instruction by
which the pointer first gets behind the last cell, in the state from before this instruction.
-/
theorem required_tape_length (provider : StateM τ (Option Char)) (source input : String)
    (m : Machine N) (r : Recording τ) {ending : Ending} {t : RunState N (Recording τ)}
    (hhalts : (Execution.recorded provider source input ⟨m, r⟩).Halts ending t)
    (hending : ∀ position, ending ≠ .failed (.overflow position))
    : let e := Execution.recorded provider source input ⟨m, r⟩
      ∃ M, IsGreatest (Set.range fun k => (e.reached k).machine.tape.pointer.val) M ∧
        ∀ {n : Nat} (m' : Machine n),
          let e' := Execution.recorded provider source input ⟨m', r⟩
          (M + 1 ≤ n →
            ∃ t', e'.Halts ending t' ∧ t.Alike t' ∧
              ∀ address, M < address → t'.machine.tape.cell address = 0) ∧
          (n ≤ M →
            ∃ k t', IsLeast { j | (e.reached (j + 1)).machine.tape.pointer.val = n } k ∧
              e.next? k = some .right ∧ (e.reached k).machine.tape.pointer.val = n - 1 ∧
              e'.Halts (.failed (.overflow (e.reached k).machine.ip)) t' ∧ (e.reached k).Alike t') := by
  intro e
  obtain ⟨M, hM⟩ := e.exists_greatest_pointer
  refine ⟨M, hM, ?_⟩
  have hle (k : Nat) : (e.reached k).machine.tape.pointer.val ≤ M := hM.2 ⟨k, rfl⟩
  intro n m' e'
  have halike := Execution.alike_recorded provider source input m m' r
  constructor
  . intro hn
    have hfits (k : Nat) : (e.reached k).machine.tape.pointer.val < n := Nat.lt_of_le_of_lt (hle k) hn
    obtain ⟨t', hhalts', ht'⟩ := halike.halts hhalts hending hfits
    refine ⟨t', hhalts', ht', ?_⟩
    intro address haddress
    -- A tape of just `M + 1` cells has no cell there, and the tapes are alike.
    have hshort := Execution.alike_recorded provider source input m (.create (M + 1)) r
    have hfits' (k : Nat) : (e.reached k).machine.tape.pointer.val < max (M + 1) 1 := by
      have := hle k
      omega
    obtain ⟨u, _, hu⟩ := hshort.halts hhalts hending hfits'
    rw [ht'.machine.tape.cell, ← hu.machine.tape.cell]
    apply Tape.cell_of_le
    omega
  . intro hn
    obtain ⟨kM, hkM⟩ := hM.1
    have hpos := m'.tape.pointer.pos
    have hreaches : n ≤ (e.reached kM).machine.tape.pointer.val := by
      dsimp only at hkM
      omega
    obtain ⟨k, hnext, hfits, hlast, hcross⟩ := Execution.exists_crossing hpos hreaches
    obtain ⟨t', hhalts', ht'⟩ := halike.halts_overflow hnext hfits hlast
    refine ⟨k, t', ⟨hcross, ?_⟩, hnext, by omega, hhalts', ht'⟩
    intro j hj
    apply Nat.le_of_not_lt
    intro hjk
    have := hfits (j + 1) hjk
    rw [hj] at this
    omega

theorem required_tape_length_three
    : let e := fun length => Execution.recorded answersInOrder ">>+[-<+>]<." ""
        ⟨Machine.create length, { source := [] }⟩
      (∃ t, (e 5).Halts .finished t) ∧ (∀ position, Ending.finished ≠ .failed (.overflow position)) ∧
        (∃ t, (e 7).Halts .finished t) ∧ ∃ position t, (e 2).Halts (.failed (.overflow position)) t := by
  intro e
  have hvalue : ∃ out, (e 5).outcome 20 = out ∧ out.1.1 = .finished := ⟨_, rfl, by decide +kernel⟩
  obtain ⟨out, hout, hfinished⟩ := hvalue
  have hhalts : (e 5).Halts .finished ⟨out.1.2, out.2⟩ := by
    refine ⟨by simp, 20, ?_⟩
    rw [← hfinished]
    exact hout
  have hending (position : Nat) : Ending.finished ≠ .failed (.overflow position) := by simp
  have hpointer : ((e 5).reached 2).machine.tape.pointer.val = 2 := by decide +kernel
  obtain ⟨M, hM, hlengths⟩ := required_tape_length _ _ _ _ _ hhalts hending
  have hlower : 2 ≤ M := by
    dsimp only [e] at hpointer
    exact hM.2 ⟨2, hpointer⟩
  have hupper : M < 5 := by
    obtain ⟨k, hk⟩ := hM.1
    rw [← hk]
    exact ((e 5).reached k).machine.tape.pointer.isLt
  obtain ⟨t, ht, _⟩ := (hlengths (Machine.create 7)).1 (by omega)
  obtain ⟨k, u, _, _, _, hu, _⟩ := (hlengths (Machine.create 2)).2 (by omega)
  exact ⟨⟨_, hhalts⟩, hending, ⟨t, ht⟩, _, u, hu⟩

end Brainfuck
