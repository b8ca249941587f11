import Brainfuck.Proofs.Cursor
import Brainfuck.Proofs.Lifetime
import Brainfuck.Proofs.Parse

/-!
This module contains the proof that no lookup is out of range at any moment in the life of a machine. The
invariant says that a program that is run has matching brackets and that the machine is in the program or
right behind it. The one thing that can go wrong comes before all of this: no machine is made with a tape for
which memory cannot be asked.
-/

namespace Brainfuck

open Recording (console)

variable {n : Nat}

namespace Program

variable {p : Program} {position : Nat} {i : Instruction}

theorem lt_length_of_instruction? (h : p.instruction? position = some i) : position < p.length := by
  unfold instruction? at h
  exact (Array.getElem?_eq_some_iff.1 h).1

theorem IsMatched.exists_jump? (hmatched : p.IsMatched) (h : p.instruction? position = some i)
    (hi : i.IsBracket) : ∃ target, p.jump? position = some target ∧ target < p.length := by
  rw [instruction?_eq_getElem?] at h
  unfold Instruction.IsBracket at hi
  cases hi with
  | inl hopen =>
    rw [hopen] at h
    obtain ⟨j, hij⟩ := hmatched.exists_partner_of_loopOpen h
    exact ⟨j, (hmatched.jump?_of_partners hij).1, hij.lt_length⟩
  | inr hclose =>
    rw [hclose] at h
    obtain ⟨j, hji⟩ := hmatched.exists_partner_of_loopClose h
    exact ⟨j, (hmatched.jump?_of_partners hji).2, Nat.lt_trans hji.lt hji.lt_length⟩

end Program

theorem RunState.ip_le_of_turn {σ : Type} {console : Console (StateM σ)} {p : Program}
    {s t : RunState n σ} (hmatched : p.IsMatched) (h : s.turn console p = .next t)
    : t.machine.ip ≤ p.length := by
  obtain ⟨_, ⟨i, hi, hip⟩, _, _⟩ := succeeds_of_turn h
  cases hip with
  | inl hnext =>
    have := Program.lt_length_of_instruction? hi
    omega
  | inr hjump =>
    -- The partner is in the program, so the instruction behind it is there or is the end.
    obtain ⟨hbracket, hip⟩ := hjump
    obtain ⟨target, htarget, hlt⟩ := hmatched.exists_jump? hi hbracket
    rw [htarget, Option.getD_some] at hip
    omega

namespace Moment

variable {τ : Type}

/--
A program that is being run has matching brackets, and the machine is in it or right behind it.
-/
def InProgram (m : Moment n τ) : Prop :=
  match m.activity with
  | .running p _ => p.IsMatched ∧ m.state.machine.ip ≤ p.length
  | _ => True

theorem inProgram_launch (source input : String) (inSession : Bool) (s : RunState n (Recording τ))
    : (launch source input inSession s).InProgram := by
  unfold launch
  split
  . trivial
  . next p hparse => exact ⟨(Program.parse_eq_ok hparse).2, Nat.zero_le _⟩

theorem inProgram_call (s : RunState n (Recording τ)) (c : Call) : (call s c).InProgram := by
  cases c with
  | setInput text | setDebug on | reset | session lines => trivial
  | execute source input => apply inProgram_launch

theorem InProgram.next? {provider : StateM τ (Option Char)} {m m' : Moment n τ} (h : m.InProgram)
    (hnext : m.next? provider = some m') : m'.InProgram := by
  obtain ⟨activity, s⟩ := m
  unfold Moment.next? at hnext
  cases activity with
  | idle => contradiction
  | reading =>
    dsimp only at hnext
    split at hnext
    . cases hnext
      trivial
    . split at hnext
      . cases hnext
        trivial
      . cases hnext
        apply inProgram_launch
  | running p inSession =>
    dsimp only at hnext
    split at hnext
    . next t hturn =>
      cases hnext
      exact ⟨h.1, RunState.ip_le_of_turn h.1 hturn⟩
    . split at hnext
      . cases hnext
        trivial
      . cases hnext
        trivial
    . cases hnext
      trivial

end Moment

theorem Reachable.inProgram {τ : Type} {provider : StateM τ (Option Char)} {length : Nat}
    {m : Moment (max length 1) τ} (h : Reachable provider length m) : m.InProgram := by
  induction h with
  | make => trivial
  | call _ c => apply Moment.inProgram_call
  | next _ hnext ih => exact ih.next? hnext

namespace TraceRecord

theorem length_window_capture (ip : Nat) (i : Instruction) (tape : Tape n)
    : (capture ip i tape).window.length
        =
      min (tape.pointer.val + radius + 1) n - (tape.pointer.val - radius) := by
  rw [window_capture, List.length_drop, List.length_take, Vector.length_toList]

theorem capture_bounds (ip : Nat) (i : Instruction) (tape : Tape n)
    : (capture ip i tape).base ≤ (capture ip i tape).pointer ∧
      (capture ip i tape).pointer < (capture ip i tape).base + (capture ip i tape).window.length ∧
      (capture ip i tape).base + (capture ip i tape).window.length ≤ n := by
  have hpointer := tape.pointer.isLt
  rw [length_window_capture]
  dsimp only [capture]
  omega

end TraceRecord

/--
Everything that is looked up at a moment is there: the cell under the pointer, the rest of the input, the
next instruction, the partner of a bracket and the window of a trace record.
-/
structure Moment.InRange {τ : Type} {length : Nat} (m : Moment (max length 1) τ) : Prop where
  length_tape : m.state.machine.tape.cells.toArray.size = max length 1
  pointer_lt : m.state.machine.tape.pointer.val < max length 1
  offset_le : m.state.machine.input.offset ≤ m.state.machine.input.text.utf8ByteSize
  offset_boundary : ∃ front, front <+: m.state.machine.input.text.toList ∧
    m.state.machine.input.offset = (String.ofList front).utf8ByteSize
  ip_le : ∀ p inSession, m.activity = .running p inSession → m.state.machine.ip ≤ p.length
  jump_lt : ∀ p inSession i, m.activity = .running p inSession →
    p.instruction? m.state.machine.ip = some i → i.IsBracket →
    ∃ target, p.jump? m.state.machine.ip = some target ∧ target < p.length
  window : ∀ i, let r := TraceRecord.capture m.state.machine.ip i m.state.machine.tape
    r.base ≤ r.pointer ∧ r.pointer < r.base + r.window.length ∧ r.base + r.window.length ≤ max length 1

theorem Moment.InProgram.inRange {τ : Type} {length : Nat} {m : Moment (max length 1) τ}
    (h : m.InProgram) : m.InRange where
  length_tape := m.state.machine.tape.cells.size_toArray
  pointer_lt := m.state.machine.tape.pointer.isLt
  offset_le := m.state.machine.input.offset_le_utf8ByteSize
  offset_boundary := by
    refine ⟨_, m.state.machine.input.taken_prefix, ?_⟩
    apply Input.offset_eq_utf8ByteSize_taken
  ip_le p inSession hactivity := by
    unfold InProgram at h
    rw [hactivity] at h
    exact h.2
  jump_lt p inSession i hactivity hi hbracket := by
    unfold InProgram at h
    rw [hactivity] at h
    exact h.1.exists_jump? hi hbracket
  window i := TraceRecord.capture_bounds _ i _

/--
Whatever is asked of a machine, with whatever texts, and however long its programs go on: between any two
instructions all lookups are in range. The machine that an execution or a session hands back is as it is
at such a moment, and unless it was broken off the next call can be made of it. A machine is made unless its
tape is longer than memory can be asked for.
-/
theorem lookups_in_range {τ : Type} (provider : StateM τ (Option Char)) (length : Nat)
    : ((∃ m, Machine.make? length = some m ∧ ∀ world, Reachable provider length ⟨.idle, m, world⟩) ∧
          length < UInt64.size / 2 ∨
        Machine.make? length = none ∧ UInt64.size / 2 ≤ length) ∧
      (∀ m, Reachable provider length m → m.InRange) ∧
      ∀ s, Reachable provider length ⟨.idle, s⟩ →
        (∀ budget source input, ∃ activity ending t,
          (s.machine.execute (console provider) budget source input).run s.world
            = RunState.result ending t ∧
          Reachable provider length ⟨activity, t⟩ ∧ (ending ≠ .interrupted → activity = .idle)) ∧
        (∀ budget lines, ∃ activity ending t,
          ((Recording.session provider).run budget s.machine).run { s.world with lines }
            = RunState.result ending t ∧
          Reachable provider length ⟨activity, t⟩ ∧ (ending ≠ .interrupted → activity = .idle)) := by
  refine ⟨?_, ?_, ?_⟩
  . cases hmake : Machine.make? length with
    | some m =>
      refine .inl ⟨⟨m, rfl, .make hmake⟩, ?_⟩
      have hlength := (Machine.make?_eq_some_iff.mp hmake).1
      unfold Machine.maxLength UInt64.size at *
      omega
    | none =>
      refine .inr ⟨rfl, ?_⟩
      have hlength := Machine.make?_eq_none_iff.mp hmake
      unfold Machine.maxLength UInt64.size at *
      omega
  . intro m h
    exact h.inProgram.inRange
  . intro s h
    exact ⟨h.execute, h.session⟩

theorem lookups_in_range_after_overflow
    : ∃ ending, ∃ t : RunState (max 0 1) (Recording (List (Option Char))),
        (((Machine.create 0).setDebug true).execute (console answersInOrder) 9 ",+[.,]>" "é").run
          { source := [] } = t.result ending ∧
        (ending, t.machine.input.offset, t.world.records.size) = (.failed (.overflow 6), 2, 7) ∧
        Moment.InRange ⟨.idle, t⟩ := by
  have hstart : Reachable answersInOrder 0 ⟨.idle, (Machine.create 0).setDebug true, { source := [] }⟩ :=
    (Reachable.make rfl _).call (.setDebug true)
  obtain ⟨_, hrange, hcalls⟩ := lookups_in_range answersInOrder 0
  obtain ⟨activity, ending, t, hrun, ht, hidle⟩ := (hcalls _ hstart).1 9 ",+[.,]>" "é"
  have hvalue
      : let out :=
          (((Machine.create 0).setDebug true).execute (console answersInOrder) 9 ",+[.,]>" "é").run
            { source := [] }
        (out.1.1, out.1.2.input.offset, out.2.records.size) = (.failed (.overflow 6), 2, 7) := by
    decide +kernel
  dsimp only at hrun hvalue
  rw [hrun] at hvalue
  dsimp only [RunState.result] at hvalue
  refine ⟨ending, t, hrun, hvalue, ?_⟩
  have hactivity : activity = .idle := by
    apply hidle
    rw [(Prod.mk.inj hvalue).1]
    simp
  rw [hactivity] at ht
  exact hrange _ ht

theorem no_machine_with_oversized_tape
    : 9223372036854775808 < UInt64.size ∧ Machine.make? 9223372036854775808 = none := by
  rw [Machine.make?_eq_none_iff]
  decide

end Brainfuck
