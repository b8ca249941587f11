import Brainfuck.Proofs.Cursor
import Brainfuck.Proofs.Structured
import Brainfuck.Proofs.Turn

/-!
This module contains the proof that the machine, which runs flat code and jumps through a table, carries
out structured programs. An action is one round of the machine; a loop is entered, left and repeated by
the jumps between its two brackets. Both directions are by induction on the structured program, and for
the loop on the length of the derivation or of the run.
-/

namespace Brainfuck

open Recording (console)

variable {n : Nat} {τ : Type}

namespace Store

def tape (s : Store n τ) : Tape n where
  cells := .ofFn s.cells
  pointer := s.pointer

@[simp]
theorem current_tape (s : Store n τ) : s.tape.current = s.current := by
  simp [tape, Tape.current, current]

@[simp]
theorem tape_put (s : Store n τ) (value : UInt8) : (s.put value).tape = s.tape.write value := by
  unfold tape Tape.write
  congr 1
  apply Vector.ext
  intro i hi
  simp only [put, Vector.getElem_ofFn, Vector.getElem_set, Function.update_apply, Fin.ext_iff, eq_comm]

theorem moveRight?_tape (s : Store n τ)
    : s.tape.moveRight?
        =
      if h : s.pointer.val + 1 < n then
        some { s with pointer := ⟨s.pointer.val + 1, h⟩ }.tape
      else
        none :=
  rfl

theorem moveLeft?_tape (s : Store n τ)
    : s.tape.moveLeft?
        =
      if h : 0 < s.pointer.val then
        some { s with pointer := ⟨s.pointer.val - 1, by omega⟩ }.tape
      else
        none := by
  unfold Tape.moveLeft?
  split
  . next h => rw [dif_neg (by simpa [tape] using h)]
  . next h =>
    rw [dif_pos (show 0 < s.pointer.val from Nat.pos_of_ne_zero h)]
    rfl

end Store

structure Agrees (r : Recording τ) (s : Store n τ) (t : RunState n (Recording τ)) : Prop where
  tape : t.machine.tape = s.tape
  output : t.machine.output.toList = s.output
  unread : t.machine.input.unread = s.unread
  consumed : t.machine.input.taken.length = s.consumed
  provider : t.world.source = s.provider
  calls : t.world.asked = r.asked + s.calls

variable {provider : StateM τ (Option Char)} {p : Program} {r : Recording τ} {s : Store n τ}
  {t : RunState n (Recording τ)}

namespace Agrees

theorem current (h : Agrees r s t) : t.machine.tape.current = s.current := by
  rw [h.tape, Store.current_tape]

theorem traced (h : Agrees r s t) (provider : StateM τ (Option Char)) (p : Program)
    : Agrees r s { t with world := t.traced (console provider) p } := by
  rw [Recording.traced_console]
  exact ⟨h.tape, h.output, h.unread, h.consumed, h.provider, h.calls⟩

theorem setTape {s' : Store n τ} {machine : Machine n} {world : Recording τ} {tape : Tape n}
    (h : Agrees r s ⟨machine, world⟩) (htape : tape = s'.tape)
    (hs : s' = { s with cells := s'.cells, pointer := s'.pointer })
    : Agrees r s' ⟨{ machine with tape }, world⟩ := by
  rw [hs] at htape ⊢
  exact ⟨htape, h.output, h.unread, h.consumed, h.provider, h.calls⟩

theorem setIp {machine : Machine n} {world : Recording τ} (h : Agrees r s ⟨machine, world⟩) (ip : Nat)
    : Agrees r s ⟨machine.advanceFrom ip, world⟩ :=
  ⟨h.tape, h.output, h.unread, h.consumed, h.provider, h.calls⟩

theorem put (h : Agrees r s t) (value : UInt8)
    : Agrees r (s.put value) { t with machine.tape := t.machine.tape.write value } := by
  apply setTape h
  . rw [Store.tape_put, h.tape]
  . rfl

theorem print (h : Agrees r s t) (c : Char) (printed : String)
    : Agrees r { s with output := s.output ++ [c] }
        ⟨{ t.machine with output := t.machine.output.push c }, { t.world with printed }⟩ := by
  refine ⟨h.tape, ?_, h.unread, h.consumed, h.provider, h.calls⟩
  rw [String.toList_push, h.output]

theorem read {c : Char} {cs : List Char} {rest : Input} (h : Agrees r s t)
    (hunread : s.unread = c :: cs) (hnext : t.machine.input.next? = some (c, rest))
    : Agrees r { s with unread := cs, consumed := s.consumed + 1 } { t with machine.input := rest } := by
  refine ⟨h.tape, h.output, ?_, ?_, h.provider, h.calls⟩
  . have hcons := Input.unread_eq_cons hnext
    rw [h.unread, hunread] at hcons
    exact (List.cons.inj hcons).2.symm
  . rw [Input.taken_of_next? hnext, List.length_append, h.consumed]
    rfl

theorem ask (h : Agrees r s t) (rest : τ)
    : Agrees r { s with provider := rest, calls := s.calls + 1 }
        { t with world := { t.world with source := rest, asked := t.world.asked + 1 } } := by
  refine ⟨h.tape, h.output, h.unread, h.consumed, rfl, ?_⟩
  rw [h.calls, Nat.add_assoc]

end Agrees

def Realizes (provider : StateM τ (Option Char)) (p : Program) (r : Recording τ) (s : Store n τ)
    (t : RunState n (Recording τ)) : Except Fault (Store n τ) → Prop
  | .ok s' =>
    ∃ u, t.turn (console provider) p = .next u ∧ u.machine.ip = t.machine.ip + 1 ∧ Agrees r s' u
  | .error fault => ∃ u, t.turn (console provider) p = .stop (.failed fault) u ∧ Agrees r s u

theorem turn_act (provider : StateM τ (Option Char)) (h : Agrees r s t) {action : Action}
    (hip : p.instruction? t.machine.ip = some action.instruction)
    : Realizes provider p r s t (action.perform provider t.machine.ip s) := by
  have hstep := Machine.step_of_instruction hip
  have htraced := h.traced provider p
  unfold Action.perform
  cases action with
  | right =>
    simp only [Action.instruction, Machine.perform] at hstep
    rw [h.tape, s.moveRight?_tape] at hstep
    dsimp only
    split
    . next hlt =>
      rw [dif_pos hlt] at hstep
      exact ⟨_, RunState.turn_of_advance hstep, rfl, (htraced.setTape rfl rfl).setIp _⟩
    . next hlt =>
      rw [dif_neg hlt] at hstep
      exact ⟨_, RunState.turn_of_fail hstep, htraced⟩
  | left =>
    simp only [Action.instruction, Machine.perform] at hstep
    rw [h.tape, s.moveLeft?_tape] at hstep
    dsimp only
    split
    . next hlt =>
      rw [dif_pos hlt] at hstep
      exact ⟨_, RunState.turn_of_advance hstep, rfl, (htraced.setTape rfl rfl).setIp _⟩
    . next hlt =>
      rw [dif_neg hlt] at hstep
      exact ⟨_, RunState.turn_of_fail hstep, htraced⟩
  | increment | decrement =>
    rw [← h.current]
    exact ⟨_, RunState.turn_of_advance hstep, rfl, (htraced.put _).setIp _⟩
  | output =>
    rw [← h.current, ← Machine.charOf_eq_ofNat]
    have hturn : t.turn (console provider) p = _ := RunState.turn_of_write hstep
    split at hturn
    . exact ⟨_, hturn, rfl, (htraced.print _ (t.traced (console provider) p).printed).setIp _⟩
    . exact ⟨_, hturn, rfl, (htraced.print _ _).setIp _⟩
  | input =>
    dsimp only
    split
    . next c cs hunread =>
      rw [← h.unread] at hunread
      obtain ⟨rest, hnext, _⟩ := Input.exists_next?_of_unread hunread
      simp only [Action.instruction, Machine.perform] at hstep
      rw [hnext] at hstep
      rw [h.unread] at hunread
      exact ⟨_, RunState.turn_of_advance hstep, rfl, ((htraced.read hunread hnext).put _).setIp _⟩
    . next hunread =>
      -- The input buffer is used up, so the console asks the provider.
      rw [← h.unread, ← Input.next?_eq_none_iff] at hunread
      simp only [Action.instruction, Machine.perform] at hstep
      rw [hunread] at hstep
      have hturn : t.turn (console provider) p = _ := RunState.turn_of_ask hstep
      rw [Recording.ask_console, htraced.provider] at hturn
      cases hanswer : provider.run s.provider with
      | mk c? rest =>
        rw [hanswer] at hturn
        cases c? with
        | none => exact ⟨_, hturn, rfl, ((htraced.ask rest).put 0).setIp _⟩
        | some c => exact ⟨_, hturn, rfl, ((htraced.ask rest).put _).setIp _⟩

theorem turn_loopOpen {j : Nat} (hmatched : p.IsMatched) (h : Agrees r s t)
    (hpartners : Partners p.code.toList t.machine.ip j)
    : ∃ u, t.turn (console provider) p = .next u ∧
        u.machine.ip = (if s.current = 0 then j else t.machine.ip) + 1 ∧ Agrees r s u := by
  have hip : p.instruction? t.machine.ip = some .loopOpen := by
    rw [p.instruction?_eq_getElem?, hpartners.opening]
  have hstep := Machine.step_of_instruction hip
  simp only [Machine.perform] at hstep
  rw [(hmatched.jump?_of_partners hpartners).1, h.current] at hstep
  exact ⟨_, RunState.turn_of_advance hstep, rfl, (h.traced provider p).setIp _⟩

theorem turn_loopClose {i : Nat} (hmatched : p.IsMatched) (h : Agrees r s t)
    (hpartners : Partners p.code.toList i t.machine.ip)
    : ∃ u, t.turn (console provider) p = .next u ∧
        u.machine.ip = (if s.current = 0 then t.machine.ip else i) + 1 ∧ Agrees r s u := by
  have hip : p.instruction? t.machine.ip = some .loopClose := by
    rw [p.instruction?_eq_getElem?, hpartners.closing]
  have hstep := Machine.step_of_instruction hip
  simp only [Machine.perform] at hstep
  rw [(hmatched.jump?_of_partners hpartners).2, h.current] at hstep
  exact ⟨_, RunState.turn_of_advance hstep, rfl, (h.traced provider p).setIp _⟩

theorem turn_end (h : Agrees r s t) (hip : p.instruction? t.machine.ip = none)
    : ∃ u, t.turn (console provider) p = .stop .finished u ∧ Agrees r s u := by
  have hstep : t.machine.step p = .halt t.machine := by
    unfold Machine.step
    rw [hip]
  exact ⟨_, RunState.turn_of_halt hstep, h.traced provider p⟩

def Located (code : List Instruction) (position : Nat) (piece : List Instruction) : Prop :=
  ∃ before after, code = before ++ (piece ++ after) ∧ before.length = position

namespace Located

variable {code front back : List Instruction} {i : Instruction} {position : Nat}

theorem append_left (h : Located code position (front ++ back)) : Located code position front := by
  obtain ⟨before, after, rfl, hlength⟩ := h
  exact ⟨before, back ++ after, by simp, hlength⟩

theorem append_right (h : Located code position (front ++ back))
    : Located code (position + front.length) back := by
  obtain ⟨before, after, rfl, hlength⟩ := h
  exact ⟨before ++ front, after, by simp, by simp [hlength]⟩

theorem instruction? {p : Program} (h : Located p.code.toList position (i :: back))
    : p.instruction? position = some i := by
  obtain ⟨before, after, hcode, rfl⟩ := h
  rw [p.instruction?_eq_getElem?, hcode]
  simp

theorem tail (h : Located code position (i :: back)) : Located code (position + 1) back :=
  @append_right code [i] back position h

theorem body (h : Located code position (.loopOpen :: (front ++ .loopClose :: back)))
    : Located code (position + 1) front :=
  h.tail.append_left

theorem behind (h : Located code position (.loopOpen :: (front ++ .loopClose :: back)))
    : Located code (position + front.length + 2) back := by
  have := h.tail.append_right.tail
  rwa [show position + 1 + front.length + 1 = position + front.length + 2 by omega] at this

theorem partners (h : Located code position (.loopOpen :: (front ++ .loopClose :: back)))
    (hfront : Balanced front) : Partners code position (position + front.length + 1) := by
  obtain ⟨before, after, rfl, hlength⟩ := h
  exact ⟨before, front, back ++ after, by simp, hfront, hlength, rfl⟩

end Located

/--
The places where a structured program at `position` can be entered: at its first instruction, and a loop
also at its closing bracket, where the same test is made.
-/
def Block.Entry : Block → Nat → Nat → Prop
  | loop body _, position, ip => ip = position ∨ ip = position + body.code.length + 1
  | _, position, ip => ip = position

theorem Block.entry_first (b : Block) {position ip : Nat} (h : ip = position) : b.Entry position ip := by
  cases b with
  | done | act => exact h
  | loop => exact .inl h

theorem Block.end_act (action : Action) (rest : Block) (position : Nat)
    : position + (act action rest).code.length = position + 1 + rest.code.length := by
  rw [code, List.length_cons]
  omega

theorem Block.end_loop (body rest : Block) (position : Nat)
    : position + (loop body rest).code.length
        =
      position + body.code.length + 2 + rest.code.length := by
  rw [code, List.length_cons, List.length_append, List.length_cons]
  omega

theorem turn_loop {body rest : Block} {position : Nat} (hmatched : p.IsMatched)
    (hcode : Located p.code.toList position (Block.loop body rest).code) (h : Agrees r s t)
    (hip : (Block.loop body rest).Entry position t.machine.ip)
    : ∃ u, t.turn (console provider) p = .next u ∧
        u.machine.ip = (if s.current = 0 then position + body.code.length + 1 else position) + 1 ∧
        Agrees r s u := by
  have hpartners := hcode.partners body.balanced_code
  cases hip with
  | inl hip =>
    rw [← hip] at hpartners ⊢
    exact turn_loopOpen hmatched h hpartners
  | inr hip =>
    rw [← hip] at hpartners ⊢
    exact turn_loopClose hmatched h hpartners

/--
From `t` the machine comes to the end of a piece of code at `stop`, or to the fault that ends the run
there, in a state that agrees with `s`.
-/
def Arrives (provider : StateM τ (Option Char)) (p : Program) (r : Recording τ)
    (t : RunState n (Recording τ)) (fault? : Option Fault) (stop : Nat) (s : Store n τ) : Prop :=
  match fault? with
  | none => ∃ k u, Steps (console provider) p k t u ∧ u.machine.ip = stop ∧ Agrees r s u
  | some fault => ∃ k u, Stops (console provider) p k t (.failed fault) u ∧ Agrees r s u

theorem Arrives.after {k : Nat} {u : RunState n (Recording τ)} {fault? : Option Fault} {stop : Nat}
    (hsteps : Steps (console provider) p k t u) (h : Arrives provider p r u fault? stop s)
    : Arrives provider p r t fault? stop s := by
  cases fault? with
  | none =>
    obtain ⟨k', v, hsteps', hv⟩ := h
    exact ⟨k + k', v, hsteps.trans hsteps', hv⟩
  | some fault =>
    obtain ⟨k', v, hstops, hv⟩ := h
    exact ⟨k + k', v, hstops.after hsteps, hv⟩

theorem Block.Runs.arrives {b : Block} {position : Nat} {s' : Store n τ} {fault? : Option Fault}
    (hmatched : p.IsMatched) (hruns : b.Runs provider position s fault? s')
    (hcode : Located p.code.toList position b.code) (h : Agrees r s t)
    (hip : b.Entry position t.machine.ip)
    : Arrives provider p r t fault? (position + b.code.length) s' := by
  induction hruns generalizing t with
  | done => exact ⟨0, t, .refl t, hip, h⟩
  | @act action rest position s _ _ _ hact _ ih =>
    cases hip
    have hrealizes := turn_act provider h hcode.instruction?
    rw [hact] at hrealizes
    obtain ⟨u, hturn, huip, hu⟩ := hrealizes
    rw [end_act]
    apply Arrives.after (.single hturn)
    exact ih hcode.tail hu (rest.entry_first huip)
  | @fault action rest position s fault hact =>
    cases hip
    have hrealizes := turn_act provider h hcode.instruction?
    rw [hact] at hrealizes
    obtain ⟨u, hturn, hu⟩ := hrealizes
    exact ⟨0, u, .of_turn hturn, hu⟩
  | @leave body rest position s _ _ hzero _ ih =>
    obtain ⟨u, hturn, huip, hu⟩ := turn_loop hmatched hcode h hip
    rw [if_pos hzero] at huip
    rw [end_loop]
    apply Arrives.after (.single hturn)
    exact ih hcode.behind hu (rest.entry_first huip)
  | @again body rest position s _ _ _ hzero _ _ ihbody ihloop =>
    obtain ⟨u, hturn, huip, hu⟩ := turn_loop hmatched hcode h hip
    rw [if_neg hzero] at huip
    obtain ⟨k, v, hsteps, hvip, hv⟩ := ihbody hcode.body hu (body.entry_first huip)
    -- The body has ended at the closing bracket, where the loop is entered once more.
    apply Arrives.after (.head hturn hsteps)
    exact ihloop hcode hv (.inr (by omega))
  | @abort body rest position s _ _ hzero _ ih =>
    obtain ⟨u, hturn, huip, hu⟩ := turn_loop hmatched hcode h hip
    rw [if_neg hzero] at huip
    obtain ⟨k, v, hstops, hv⟩ := ih hcode.body hu (body.entry_first huip)
    exact ⟨k + 1, v, hstops.head hturn, hv⟩

/--
A run that ends while it is in a structured program, or behind it, has carried out the program: it came
to the end of the program first unless the program has a fault.
-/
theorem Stops.exists_runs {k : Nat} {b : Block} {position : Nat} {ending : Ending}
    {u : RunState n (Recording τ)} (hmatched : p.IsMatched)
    (hstops : Stops (console provider) p k t ending u)
    (hcode : Located p.code.toList position b.code) (h : Agrees r s t)
    (hip : b.Entry position t.machine.ip)
    : ∃ fault? s', b.Runs provider position s fault? s' ∧
        (fault? = none →
          ∃ j v, j ≤ k ∧ Stops (console provider) p j v ending u ∧
            v.machine.ip = position + b.code.length ∧ Agrees r s' v) := by
  induction b generalizing k position s t with
  | done => exact ⟨none, s, .done, fun _ => ⟨k, t, Nat.le_refl k, hstops, hip, h⟩⟩
  | act action rest ih =>
    cases hip
    have hrealizes := turn_act provider h hcode.instruction?
    cases hperform : action.perform provider t.machine.ip s with
    | error fault => exact ⟨some fault, s, .fault hperform, by simp⟩
    | ok s' =>
      rw [hperform] at hrealizes
      obtain ⟨v, hturn, hvip, hv⟩ := hrealizes
      obtain ⟨j, rfl, hnext⟩ := hstops.tail hturn
      obtain ⟨fault?, s'', hruns, hend⟩ := ih hnext hcode.tail hv (rest.entry_first hvip)
      refine ⟨fault?, s'', .act hperform hruns, ?_⟩
      intro hnone
      obtain ⟨i, w, hi, hw⟩ := hend hnone
      refine ⟨i, w, by omega, ?_⟩
      rwa [Block.end_act]
  | loop body rest ihbody ihrest =>
    -- The same loop is entered again with a shorter run left.
    induction k using Nat.strongRecOn generalizing s t with
    | ind k ihloop =>
      obtain ⟨v, hturn, hvip, hv⟩ := turn_loop hmatched hcode h hip
      obtain ⟨j, rfl, hnext⟩ := hstops.tail hturn
      by_cases hzero : s.current = 0
      . rw [if_pos hzero] at hvip
        obtain ⟨fault?, s', hruns, hend⟩ := ihrest hnext hcode.behind hv (rest.entry_first hvip)
        refine ⟨fault?, s', .leave hzero hruns, ?_⟩
        intro hnone
        obtain ⟨i, w, hi, hw⟩ := hend hnone
        refine ⟨i, w, by omega, ?_⟩
        rwa [Block.end_loop]
      . rw [if_neg hzero] at hvip
        obtain ⟨fault?, s', hruns, hend⟩ := ihbody hnext hcode.body hv (body.entry_first hvip)
        cases fault? with
        | some fault => exact ⟨some fault, s', .abort hzero hruns, by simp⟩
        | none =>
          obtain ⟨i, w, hi, hbehind, hwip, hw⟩ := hend rfl
          obtain ⟨fault?, s'', hloop, hend'⟩ :=
            ihloop i (by omega) hbehind hw (.inr (by omega))
          refine ⟨fault?, s'', .again hzero hruns hloop, ?_⟩
          intro hnone
          obtain ⟨i', w', hi', hw'⟩ := hend' hnone
          exact ⟨i', w', by omega, hw'⟩

def Ending.ofFault? : Option Fault → Ending
  | none => .finished
  | some fault => .failed fault

theorem agrees_start (input : String) (t : RunState n (Recording τ))
    : Agrees t.world (.start t.machine.tape.pointer.pos input t.world.source)
        (Machine.start input t) where
  tape := by
    unfold Machine.start Machine.setInput Machine.reset Tape.clear Tape.blank Store.start Store.tape
    dsimp only
    congr 1
    apply Vector.ext
    intro i hi
    rw [Vector.getElem_replicate, Vector.getElem_ofFn]
  output := rfl
  unread := Input.unread_ofString input
  consumed := by
    unfold Machine.start Machine.setInput
    dsimp only
    rw [Input.taken_ofString]
    rfl
  provider := rfl
  calls := rfl

section

variable {source input : String} {block : Block} {fault? : Option Fault} {s' : Store n τ}

theorem Block.located (hparse : Program.parse source = .ok p) (hcode : block.code = instructions source)
    : Located p.code.toList 0 block.code := by
  rw [(Program.parse_eq_ok hparse).1, hcode]
  exact ⟨[], [], by simp, rfl⟩

theorem Block.instruction?_length (hparse : Program.parse source = .ok p)
    (hcode : block.code = instructions source) (hip : t.machine.ip = 0 + block.code.length)
    : p.instruction? t.machine.ip = none := by
  rw [p.instruction?_eq_getElem?, (Program.parse_eq_ok hparse).1, ← hcode, hip, Nat.zero_add]
  apply List.getElem?_eq_none
  exact Nat.le_refl _

theorem Block.Runs.halts (hparse : Program.parse source = .ok p)
    (hcode : block.code = instructions source)
    (hruns : block.Runs provider 0 (.start t.machine.tape.pointer.pos input t.world.source) fault? s')
    : ∃ u, Machine.Halts (console provider) source input t (.ofFault? fault?) u ∧
        Agrees t.world s' u := by
  have hmatched := (Program.parse_eq_ok hparse).2
  have harrives := hruns.arrives hmatched (Block.located hparse hcode) (agrees_start input t)
    (block.entry_first rfl)
  simp only [Machine.halts_iff_stops hparse]
  cases fault? with
  | none =>
    obtain ⟨k, u, hsteps, hip, hu⟩ := harrives
    obtain ⟨v, hturn, hv⟩ := turn_end hu (Block.instruction?_length hparse hcode hip)
    exact ⟨v, ⟨k, u, hsteps, hturn⟩, hv⟩
  | some fault =>
    obtain ⟨k, u, hstops, hu⟩ := harrives
    exact ⟨u, ⟨k, hstops⟩, hu⟩

theorem Machine.Halts.exists_runs {ending : Ending} {u : RunState n (Recording τ)}
    (hparse : Program.parse source = .ok p) (hcode : block.code = instructions source)
    (hhalts : Machine.Halts (console provider) source input t ending u)
    : ∃ fault? s',
        block.Runs provider 0 (.start t.machine.tape.pointer.pos input t.world.source) fault? s' := by
  have hmatched := (Program.parse_eq_ok hparse).2
  obtain ⟨k, hstops⟩ := (Machine.halts_iff_stops hparse).1 hhalts
  obtain ⟨fault?, s', hruns, _⟩ := hstops.exists_runs hmatched (Block.located hparse hcode)
    (agrees_start input t) (block.entry_first rfl)
  exact ⟨fault?, s', hruns⟩

end

/--
Balanced code reads as exactly one structured program, and the machine implements it: on every tape, for
every input and every provider, the execution comes to an end if and only if the structured program does,
and then with the same fault or none, tape, pointer, output, use of the input and calls of the provider.
-/
theorem execute_implements_structured {source : String} (hsource : Balanced (instructions source))
    : ∃ block : Block, block.code = instructions source ∧
        (∀ other : Block, other.code = instructions source → other = block) ∧
        ∀ {n : Nat} {τ : Type} (provider : StateM τ (Option Char)) (input : String)
          (t : RunState n (Recording τ)),
          ((∃ ending u, Machine.Halts (console provider) source input t ending u)
              ↔
            ∃ fault? s, block.Runs provider 0
              (.start t.machine.tape.pointer.pos input t.world.source) fault? s) ∧
          ∀ ending u fault? s,
            Machine.Halts (console provider) source input t ending u →
            block.Runs provider 0
              (.start t.machine.tape.pointer.pos input t.world.source) fault? s →
            ending = .ofFault? fault? ∧ Agrees t.world s u := by
  obtain ⟨p, hparse⟩ := (Program.exists_parse_eq_ok_iff source).2 hsource
  obtain ⟨block, hcode⟩ := hsource.exists_block
  refine ⟨block, hcode, ?_, ?_⟩
  . intro other hother
    rw [← hcode] at hother
    exact Block.code_injective hother
  . intro n τ provider input t
    constructor
    . constructor
      . intro ⟨ending, u, hhalts⟩
        exact hhalts.exists_runs hparse hcode
      . intro ⟨fault?, s, hruns⟩
        obtain ⟨u, hhalts, _⟩ := hruns.halts hparse hcode
        exact ⟨_, u, hhalts⟩
    . intro ending u fault? s hhalts hruns
      obtain ⟨v, hhalts', hv⟩ := hruns.halts hparse hcode
      obtain ⟨rfl, rfl⟩ := hhalts.unique hhalts'
      exact ⟨rfl, hv⟩

theorem execute_implements_structured_nested
    : Balanced (instructions "++[>+++[>+<-]<-]>>.>[+]") ∧
      ∃ block : Block, block.code = instructions "++[>+++[>+<-]<-]>>.>[+]" ∧
        ∃ s, block.Runs answersInOrder 0 (.start (Machine.create 4).tape.pointer.pos "" []) none s ∧
          s.output = ['\x06'] := by
  have hbalanced : Balanced (instructions "++[>+++[>+<-]<-]>>.>[+]") := by decide
  obtain ⟨block, hcode, _, hblock⟩ := execute_implements_structured hbalanced
  obtain ⟨hiff, hagrees⟩ := hblock answersInOrder "" ⟨Machine.create 4, { source := [] }⟩
  have hvalue
      : ∃ out, ((Machine.create 4).execute (console answersInOrder) 100 "++[>+++[>+<-]<-]>>.>[+]" "").run
          { source := [] } = out ∧ out.1.1 = .finished ∧ out.1.2.output.toList = ['\x06'] :=
    ⟨_, rfl, by decide +kernel, by decide +kernel⟩
  obtain ⟨out, hout, hending, houtput⟩ := hvalue
  have hhalts
      : Machine.Halts (console answersInOrder) "++[>+++[>+<-]<-]>>.>[+]" ""
          ⟨Machine.create 4, { source := [] }⟩ out.1.1 ⟨out.1.2, out.2⟩ :=
    ⟨by simp [hending], 100, hout⟩
  obtain ⟨fault?, s, hruns⟩ := hiff.1 ⟨_, _, hhalts⟩
  obtain ⟨hfault, hs⟩ := hagrees _ _ _ _ hhalts hruns
  rw [hending] at hfault
  cases fault? with
  | some fault => cases hfault
  | none =>
    refine ⟨hbalanced, block, hcode, s, hruns, ?_⟩
    rw [← hs.output]
    exact houtput

end Brainfuck
