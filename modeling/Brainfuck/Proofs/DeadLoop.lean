import Brainfuck.Proofs.Simulation
import Brainfuck.Proofs.Structured

/-!
This module contains the proof that a loop at the start of a program, or right behind another loop, is dead
code: the current cell is zero whenever its opening bracket is reached. The program without the loop is
simulated by the program with it, with one more round for each time the loop is skipped.
-/

namespace Brainfuck

open RunState

variable {n : Nat} {τ : Type}

/--
Where the instruction at a position is found once `count` instructions are inserted at `start`.
-/
def shiftFrom (start count position : Nat) : Nat :=
  if position < start then position else position + count

theorem shiftFrom_of_lt {start position : Nat} (h : position < start) (count : Nat)
    : shiftFrom start count position = position :=
  if_pos h

theorem shiftFrom_of_le {start position : Nat} (h : start ≤ position) (count : Nat)
    : shiftFrom start count position = position + count :=
  if_neg (Nat.not_lt.2 h)

theorem shiftFrom_succ {start position : Nat} (h : position + 1 ≠ start) (count : Nat)
    : shiftFrom start count (position + 1) = shiftFrom start count position + 1 := by
  unfold shiftFrom
  split
  . rw [if_pos (by omega)]
  . rw [if_neg (by omega)]
    omega

section

variable {front piece back : List Instruction} {i j : Nat}

theorem getElem?_shiftFrom (front piece back : List Instruction) (position : Nat)
    : (front ++ (piece ++ back))[shiftFrom front.length piece.length position]?
        =
      (front ++ back)[position]? := by
  by_cases h : position < front.length
  . rw [shiftFrom_of_lt h, List.getElem?_append_left h, List.getElem?_append_left h]
  . rw [shiftFrom_of_le (by omega), List.getElem?_append_right (by omega),
      List.getElem?_append_right (by omega), List.getElem?_append_right (by omega)]
    congr 1
    omega

theorem length_enclosed (body : List Instruction)
    : (.loopOpen :: (body ++ [.loopClose]) : List Instruction).length = body.length + 2 := by
  simp

theorem Balanced.insert (h : Balanced (front ++ back)) (hpiece : Balanced piece)
    : Balanced (front ++ (piece ++ back)) := by
  rw [balanced_iff_depth]
  constructor
  . have := h.depth_eq_zero
    rw [depth_append] at this
    rw [depth_append, depth_append, hpiece.depth_eq_zero]
    omega
  . intro start ⟨rest, hstart⟩
    rw [List.append_eq_append_iff] at hstart
    obtain ⟨more, rfl, _⟩ | ⟨more, rfl, hmore⟩ := hstart
    . apply h.depth_nonneg
      exact ⟨more ++ back, by simp⟩
    . rw [eq_comm, List.append_eq_append_iff] at hmore
      obtain ⟨inner, hinner, _⟩ | ⟨inner, rfl, hback⟩ := hmore
      . have hfront := h.depth_nonneg front (List.prefix_append ..)
        have := hpiece.depth_nonneg more ⟨inner, hinner.symm⟩
        rw [depth_append]
        omega
      . have := h.depth_nonneg (front ++ inner) ⟨rest, by rw [hback, List.append_assoc]⟩
        rw [depth_append] at this
        rw [depth_append, depth_append, hpiece.depth_eq_zero]
        omega

theorem Partners.insert (h : Partners (front ++ back) i j) (hpiece : Balanced piece)
    : Partners (front ++ (piece ++ back)) (shiftFrom front.length piece.length i)
        (shiftFrom front.length piece.length j) := by
  obtain ⟨before, body, after, hcode, hbody, rfl, rfl⟩ := h
  by_cases hbefore : front.length ≤ before.length
  . -- The piece comes before the loop.
    rw [shiftFrom_of_le hbefore, shiftFrom_of_le (by omega)]
    obtain ⟨more, rfl⟩ := List.prefix_of_prefix_length_le ⟨back, hcode⟩ ⟨_, rfl⟩ hbefore
    simp only [List.append_assoc, List.append_cancel_left_eq] at hcode
    subst hcode
    refine ⟨front ++ (piece ++ more), body, after, by simp, hbody, ?_, by omega⟩
    simp only [List.length_append]
    omega
  . obtain ⟨inner, rfl⟩ : before ++ [.loopOpen] <+: front :=
      List.prefix_of_prefix_length_le ⟨body ++ .loopClose :: after, by simp⟩ ⟨back, hcode⟩
        (by simp only [List.length_append, List.length_singleton]; omega)
    simp only [List.append_assoc, List.cons_append, List.nil_append, List.append_cancel_left_eq,
      List.cons.injEq, true_and] at hcode
    rw [shiftFrom_of_lt (by simp)]
    by_cases hinner : inner.length ≤ body.length
    . -- The piece comes inside the loop.
      rw [shiftFrom_of_le (by simp; omega)]
      obtain ⟨more, rfl⟩ := List.prefix_of_prefix_length_le ⟨back, hcode⟩ ⟨_, rfl⟩ hinner
      simp only [List.append_assoc, List.append_cancel_left_eq] at hcode
      subst hcode
      refine ⟨before, inner ++ (piece ++ more), after, by simp, hbody.insert hpiece, rfl, ?_⟩
      simp only [List.length_append]
      omega
    . -- The piece comes behind the loop.
      rw [shiftFrom_of_lt (by simp; omega)]
      obtain ⟨more, rfl⟩ : body ++ [.loopClose] <+: inner :=
        List.prefix_of_prefix_length_le ⟨after, by simp⟩ ⟨back, hcode⟩
          (by simp only [List.length_append, List.length_singleton]; omega)
      exact ⟨before, body, more ++ (piece ++ back), by simp, hbody, rfl, rfl⟩

end

def Fault.relocate (f : Nat → Nat) : Fault → Fault
  | .unmatched bracket position => .unmatched bracket (f position)
  | .overflow position => .overflow (f position)
  | .underflow position => .underflow (f position)

def Ending.relocate (f : Nat → Nat) : Ending → Ending
  | .finished => .finished
  | .failed fault => .failed (fault.relocate f)
  | .interrupted => .interrupted

namespace Machine

variable {p p' : Program} {m : Machine n} {i : Instruction} {f : Nat → Nat}

def withIp (m : Machine n) (ip : Nat) : Machine n :=
  { m with ip }

theorem Blocked.withIp {fault : Fault} (h : m.Blocked i fault) (f : Nat → Nat)
    : (m.withIp (f m.ip)).Blocked i (fault.relocate f) := by
  cases h with
  | overflow hi hlast => exact .overflow hi hlast
  | underflow hi hfirst => exact .underflow hi hfirst

/--
An instruction does the same at another place, if brackets lead to the corresponding places. It is followed by
the instruction behind the place that corresponds to the one it comes from.
-/
theorem perform_withIp
    (hjump : i.IsBracket → (p'.jump? (f m.ip)).getD (f m.ip) = f ((p.jump? m.ip).getD m.ip))
    (hfail : ∀ fault, ¬m.Blocked i fault)
    : (m.withIp (f m.ip)).perform p' i
        =
      (m.perform p i).map fun m' => m'.withIp (f (m'.ip - 1) + 1) := by
  have hip : (m.withIp (f m.ip)).ip = f m.ip := rfl
  unfold perform
  cases i with
  | right =>
    cases hmove : m.tape.moveRight? with
    | none => exact absurd (.overflow rfl ((Tape.moveRight?_eq_none_iff _).1 hmove)) (hfail _)
    | some tape =>
      dsimp only [withIp]
      rw [hmove]
      rfl
  | left =>
    cases hmove : m.tape.moveLeft? with
    | none => exact absurd (.underflow rfl ((Tape.moveLeft?_eq_none_iff _).1 hmove)) (hfail _)
    | some tape =>
      dsimp only [withIp]
      rw [hmove]
      rfl
  | increment | decrement | output => rfl
  | input =>
    cases hnext : m.input.next? with
    | none =>
      dsimp only [withIp]
      rw [hnext]
      rfl
    | some next =>
      dsimp only [withIp]
      rw [hnext]
      rfl
  | loopOpen =>
    dsimp only
    rw [hip, hjump (.inl rfl), ← apply_ite f]
    rfl
  | loopClose =>
    dsimp only
    rw [hip, hjump (.inr rfl), ← apply_ite f]
    rfl

end Machine

structure Recording.SameUntraced (r r' : Recording τ) : Prop where
  printed : r'.printed = r.printed
  source : r'.source = r.source
  asked : r'.asked = r.asked

structure RunState.Relocated (f : Nat → Nat) (s s' : RunState n (Recording τ)) : Prop where
  machine : s'.machine = s.machine.withIp (f s.machine.ip)
  world : s.world.SameUntraced s'.world

namespace RunState.Relocated

variable {provider : StateM τ (Option Char)} {p p' : Program} {s s' t : RunState n (Recording τ)}
  {i : Instruction} {f : Nat → Nat}

theorem world_traced (h : s.Relocated f s') (provider : StateM τ (Option Char)) (p p' : Program)
    : (s.traced (Recording.console provider) p).SameUntraced
        (s'.traced (Recording.console provider) p') := by
  rw [Recording.traced_console, Recording.traced_console]
  exact ⟨h.world.printed, h.world.source, h.world.asked⟩

theorem turn (h : s.Relocated f s') (provider : StateM τ (Option Char))
    (hi : p.instruction? s.machine.ip = some i) (hi' : p'.instruction? (f s.machine.ip) = some i)
    (hjump : i.IsBracket →
      (p'.jump? (f s.machine.ip)).getD (f s.machine.ip) = f ((p.jump? s.machine.ip).getD s.machine.ip))
    (hfail : ∀ fault, ¬s.machine.Blocked i fault)
    : Turn.Related (Relocated fun ip => f (ip - 1) + 1) (s.turn (Recording.console provider) p)
        (s'.turn (Recording.console provider) p') := by
  have hstep : s'.machine.step p' = (s.machine.step p).map fun m' => m'.withIp (f (m'.ip - 1) + 1) := by
    rw [h.machine, Machine.step_of_instruction hi, Machine.step_of_instruction hi',
      Machine.perform_withIp hjump hfail]
  have hturn := Turn.related_of_step (g := fun m => m.withIp (f (m.ip - 1) + 1)) (fun _ => rfl) hstep
    (h.world_traced provider p p') ?_ ?_
  . apply hturn.mono
    intro t' ⟨hmachine, hworld⟩
    exact ⟨hmachine, hworld⟩
  . intro c w w' hw
    exact ⟨congrArg (·.push c) hw.printed, hw.source, hw.asked⟩
  . intro resume _ w w' hw
    rw [Recording.ask_console, Recording.ask_console, hw.source]
    exact ⟨rfl, hw.printed, rfl, congrArg (· + 1) hw.asked⟩

theorem stop (h : s.Relocated f s') {ending : Ending}
    (hcode : p'.instruction? (f s.machine.ip) = p.instruction? s.machine.ip)
    (hturn : s.turn (Recording.console provider) p = .stop ending t)
    : ∃ t', s'.turn (Recording.console provider) p' = .stop (ending.relocate f) t' ∧ t.Relocated f t' := by
  have hip : s'.machine.ip = f s.machine.ip := congrArg Machine.ip h.machine
  rw [← hip] at hcode
  obtain ⟨hend, rfl, rfl⟩ | ⟨i, fault, hi, hblocked, rfl, rfl⟩ := stop_cases hturn
  . rw [hend] at hcode
    exact ⟨s', turn_of_end hcode, h⟩
  . rw [hi] at hcode
    have hblocked' := hblocked.withIp f
    rw [← h.machine] at hblocked'
    exact ⟨_, turn_of_blocked hcode hblocked', h.machine, h.world_traced provider p p'⟩

end RunState.Relocated

section

variable {σ : Type} {console : Console (StateM σ)} {p : Program} {s t : RunState n σ}

theorem RunState.turn_of_skipped {j : Nat} (hmatched : p.IsMatched)
    (hloop : Partners p.code.toList s.machine.ip j) (hzero : s.machine.tape.current = 0)
    : s.turn console p = .next ⟨s.machine.withIp (j + 1), s.traced console p⟩ := by
  apply turn_of_advance
  rw [Machine.step_of_instruction (p.instruction?_eq_getElem? _ ▸ hloop.opening)]
  unfold Machine.perform
  dsimp only
  rw [if_pos hzero, (hmatched.jump?_of_partners hloop).1]
  rfl

theorem RunState.current_of_turn_loopClose {position : Nat} (hmatched : p.IsMatched)
    (hclose : p.code.toList[position]? = some .loopClose) (hturn : s.turn console p = .next t)
    (hip : t.machine.ip = position + 1) : t.machine.tape.current = 0 := by
  obtain ⟨written, ⟨i, hi, hnext⟩, _⟩ := succeeds_of_turn hturn
  have hmachine := machine_turn console p s
  rw [hturn, Machine.step_of_instruction hi] at hmachine
  dsimp only [Turn.state] at hmachine
  rw [p.instruction?_eq_getElem?] at hi
  have hbehind (h : t.machine.ip = s.machine.ip + 1) : i = .loopClose := by
    rw [show s.machine.ip = position by omega, hclose] at hi
    exact (Option.some.inj hi).symm
  cases i with
  | loopOpen =>
    by_cases hzero : s.machine.tape.current = 0
    . rw [hmachine]
      exact hzero
    . unfold Machine.perform at hmachine
      dsimp only at hmachine
      rw [if_neg hzero] at hmachine
      exact absurd (hbehind (congrArg Machine.ip hmachine)) (by simp)
  | loopClose =>
    by_cases hzero : s.machine.tape.current = 0
    . rw [hmachine]
      exact hzero
    . -- The run went back behind an opening bracket, and there is none at `position`.
      obtain ⟨j, hloop⟩ := hmatched.exists_partner_of_loopClose hi
      unfold Machine.perform at hmachine
      dsimp only at hmachine
      rw [if_neg hzero, (hmatched.jump?_of_partners hloop).2] at hmachine
      have hj : t.machine.ip = j + 1 := congrArg Machine.ip hmachine
      rw [show position = j by omega, hloop.opening] at hclose
      contradiction
  | _ =>
    obtain hnext | ⟨hbracket, _⟩ := hnext
    . exact absurd (hbehind hnext) (by simp)
    . exact absurd hbracket (by decide)

end

/--
The code of `p'` is that of `p` with a loop inserted behind `front`, where the current cell is always zero.
-/
structure Program.HasDeadLoop (p : Program) (front body back : List Instruction) (p' : Program) : Prop where
  matched : p.IsMatched
  matched' : p'.IsMatched
  code : p.code.toList = front ++ back
  code' : p'.code.toList = front ++ (.loopOpen :: (body ++ [.loopClose]) ++ back)
  last : front = [] ∨ front.getLast? = some .loopClose
  body : Balanced body

namespace Program.HasDeadLoop

variable {p p' : Program} {front body back : List Instruction} {provider : StateM τ (Option Char)}
  {s s' t t' : RunState n (Recording τ)}

theorem instruction? (h : p.HasDeadLoop front body back p') (position : Nat)
    : p'.instruction? (shiftFrom front.length (body.length + 2) position) = p.instruction? position := by
  rw [p.instruction?_eq_getElem?, p'.instruction?_eq_getElem?, h.code, h.code', ← length_enclosed]
  apply getElem?_shiftFrom

theorem partners (h : p.HasDeadLoop front body back p') {i j : Nat} (hloop : Partners p.code.toList i j)
    : Partners p'.code.toList (shiftFrom front.length (body.length + 2) i)
        (shiftFrom front.length (body.length + 2) j) := by
  rw [h.code] at hloop
  rw [h.code', ← length_enclosed]
  exact hloop.insert h.body.enclose

theorem partners_inserted (h : p.HasDeadLoop front body back p')
    : Partners p'.code.toList front.length (front.length + body.length + 1) :=
  ⟨front, body, back, by simp [h.code'], h.body, rfl, rfl⟩

theorem jump (h : p.HasDeadLoop front body back p') {position : Nat} {i : Instruction}
    (hi : p.instruction? position = some i) (hbracket : i.IsBracket)
    : (p'.jump? (shiftFrom front.length (body.length + 2) position)).getD
          (shiftFrom front.length (body.length + 2) position)
        =
      shiftFrom front.length (body.length + 2) ((p.jump? position).getD position) := by
  rw [p.instruction?_eq_getElem?] at hi
  obtain rfl | rfl := hbracket
  . obtain ⟨j, hloop⟩ := h.matched.exists_partner_of_loopOpen hi
    rw [(h.matched.jump?_of_partners hloop).1, (h.matched'.jump?_of_partners (h.partners hloop)).1]
    rfl
  . obtain ⟨j, hloop⟩ := h.matched.exists_partner_of_loopClose hi
    rw [(h.matched.jump?_of_partners hloop).2, (h.matched'.jump?_of_partners (h.partners hloop)).2]
    rfl

theorem loopClose (h : p.HasDeadLoop front body back p') {position : Nat}
    (hposition : position + 1 = front.length) : p.code.toList[position]? = some .loopClose := by
  rw [h.code, List.getElem?_append_left (by omega)]
  obtain hempty | hlast := h.last
  . rw [hempty] at hposition
    contradiction
  . rw [List.getLast?_eq_getElem?] at hlast
    rw [← hlast, ← hposition]
    rfl

theorem skip (h : p.HasDeadLoop front body back p') (provider : StateM τ (Option Char))
    (ht : t.Relocated (fun _ => front.length) t') (hip : t.machine.ip = front.length)
    (hzero : t.machine.tape.current = 0)
    : ∃ u', t'.turn (Recording.console provider) p' = .next u' ∧
        t.Relocated (shiftFrom front.length (body.length + 2)) u' := by
  have hip' : t'.machine.ip = front.length := by
    rw [ht.machine]
    rfl
  refine ⟨_, turn_of_skipped h.matched' (hip' ▸ h.partners_inserted) ?_, ?_, ?_⟩
  . rw [ht.machine]
    exact hzero
  . rw [hip, shiftFrom_of_le (Nat.le_refl _), ht.machine]
    rfl
  . rw [Recording.traced_console]
    exact ⟨ht.world.printed, ht.world.source, ht.world.asked⟩

theorem simulation (h : p.HasDeadLoop front body back p') (provider : StateM τ (Option Char))
    : Simulation (Recording.console provider) p (Recording.console provider) p'
        (Relocated (n := n) (shiftFrom front.length (body.length + 2)))
        fun ending t ending' t' =>
          ending' = ending.relocate (shiftFrom front.length (body.length + 2)) ∧
            t.Relocated (shiftFrom front.length (body.length + 2)) t' := by
  constructor
  . intro s t s' hs hturn
    obtain ⟨_, ⟨i, hi, hnext⟩, _⟩ := succeeds_of_turn hturn
    have hfail (fault : Fault) : ¬s.machine.Blocked i fault := by
      intro hblocked
      rw [turn_of_blocked hi hblocked] at hturn
      contradiction
    have hrelated := hs.turn provider hi ((h.instruction? _).trans hi) (h.jump hi) hfail
    rw [hturn] at hrelated
    obtain ⟨t', hturn', ht⟩ := hrelated.exists_next
    obtain ⟨position, hposition⟩ : ∃ position, t.machine.ip = position + 1 := by
      obtain hnext | ⟨_, hnext⟩ := hnext
      . exact ⟨_, hnext⟩
      . exact ⟨_, hnext⟩
    by_cases hip : t.machine.ip = front.length
    . -- The other run has come to the inserted loop, and skips it in one more round.
      have hzero := current_of_turn_loopClose h.matched (h.loopClose (by omega)) hturn hposition
      have hbefore : t.Relocated (fun _ => front.length) t' := by
        refine ⟨?_, ht.world⟩
        rw [ht.machine, shiftFrom_of_lt (by omega)]
        congr 1
        omega
      obtain ⟨u', hskip, hu⟩ := h.skip provider hbefore hip hzero
      exact ⟨1, u', .head hturn' (.single hskip), hu⟩
    . refine ⟨0, t', .single hturn', ?_, ht.world⟩
      rw [ht.machine, hposition, shiftFrom_succ (by omega)]
      rfl
  . intro s t s' ending hs hturn
    obtain ⟨t', hturn', ht⟩ := hs.stop (h.instruction? _) hturn
    exact ⟨_, t', hturn', rfl, ht⟩

end Program.HasDeadLoop

def SameRelocated (f : Nat → Nat) (ending : Ending) (t : RunState n (Recording τ)) (ending' : Ending)
    (t' : RunState n (Recording τ)) : Prop :=
  ending' = ending.relocate f ∧ t'.machine.ip = f t.machine.ip ∧ t'.machine.tape = t.machine.tape ∧
    t'.machine.output = t.machine.output ∧ t'.machine.input = t.machine.input ∧
    t'.world.printed = t.world.printed ∧ t'.world.source = t.world.source ∧
    t'.world.asked = t.world.asked

theorem RunState.Relocated.sameRelocated {f : Nat → Nat} {t t' : RunState n (Recording τ)}
    (h : t.Relocated f t') (ending : Ending) : SameRelocated f ending t (ending.relocate f) t' := by
  unfold SameRelocated
  rw [h.machine]
  exact ⟨rfl, rfl, rfl, rfl, rfl, h.world.printed, h.world.source, h.world.asked⟩

theorem Tape.current_clear (t : Tape n) : t.clear.current = 0 := by
  simp [clear, blank, current]

theorem instructions_ofList (code : List Instruction)
    : instructions (.ofList (code.map Instruction.symbol)) = code := by
  unfold instructions
  rw [String.toList_ofList, List.filterMap_map]
  simp

namespace Execution

variable {source source' : String} {front body back : List Instruction}

theorem endAlike_of_deadLoop (hfront : front = [] ∨ front.getLast? = some .loopClose)
    (hbody : Balanced body) (hbalanced : Balanced (front ++ back))
    (hsource : instructions source = front ++ back)
    (hsource' : instructions source' = front ++ .loopOpen :: (body ++ .loopClose :: back))
    (provider : StateM τ (Option Char)) (input : String) (s : RunState n (Recording τ))
    : EndAlike (SameRelocated (shiftFrom front.length (body.length + 2)))
        (recorded provider source input s) (recorded provider source' input s) := by
  have hcode : front ++ .loopOpen :: (body ++ .loopClose :: back)
      = front ++ (.loopOpen :: (body ++ [.loopClose]) ++ back) := by
    simp
  rw [hcode] at hsource'
  obtain ⟨p, hparse⟩ := (Program.exists_parse_eq_ok_iff source).2 (hsource ▸ hbalanced)
  obtain ⟨p', hparse'⟩ :=
    (Program.exists_parse_eq_ok_iff source').2 (hsource' ▸ hbalanced.insert hbody.enclose)
  obtain ⟨hp, hmatched⟩ := Program.parse_eq_ok hparse
  obtain ⟨hp', hmatched'⟩ := Program.parse_eq_ok hparse'
  have hdead : p.HasDeadLoop front body back p' :=
    ⟨hmatched, hmatched', hp.trans hsource, hp'.trans hsource', hfront, hbody⟩
  obtain ⟨k, s', hsteps, hstart⟩ : ∃ k s',
      Steps (Recording.console provider) p' k (recorded provider source' input s).start s' ∧
        (recorded provider source input s).start.Relocated
          (shiftFrom front.length (body.length + 2)) s' := by
    cases front with
    | nil =>
      -- The loop comes first, and is skipped because all cells are zero.
      obtain ⟨u, hskip, hu⟩ := hdead.skip provider
        (t := (recorded provider source input s).start) ⟨rfl, rfl, rfl, rfl⟩ rfl
        s.machine.tape.current_clear
      exact ⟨1, u, .single hskip, hu⟩
    | cons i rest => exact ⟨0, _, .refl _, ⟨rfl, rfl, rfl, rfl⟩⟩
  refine EndAlike.mono ?_
    (endAlike_of_simulation hparse hparse' (hdead.simulation provider) hsteps hstart)
  intro ending t ending' t' ⟨hending, ht⟩
  rw [hending]
  exact ht.sameRelocated ending

theorem halts_of_brackets (provider : StateM τ (Option Char)) (input : String)
    (s : RunState n (Recording τ)) (block : Block) (hblock : ∀ i ∈ block.code, i.IsBracket)
    (hsource : instructions source = block.code)
    : ∃ t, (recorded provider source input s).Halts .finished t ∧ t.machine.output = "" ∧
        t.machine.tape = s.machine.tape.clear := by
  induction block generalizing source with
  | done =>
    obtain ⟨p, hparse⟩ := (Program.exists_parse_eq_ok_iff source).2 (hsource ▸ .nil)
    have hend : p.instruction? 0 = none := by
      rw [p.instruction?_eq_getElem?, (Program.parse_eq_ok hparse).1, hsource]
      rfl
    have hstops : Stops (Recording.console provider) p 0 (recorded provider source input s).start .finished
        (recorded provider source input s).start :=
      .of_turn (turn_of_end hend)
    exact ⟨_, (halts_iff_stops (e := recorded provider source input s) hparse).2 ⟨0, hstops⟩, rfl, rfl⟩
  | act action rest _ => exact absurd (hblock _ (.head _)) action.not_isBracket
  | loop body rest _ ih =>
    have hrest := instructions_ofList rest.code
    have hbrackets (i : Instruction) (hi : i ∈ rest.code) : i.IsBracket := by
      apply hblock
      simp [Block.code, hi]
    obtain ⟨t, ht, houtput, htape⟩ := ih hbrackets hrest
    have halike := endAlike_of_deadLoop (.inl rfl) body.balanced_code rest.balanced_code hrest hsource
      provider input s
    obtain ⟨ending', t', ht'⟩ := halike.halts_iff.1 ⟨_, t, ht⟩
    obtain ⟨rfl, _, htape', houtput', _⟩ := halike.related _ _ _ _ ht ht'
    exact ⟨t', ht', houtput'.trans houtput, htape'.trans htape⟩

end Execution

/--
A loop at the start of a program or right behind another loop can be left out: both programs go on for ever, or
both come to an end in the same way, up to the places in the code.
-/
theorem unreachable_loop_is_dead (provider : StateM τ (Option Char)) (input : String)
    (s : RunState n (Recording τ))
    : (∀ (front body back : List Instruction) (source source' : String),
        (front = [] ∨ front.getLast? = some .loopClose) → Balanced body → Balanced (front ++ back) →
        instructions source = front ++ back →
        instructions source' = front ++ .loopOpen :: (body ++ .loopClose :: back) →
          Execution.EndAlike (SameRelocated (shiftFrom front.length (body.length + 2)))
            (.recorded provider source input s) (.recorded provider source' input s)) ∧
      ∀ source : String,
        Balanced (instructions source) → (∀ i ∈ instructions source, i.IsBracket) →
          ∃ t, (Execution.recorded provider source input s).Halts .finished t ∧
            t.machine.output = "" ∧ t.machine.tape = s.machine.tape.clear := by
  constructor
  . intro front body back source source' hfront hbody hbalanced hsource hsource'
    exact Execution.endAlike_of_deadLoop hfront hbody hbalanced hsource hsource' provider input s
  . intro source hbalanced hbrackets
    obtain ⟨block, hblock⟩ := hbalanced.exists_block
    rw [← hblock] at hbrackets
    exact Execution.halts_of_brackets provider input s block hbrackets hblock.symm

theorem unreachable_loop_is_dead_underflow
    : let e := fun source => Execution.recorded answersInOrder source ""
        ⟨Machine.create 3, { source := [] }⟩
      (∃ t, (e "+[-]<").Halts (.failed (.underflow 4)) t) ∧
        (∃ t, (e "+[-][.>]<").Halts (.failed (.underflow 8)) t) ∧
        ∃ t, (e "[[]][]").Halts .finished t := by
  intro e
  obtain ⟨hdead, hbrackets⟩ := unreachable_loop_is_dead answersInOrder ""
    (⟨Machine.create 3, { source := [] }⟩ : RunState 3 (Recording (List (Option Char))))
  have hvalue : ∃ out, (e "+[-]<").outcome 20 = out ∧ out.1.1 = .failed (.underflow 4) :=
    ⟨_, rfl, by decide +kernel⟩
  obtain ⟨out, hout, hfailed⟩ := hvalue
  have hhalts : (e "+[-]<").Halts (.failed (.underflow 4)) ⟨out.1.2, out.2⟩ := by
    refine ⟨by simp, 20, ?_⟩
    rw [← hfailed]
    exact hout
  have halike := hdead [.increment, .loopOpen, .decrement, .loopClose] [.output, .right] [.left] "+[-]<"
    "+[-][.>]<" (.inr rfl) (by decide) (by decide) (by decide) (by decide)
  obtain ⟨ending, t, ht⟩ := halike.halts_iff.1 ⟨_, _, hhalts⟩
  obtain ⟨rfl, _⟩ := halike.related _ _ _ _ hhalts ht
  obtain ⟨u, hu, _⟩ := hbrackets "[[]][]" (by decide) (by decide)
  exact ⟨⟨_, hhalts⟩, ⟨t, ht⟩, u, hu⟩

end Brainfuck
