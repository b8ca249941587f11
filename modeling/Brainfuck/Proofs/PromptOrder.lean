import Brainfuck.Prompt

/-!
This module contains the proof that the prompt neither loses, duplicates nor reorders lines. A caller, readers
and interrupts act on one prompt, in any order; `Prompt.Step` says what each of them can do next. What a caller
does between two events is what `Prompt.drain` and `Prompt.waitFor` do without a break.
-/

namespace Brainfuck.Prompt

def Event.line? : Event → Option (Option Char)
  | .line c => some c
  | .interrupted => none

inductive Phase where
  | idle
  | draining
  | drained
  | announced
  | waiting
  | received (event : Event)
  deriving DecidableEq, Repr

structure System where
  prompt : Prompt := {}
  phase : Phase := .idle
  readers : Nat := 0
  produced : Nat := 0
  answers : List Event := []
  deriving DecidableEq, Repr

inductive Action where
  | call
  | proceed
  | report
  | interrupt
  deriving DecidableEq, Repr

/--
`Step values x action y`: an action takes the system from `x` to `y`, if `values` are the lines that the readers
find.
-/
inductive Step (values : Nat → Option Char) : System → Action → System → Prop where
  | call {x : System} (hphase : x.phase = .idle) : Step values x .call { x with phase := .draining }
  | drop {x : System} {p : Prompt} (hphase : x.phase = .draining)
      (hevent : x.prompt.takeEvent? = some (.interrupted, p)) : Step values x .proceed { x with prompt := p }
  | use {x : System} {p : Prompt} {c : Option Char} (hphase : x.phase = .draining)
      (hevent : x.prompt.takeEvent? = some (.line c, p))
      : Step values x .proceed
          { x with prompt := p.useLine, phase := .idle, answers := x.answers ++ [.line c] }
  | drained {x : System} (hphase : x.phase = .draining) (hevent : x.prompt.takeEvent? = none)
      : Step values x .proceed { x with phase := .drained }
  | announce {x : System} (hphase : x.phase = .drained)
      : Step values x .proceed { x with prompt := x.prompt.startWaiting, phase := .announced }
  | start {x : System} (hphase : x.phase = .announced)
      : Step values x .proceed
          { x with
            prompt := x.prompt.startReader
            phase := .waiting
            readers := if x.prompt.inFlight then x.readers else x.readers + 1 }
  | receive {x : System} {p : Prompt} {event : Event} (hphase : x.phase = .waiting)
      (hevent : x.prompt.takeEvent? = some (event, p))
      : Step values x .proceed { x with prompt := p, phase := .received event }
  | finish {x : System} {c : Option Char} (hphase : x.phase = .received (.line c))
      : Step values x .proceed
          { x with
            prompt := x.prompt.stopWaiting.useLine
            phase := .idle
            answers := x.answers ++ [.line c] }
  | giveUp {x : System} (hphase : x.phase = .received .interrupted)
      : Step values x .proceed
          { x with prompt := x.prompt.stopWaiting, phase := .idle, answers := x.answers ++ [.interrupted] }
  | report {x : System} {readers : Nat} (hreaders : x.readers = readers + 1)
      : Step values x .report
          { x with
            prompt := x.prompt.deliver (values x.produced)
            readers
            produced := x.produced + 1 }
  | interrupt {x : System} : Step values x .interrupt { x with prompt := x.prompt.interrupt.2 }

inductive Run (values : Nat → Option Char) : System → List Action → System → Prop where
  | refl (x : System) : Run values x [] x
  | step {x y z : System} {action : Action} {actions : List Action} (hstep : Step values x action y)
      (hrun : Run values y actions z) : Run values x (action :: actions) z

variable {values : Nat → Option Char} {x y z : System} {action : Action} {actions more : List Action}

theorem Run.preserves {P : System → Prop} (h : Run values x actions y)
    (hstep : ∀ {x y : System} {action : Action}, action ∈ actions → Step values x action y → P x → P y)
    (hx : P x) : P y := by
  induction h with
  | refl x => exact hx
  | step hfirst _ ih =>
    apply ih
    . intro x y action hmem
      exact hstep (List.mem_cons_of_mem _ hmem)
    . exact hstep List.mem_cons_self hfirst hx

theorem Run.append (h : Run values x actions y) (h' : Run values y more z)
    : Run values x (actions ++ more) z := by
  induction h with
  | refl x => exact h'
  | step hstep _ ih => exact .step hstep (ih h')

theorem takeEvent?_eq_some_iff {p p' : Prompt} {event : Event}
    : p.takeEvent? = some (event, p') ↔ ∃ queue, p.queue = event :: queue ∧ p' = { p with queue } := by
  unfold takeEvent?
  cases p.queue with
  | nil => simp
  | cons first queue =>
    constructor
    . intro h
      cases h
      exact ⟨queue, rfl, rfl⟩
    . intro ⟨_, hqueue, hp⟩
      cases hqueue
      rw [hp]

theorem takeEvent?_eq_none_iff {p : Prompt} : p.takeEvent? = none ↔ p.queue = [] := by
  unfold takeEvent?
  cases p.queue with
  | nil => simp
  | cons first queue => simp

def lines (events : List Event) : List (Option Char) :=
  events.filterMap Event.line?

@[simp]
theorem lines_nil : lines [] = [] :=
  rfl

@[simp]
theorem lines_cons_line (c : Option Char) (events : List Event) : lines (.line c :: events) = c :: lines events :=
  rfl

@[simp]
theorem lines_cons_interrupted (events : List Event) : lines (.interrupted :: events) = lines events :=
  rfl

@[simp]
theorem lines_append (events events' : List Event) : lines (events ++ events') = lines events ++ lines events' :=
  List.filterMap_append

namespace System

def inHand (x : System) : List Event :=
  match x.phase with
  | .received event => [event]
  | _ => []

/--
Every line is somewhere: it was returned, or it is on its way to the caller.
-/
structure Accounted (values : Nat → Option Char) (x : System) : Prop where
  inFlight : x.readers + (lines (x.inHand ++ x.prompt.queue)).length = x.prompt.inFlight.toNat
  order : lines (x.answers ++ (x.inHand ++ x.prompt.queue)) = (List.range x.produced).map values

end System

theorem Step.accounted (h : Step values x action y) (hx : x.Accounted values) : y.Accounted values := by
  obtain ⟨hflight, horder⟩ := hx
  have hone := Bool.toNat_le x.prompt.inFlight
  cases h with
  | call hphase | drained hphase | announce hphase =>
    simp only [System.inHand, hphase] at hflight horder
    exact ⟨hflight, horder⟩
  | drop hphase hevent =>
    obtain ⟨queue, hqueue, rfl⟩ := takeEvent?_eq_some_iff.1 hevent
    simp only [System.inHand, hphase, hqueue] at hflight horder
    refine ⟨?_, ?_⟩
    . simp only [System.inHand, hphase]
      exact hflight
    . simp only [System.inHand, hphase]
      simpa using horder
  | use hphase hevent =>
    obtain ⟨queue, hqueue, rfl⟩ := takeEvent?_eq_some_iff.1 hevent
    simp only [System.inHand, hphase, hqueue] at hflight horder
    simp only [List.nil_append, lines_cons_line, List.length_cons] at hflight
    refine ⟨?_, ?_⟩
    -- The line was the only one under way: no reader is left, and no line behind it in the queue.
    . change x.readers + (lines queue).length = 0
      omega
    . exact (congrArg lines (List.append_assoc _ _ _)).trans horder
  | start hphase =>
    simp only [System.inHand, hphase, List.nil_append] at hflight horder
    refine ⟨?_, horder⟩
    change (if x.prompt.inFlight then x.readers else x.readers + 1) + (lines x.prompt.queue).length = 1
    cases hreader : x.prompt.inFlight with
    | true =>
      rw [hreader] at hflight
      exact hflight
    | false =>
      rw [hreader, Bool.toNat_false] at hflight
      rw [if_neg Bool.false_ne_true]
      omega
  | receive hphase hevent =>
    obtain ⟨queue, hqueue, rfl⟩ := takeEvent?_eq_some_iff.1 hevent
    simp only [System.inHand, hphase, hqueue] at hflight horder
    exact ⟨hflight, horder⟩
  | finish hphase =>
    simp only [System.inHand, hphase] at hflight horder
    simp only [List.singleton_append, lines_cons_line, List.length_cons] at hflight
    refine ⟨?_, ?_⟩
    . change x.readers + (lines x.prompt.queue).length = 0
      omega
    . exact (congrArg lines (List.append_assoc _ _ _)).trans horder
  | giveUp hphase =>
    simp only [System.inHand, hphase] at hflight horder
    exact ⟨hflight, (congrArg lines (List.append_assoc _ _ _)).trans horder⟩
  | report hreaders =>
    refine ⟨?_, ?_⟩
    . simp [System.inHand, deliver] at hflight ⊢
      omega
    . simp [List.range_succ, ← horder, System.inHand, deliver]
  | interrupt =>
    unfold Prompt.interrupt
    split
    . refine ⟨?_, ?_⟩
      . simpa [System.inHand] using hflight
      . simpa [System.inHand] using horder
    . exact ⟨hflight, horder⟩

theorem Run.accounted (h : Run values x actions y) (hx : x.Accounted values) : y.Accounted values :=
  h.preserves (fun _ hstep => hstep.accounted) hx

namespace System.Accounted

theorem lines_answers (h : x.Accounted values)
    : lines x.answers = (List.range (lines x.answers).length).map values := by
  have horder := h.order
  rw [lines_append] at horder
  have hlength := congrArg List.length horder
  have htake := congrArg (List.take (lines x.answers).length) horder
  rw [List.length_append, List.length_map, List.length_range] at hlength
  rw [List.take_left, ← List.map_take, List.take_range, Nat.min_eq_left (by omega)] at htake
  exact htake

theorem lines_later {earlier events : List Event} (h : x.Accounted values) (hanswers : x.answers = earlier ++ events)
    : lines events = (List.range' (lines earlier).length (lines events).length).map values := by
  have hlines := h.lines_answers
  rw [hanswers, lines_append, List.length_append] at hlines
  have hdrop := congrArg (List.drop (lines earlier).length) hlines
  rw [List.drop_left, ← List.map_drop, List.range_eq_range', List.drop_range', Nat.add_sub_cancel_left] at hdrop
  simpa using hdrop

theorem inFlight_of_inHand (h : x.Accounted values) (hnone : x.inHand = [])
    : x.readers + (lines x.prompt.queue).length = x.prompt.inFlight.toNat ∧
      (lines x.answers).length + (lines x.prompt.queue).length = x.produced := by
  obtain ⟨hflight, horder⟩ := h
  have hlength := congrArg List.length horder
  rw [hnone] at hflight hlength
  refine ⟨hflight, ?_⟩
  simpa using hlength

end System.Accounted

theorem System.inHand_of_phase (h : ∀ event, x.phase ≠ .received event) : x.inHand = [] := by
  unfold System.inHand
  split
  . next event hphase => exact absurd hphase (h event)
  . rfl

theorem Step.exists_answers (h : Step values x action y) : ∃ events, y.answers = x.answers ++ events := by
  cases h with
  | call | drop | drained | announce | start | receive | report | interrupt =>
    exact ⟨[], (List.append_nil _).symm⟩
  | use | finish | giveUp => exact ⟨_, rfl⟩

theorem Run.exists_answers (h : Run values x actions y) : ∃ events, y.answers = x.answers ++ events := by
  apply h.preserves (P := fun y => ∃ events, y.answers = x.answers ++ events)
  . intro y z action _ hstep ⟨events, hy⟩
    obtain ⟨events', hz⟩ := hstep.exists_answers
    exact ⟨events ++ events', by rw [hz, hy, List.append_assoc]⟩
  . exact ⟨[], (List.append_nil _).symm⟩

/--
The line `c` is in the queue and no call has come past it, or it has answered the first call after `earlier`.
-/
def System.Upcoming (earlier : List Event) (c : Option Char) (x : System) : Prop :=
  (x.answers = earlier ∧ (x.phase = .idle ∨ x.phase = .draining) ∧ (lines x.prompt.queue).head? = some c) ∨
  ∃ events, x.answers = earlier ++ .line c :: events

theorem Step.upcoming {earlier : List Event} {c : Option Char} (h : Step values x action y)
    (hx : x.Upcoming earlier c) : y.Upcoming earlier c := by
  obtain ⟨hanswers, hidle, hhead⟩ | ⟨events, hevents⟩ := hx
  . cases h with
    | call hphase => exact .inl ⟨hanswers, .inr rfl, hhead⟩
    | drop hphase hevent =>
      obtain ⟨queue, hqueue, rfl⟩ := takeEvent?_eq_some_iff.1 hevent
      rw [hqueue, lines_cons_interrupted] at hhead
      exact .inl ⟨hanswers, hidle, hhead⟩
    | use hphase hevent =>
      obtain ⟨queue, hqueue, rfl⟩ := takeEvent?_eq_some_iff.1 hevent
      rw [hqueue, lines_cons_line, List.head?_cons] at hhead
      cases hhead
      exact .inr ⟨[], congrArg (· ++ _) hanswers⟩
    | drained hphase hevent =>
      rw [takeEvent?_eq_none_iff.1 hevent] at hhead
      contradiction
    | announce hphase | start hphase | receive hphase | finish hphase | giveUp hphase =>
      simp [hphase] at hidle
    | report hreaders =>
      refine .inl ⟨hanswers, hidle, ?_⟩
      change (lines (x.prompt.queue ++ _)).head? = some c
      rw [lines_append, List.head?_append, hhead]
      rfl
    | interrupt =>
      refine .inl ⟨hanswers, hidle, ?_⟩
      unfold Prompt.interrupt
      split
      . change (lines (x.prompt.queue ++ _)).head? = some c
        rw [lines_append, List.head?_append, hhead]
        rfl
      . exact hhead
  . obtain ⟨events', hy⟩ := h.exists_answers
    refine .inr ⟨events ++ events', ?_⟩
    rw [hy, hevents, List.append_assoc, List.cons_append]

/--
No interrupt has reached the prompt: every call that was answered has got the line of its own reader.
-/
structure System.Undisturbed (x : System) : Prop where
  events : .interrupted ∉ x.answers ++ (x.inHand ++ x.prompt.queue)
  inFlight : x.phase = .waiting ∨ (∃ event, x.phase = .received event) ∨ x.prompt.inFlight = false

theorem Step.undisturbed (h : Step values x action y) (haction : action ≠ .interrupt)
    (hx : x.Undisturbed) : y.Undisturbed := by
  obtain ⟨hevents, hflight⟩ := hx
  cases h with
  | interrupt => contradiction
  | call hphase | drained hphase | announce hphase =>
    simp only [System.inHand, hphase] at hevents
    have hfree : x.prompt.inFlight = false := by simpa [hphase] using hflight
    exact ⟨hevents, .inr (.inr hfree)⟩
  | drop hphase hevent =>
    obtain ⟨queue, hqueue, rfl⟩ := takeEvent?_eq_some_iff.1 hevent
    simp [hqueue] at hevents
  | use hphase hevent =>
    obtain ⟨queue, hqueue, rfl⟩ := takeEvent?_eq_some_iff.1 hevent
    simp only [System.inHand, hphase, hqueue] at hevents
    refine ⟨?_, .inr (.inr rfl)⟩
    simpa [System.inHand, useLine] using hevents
  | start hphase =>
    simp only [System.inHand, hphase] at hevents
    exact ⟨hevents, .inl rfl⟩
  | receive hphase hevent =>
    obtain ⟨queue, hqueue, rfl⟩ := takeEvent?_eq_some_iff.1 hevent
    simp only [System.inHand, hphase, hqueue] at hevents
    exact ⟨hevents, .inr (.inl ⟨_, rfl⟩)⟩
  | finish hphase =>
    simp only [System.inHand, hphase] at hevents
    refine ⟨?_, .inr (.inr rfl)⟩
    simpa [System.inHand, stopWaiting, useLine] using hevents
  | giveUp hphase => simp [System.inHand, hphase] at hevents
  | report hreaders =>
    refine ⟨?_, hflight⟩
    simpa [System.inHand, deliver] using hevents

theorem map_line_lines {events : List Event} (h : .interrupted ∉ events)
    : (lines events).map .line = events := by
  induction events with
  | nil => rfl
  | cons event events ih =>
    rw [List.mem_cons, not_or] at h
    cases event with
    | interrupted => exact absurd rfl h.1
    | line c => rw [lines_cons_line, List.map_cons, ih h.2]

section

variable {p : Prompt} {queue : List Event}

theorem drain_of_nil (h : p.queue = []) : p.drain = (none, p) := by
  obtain ⟨_, pending, inFlight⟩ := p
  subst h
  rfl

theorem drain_of_line {c : Option Char} (h : p.queue = .line c :: queue)
    : p.drain = (some c, { p with queue }.useLine) := by
  obtain ⟨_, pending, inFlight⟩ := p
  subst h
  rfl

theorem drain_of_interrupted (h : p.queue = .interrupted :: queue)
    : p.drain = { p with queue }.drain := by
  obtain ⟨_, pending, inFlight⟩ := p
  subst h
  rfl

end

def System.drained (x : System) : System :=
  match x.prompt.drain with
  | (some c, prompt) => { x with prompt, phase := .idle, answers := x.answers ++ [.line c] }
  | (none, prompt) => { x with prompt, phase := .drained }

theorem exists_run_drained (values : Nat → Option Char) (hphase : x.phase = .draining)
    : ∃ actions, Run values x actions x.drained := by
  induction hqueue : x.prompt.queue generalizing x with
  | nil =>
    unfold System.drained
    rw [drain_of_nil hqueue]
    exact ⟨_, .step (.drained hphase (takeEvent?_eq_none_iff.2 hqueue)) (.refl _)⟩
  | cons event queue ih =>
    have hevent := takeEvent?_eq_some_iff.2 ⟨queue, hqueue, rfl⟩
    cases event with
    | line c =>
      unfold System.drained
      rw [drain_of_line hqueue]
      exact ⟨_, .step (.use hphase hevent) (.refl _)⟩
    | interrupted =>
      have hdrained : x.drained = { x with prompt := { x.prompt with queue } : System }.drained := by
        unfold System.drained
        rw [drain_of_interrupted hqueue]
      obtain ⟨actions, hrun⟩ := ih (x := { x with prompt := { x.prompt with queue } }) hphase rfl
      rw [hdrained]
      exact ⟨_, .step (.drop hphase hevent) hrun⟩

theorem queue_of_drain {p p' : Prompt} (h : p.drain = (none, p')) : p'.queue = [] := by
  induction hqueue : p.queue generalizing p with
  | nil =>
    rw [drain_of_nil hqueue] at h
    cases h
    exact hqueue
  | cons event queue ih =>
    cases event with
    | line c =>
      rw [drain_of_line hqueue] at h
      cases h
    | interrupted =>
      rw [drain_of_interrupted hqueue] at h
      exact ih h rfl

def Event.ofReading (reading : FedPrompt.Reading) : Event :=
  if reading.interrupted then .interrupted else .line reading.char

theorem run_waitFor_line (hphase : x.phase = .drained) (hqueue : x.prompt.queue = [])
    (hreaders : x.readers = x.prompt.inFlight.toNat)
    : Run values x [.proceed, .proceed, .report, .proceed, .proceed]
        { x with
          prompt := (x.prompt.waitFor (.line (values x.produced))).2
          phase := .idle
          readers := 0
          produced := x.produced + 1
          answers := x.answers ++ [.line (x.prompt.waitFor (.line (values x.produced))).1] } := by
  obtain ⟨⟨_, pending, inFlight⟩, _, _, produced, answers⟩ := x
  dsimp only at hphase hqueue hreaders
  subst hphase hqueue hreaders
  cases inFlight <;> exact .step (.announce rfl) (.step (.start rfl) (.step (.report rfl)
    (.step (.receive rfl rfl) (.step (.finish rfl) (.refl _)))))

theorem run_waitFor_interrupt (hphase : x.phase = .drained) (hqueue : x.prompt.queue = [])
    (hreaders : x.readers = x.prompt.inFlight.toNat)
    : Run values x [.proceed, .proceed, .interrupt, .proceed, .proceed]
        { x with
          prompt := (x.prompt.waitFor .interrupt).2
          phase := .idle
          readers := 1
          answers := x.answers ++ [.interrupted] } := by
  obtain ⟨⟨_, pending, inFlight⟩, _, _, produced, answers⟩ := x
  dsimp only at hphase hqueue hreaders
  subst hphase hqueue hreaders
  cases inFlight <;> exact .step (.announce rfl) (.step (.start rfl) (.step .interrupt
    (.step (.receive rfl rfl) (.step (.giveUp rfl) (.refl _)))))

theorem System.Accounted.exists_run_read (h : x.Accounted values) (hphase : x.phase = .idle)
    {fed : List (Option Char)} (hfed : ∀ c ∈ fed.head?, values x.produced = c)
    : ∃ actions y, Run values x actions y ∧ y.phase = .idle ∧
        y.prompt = (FedPrompt.read ⟨x.prompt, fed⟩).2.prompt ∧
        y.answers = x.answers ++ [.ofReading (FedPrompt.read ⟨x.prompt, fed⟩).1] := by
  obtain ⟨actions, hdrained⟩ := exists_run_drained values (x := { x with phase := .draining }) rfl
  have hrun := Run.step (.call hphase) hdrained
  have haccounted := hrun.accounted h
  unfold System.drained at hrun haccounted
  unfold FedPrompt.read
  cases hdrain : x.prompt.drain with
  | mk answer p =>
    simp only [hdrain] at hrun haccounted ⊢
    cases answer with
    | some c => exact ⟨_, _, hrun, rfl, rfl, rfl⟩
    | none =>
      have hqueue := queue_of_drain hdrain
      have hreaders : x.readers = p.inFlight.toNat := by
        have hflight := haccounted.inFlight
        simpa [System.inHand, hqueue] using hflight
      cases fed with
      | nil =>
        exact ⟨_, _, hrun.append (run_waitFor_interrupt rfl hqueue hreaders), rfl, rfl, rfl⟩
      | cons c fed =>
        have hc : values x.produced = c := hfed c rfl
        subst hc
        exact ⟨_, _, hrun.append (run_waitFor_line rfl hqueue hreaders), rfl, rfl, rfl⟩

namespace System.Undisturbed

theorem map_lines (h : x.Undisturbed) : (lines x.answers).map .line = x.answers :=
  map_line_lines fun hmem => h.events (List.mem_append_left _ hmem)

theorem length_lines (h : x.Undisturbed) : (lines x.answers).length = x.answers.length := by
  rw [← h.map_lines, List.length_map, h.map_lines]

theorem answers_eq (h : x.Undisturbed) (hx : x.Accounted values)
    : x.answers = (List.range x.answers.length).map fun i => .line (values i) := by
  have hmap := h.map_lines
  rw [hx.lines_answers, h.length_lines, List.map_map] at hmap
  exact hmap.symm

end System.Undisturbed

theorem Run.head?_answers {events : List Event} {c : Option Char} (h : Run values x actions y)
    (hphase : x.phase = .idle) (hhead : (lines x.prompt.queue).head? = some c)
    (hevents : y.answers = x.answers ++ events) : ∀ event ∈ events.head?, event = .line c := by
  intro event hmem
  have hupcoming : y.Upcoming x.answers c :=
    h.preserves (fun _ hstep => hstep.upcoming) (.inl ⟨rfl, .inl hphase, hhead⟩)
  obtain ⟨hsame, _, _⟩ | ⟨rest, hrest⟩ := hupcoming
  . rw [hsame, List.self_eq_append_right] at hevents
    rw [hevents] at hmem
    contradiction
  . rw [hrest] at hevents
    cases List.append_cancel_left hevents
    exact (Option.some.inj hmem).symm

/--
The prompt neither loses, duplicates nor reorders lines, in whatever order a caller, readers and interrupts act
on it. There is at most one reader that waits or one line in the queue, and as long as no call has an event in
its hand there is one exactly if the prompt says so. The lines that the readers have found are those that calls
have returned, then one in the hand of a call, then one in the queue. Later calls return the lines that follow,
and a line that is in the queue while nobody calls answers the next call. A reader that was left behind finds
the first of the lines that follow. Without interrupts every call returns the line of its own reader. The
readings of a `FedPrompt` are calls of this kind.
-/
theorem prompt_keeps_lines_in_order (values : Nat → Option Char) (actions : List Action) (x : System)
    (h : Run values {} actions x)
    : x.readers + (lines x.prompt.queue).length ≤ 1 ∧
      ((∀ event, x.phase ≠ .received event) →
        (x.readers + (lines x.prompt.queue).length = 1 ↔ x.prompt.inFlight = true)) ∧
      lines x.answers ++ lines x.inHand ++ lines x.prompt.queue = (List.range x.produced).map values ∧
      (∀ later y, Run values x later y →
        ∃ events, y.answers = x.answers ++ events ∧
          lines events = (List.range' (lines x.answers).length (lines events).length).map values ∧
          (x.phase = .idle → ∀ c ∈ lines x.prompt.queue, ∀ event ∈ events.head?, event = .line c)) ∧
      (x.phase = .idle → x.readers = 1 → (lines x.answers).length = x.produced) ∧
      (.interrupt ∉ actions →
        x.answers = (List.range x.answers.length).map (fun i => .line (values i)) ∧
        (x.phase = .idle → x.readers = 0 ∧ x.produced = x.answers.length)) ∧
      (x.phase = .idle → ∀ fed : List (Option Char), (∀ c ∈ fed.head?, values x.produced = c) →
        ∃ later y, Run values x later y ∧ y.phase = .idle ∧
          y.prompt = (FedPrompt.read ⟨x.prompt, fed⟩).2.prompt ∧
          y.answers = x.answers ++ [.ofReading (FedPrompt.read ⟨x.prompt, fed⟩).1]) := by
  have haccounted : x.Accounted values := h.accounted ⟨rfl, rfl⟩
  have hone : x.readers + (lines x.prompt.queue).length ≤ 1 := by
    have hflight := haccounted.inFlight
    have hbool := Bool.toNat_le x.prompt.inFlight
    rw [lines_append, List.length_append] at hflight
    omega
  have hidle (hphase : x.phase = .idle) := haccounted.inFlight_of_inHand (by simp [System.inHand, hphase])
  refine ⟨hone, ?_, ?_, ?_, ?_, ?_, ?_⟩
  . intro hphase
    rw [(haccounted.inFlight_of_inHand (System.inHand_of_phase hphase)).1]
    cases x.prompt.inFlight <;> simp
  . rw [List.append_assoc, ← lines_append, ← lines_append]
    exact haccounted.order
  . intro later y hrun
    obtain ⟨events, hevents⟩ := hrun.exists_answers
    refine ⟨events, hevents, (hrun.accounted haccounted).lines_later hevents, ?_⟩
    intro hphase c hmem
    apply hrun.head?_answers hphase _ hevents
    cases hlines : lines x.prompt.queue with
    | nil => simp [hlines] at hmem
    | cons first rest =>
      have hrest : rest = [] := by
        rw [hlines, List.length_cons] at hone
        exact List.eq_nil_of_length_eq_zero (by omega)
      rw [hlines, hrest, List.mem_singleton] at hmem
      rw [hmem]
      rfl
  . intro hphase hreader
    have := (hidle hphase).2
    omega
  . intro hnone
    have hundisturbed : x.Undisturbed := by
      apply h.preserves (P := System.Undisturbed)
      . intro x y action hmem hstep
        exact hstep.undisturbed fun haction => hnone (haction ▸ hmem)
      . exact ⟨by simp [System.inHand], .inr (.inr rfl)⟩
    refine ⟨hundisturbed.answers_eq haccounted, ?_⟩
    intro hphase
    have hfree : x.prompt.inFlight = false := by simpa [hphase] using hundisturbed.inFlight
    have hlength := hundisturbed.length_lines
    obtain ⟨hflight, hproduced⟩ := hidle hphase
    rw [hfree, Bool.toNat_false] at hflight
    omega
  . intro hphase fed hfed
    exact haccounted.exists_run_read hphase hfed

theorem prompt_keeps_lines_in_order_left_behind
    : let values := fun k => if k = 0 then some 'k' else none
      let x : System := { prompt := { inFlight := true }, readers := 1, answers := [.interrupted] }
      let y : System := { produced := 1, answers := [.interrupted, .line (some 'k')] }
      Run values {} [.call, .proceed, .proceed, .proceed, .interrupt, .proceed, .proceed] x ∧
      Run values x [.report, .call, .proceed] y ∧
      (lines x.answers).length = x.produced ∧
      ∃ events, y.answers = x.answers ++ events ∧
        lines events = (List.range' (lines x.answers).length (lines events).length).map values := by
  intro values x y
  have hleft : Run values {} [.call, .proceed, .proceed, .proceed, .interrupt, .proceed, .proceed] x :=
    .step (.call rfl) (.step (.drained rfl rfl) (.step (.announce rfl) (.step (.start rfl)
      (.step .interrupt (.step (.receive rfl rfl) (.step (.giveUp rfl) (.refl _)))))))
  have hlater : Run values x [.report, .call, .proceed] y :=
    .step (.report rfl) (.step (.call rfl) (.step (.use rfl rfl) (.refl _)))
  obtain ⟨_, _, _, hevents, hreader, _⟩ := prompt_keeps_lines_in_order values _ x hleft
  obtain ⟨events, hanswers, hlines, _⟩ := hevents _ y hlater
  exact ⟨hleft, hlater, hreader rfl rfl, events, hanswers, hlines⟩

end Brainfuck.Prompt
