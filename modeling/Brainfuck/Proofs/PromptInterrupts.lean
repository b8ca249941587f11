import Brainfuck.Proofs.PromptOrder
import Mathlib.Data.List.Induction

/-!
This module contains the proof that an interrupt ends no other call than the one it was accepted for. The
events of a run are numbered in the order in which they are sent. The queue hands them on in this order, so
event `k` is the one that is sent as number `k` and taken as number `k`. A call is known by the number of calls
that were answered before it.
-/

namespace Brainfuck.Prompt

def Phase.isPending : Phase → Bool
  | .announced | .waiting | .received _ => true
  | .idle | .draining | .drained => false

inductive Past (values : Nat → Option Char) : List (System × Action) → System → Prop where
  | start : Past values [] {}
  | step {past : List (System × Action)} {x y : System} {action : Action} (h : Past values past x)
      (hstep : Step values x action y) : Past values (past ++ [(x, action)]) y

structure Passage where
  event : Event
  state : System
  deriving DecidableEq

def sent? (values : Nat → Option Char) : System × Action → Option Passage
  | (x, .report) => some ⟨.line (values x.produced), x⟩
  | (x, .interrupt) => if x.prompt.interrupt.1 then some ⟨.interrupted, x⟩ else none
  | (_, .call) | (_, .proceed) => none

def taken? : System × Action → Option Passage
  | (x, .proceed) =>
    match x.phase with
    | .draining | .waiting => x.prompt.takeEvent?.map fun next => ⟨next.1, x⟩
    | .idle | .drained | .announced | .received _ => none
  | (_, .call) | (_, .report) | (_, .interrupt) => none

def sent (values : Nat → Option Char) (past : List (System × Action)) : List Passage :=
  past.filterMap (sent? values)

def taken (past : List (System × Action)) : List Passage :=
  past.filterMap taken?

namespace System

def call (x : System) : Nat :=
  x.answers.length

def settled (x : System) : List Event :=
  x.answers ++ x.inHand

end System

/--
The event is the answer of the call that takes it: only an interrupt that a call finds before it waits is not.
-/
def Passage.IsAnswer (t : Passage) : Prop :=
  t.event ≠ .interrupted ∨ t.state.phase = .waiting

instance : DecidablePred Passage.IsAnswer :=
  fun t => inferInstanceAs (Decidable (t.event ≠ .interrupted ∨ t.state.phase = .waiting))

variable {values : Nat → Option Char} {x y : System} {action : Action} {actions : List Action}
  {past : List (System × Action)} {event : Event}

theorem Past.run (h : Past values past x) : Run values {} (past.map Prod.snd) x := by
  induction h with
  | start => exact .refl _
  | step _ hstep ih =>
    rw [List.map_append]
    exact ih.append (.step hstep (.refl _))

theorem Past.exists_of_run (h : Past values past x) (hrun : Run values x actions y)
    : ∃ more, more.map Prod.snd = actions ∧ Past values (past ++ more) y := by
  induction hrun generalizing past with
  | refl x => exact ⟨[], rfl, by simpa using h⟩
  | @step x _ _ action _ hstep _ ih =>
    obtain ⟨more, hactions, hpast⟩ := ih (h.step hstep)
    refine ⟨(x, action) :: more, by simp [hactions], ?_⟩
    simpa using hpast

theorem run_iff_exists_past
    : Run values {} actions x ↔ ∃ past, past.map Prod.snd = actions ∧ Past values past x := by
  constructor
  . exact Past.exists_of_run .start
  . intro ⟨past, hactions, hpast⟩
    rw [← hactions]
    exact hpast.run

-- What an action does to the queue and to the answers, said once for all actions.
inductive Effect (values : Nat → Option Char) (x : System) (action : Action) (y : System) : Prop where
  | quiet (hsent : sent? values (x, action) = none) (htaken : taken? (x, action) = none)
      (hqueue : y.prompt.queue = x.prompt.queue) (hsettled : y.settled = x.settled)
  | sends (event : Event) (hsent : sent? values (x, action) = some ⟨event, x⟩)
      (htaken : taken? (x, action) = none) (hqueue : y.prompt.queue = x.prompt.queue ++ [event])
      (hsettled : y.settled = x.settled)
  | takes (event : Event) (hsent : sent? values (x, action) = none)
      (htaken : taken? (x, action) = some ⟨event, x⟩) (hphase : x.phase = .draining ∨ x.phase = .waiting)
      (hqueue : x.prompt.queue = event :: y.prompt.queue)
      (hsettled : y.settled = x.settled ++ if Passage.IsAnswer ⟨event, x⟩ then [event] else [])

theorem taken?_of_takeEvent? {p : Prompt} (hphase : x.phase = .draining ∨ x.phase = .waiting)
    (hevent : x.prompt.takeEvent? = some (event, p)) : taken? (x, .proceed) = some ⟨event, x⟩ := by
  obtain hphase | hphase := hphase
  . simp [taken?, hphase, hevent]
  . simp [taken?, hphase, hevent]

theorem takeEvent?_of_taken? {t : Passage} (h : taken? (x, action) = some t)
    : x = t.state ∧ ∃ p, t.state.prompt.takeEvent? = some (t.event, p) := by
  cases action with
  | call | report | interrupt => contradiction
  | proceed =>
    unfold taken? at h
    dsimp only at h
    split at h
    . obtain ⟨⟨event, p⟩, hevent, rfl⟩ := Option.map_eq_some_iff.1 h
      exact ⟨rfl, p, hevent⟩
    . obtain ⟨⟨event, p⟩, hevent, rfl⟩ := Option.map_eq_some_iff.1 h
      exact ⟨rfl, p, hevent⟩
    . contradiction
    . contradiction
    . contradiction
    . contradiction

theorem Step.effect (h : Step values x action y) : Effect values x action y := by
  cases h with
  | call hphase | announce hphase | start hphase | finish hphase | giveUp hphase =>
    apply Effect.quiet
    . rfl
    . simp [taken?, hphase]
    . rfl
    . simp [System.settled, System.inHand, hphase]
  | drained hphase hevent =>
    apply Effect.quiet
    . rfl
    . simp [taken?, hphase, hevent]
    . rfl
    . simp [System.settled, System.inHand, hphase]
  | drop hphase hevent | use hphase hevent =>
    have htaken := taken?_of_takeEvent? (.inl hphase) hevent
    obtain ⟨queue, hqueue, rfl⟩ := takeEvent?_eq_some_iff.1 hevent
    apply Effect.takes _ rfl htaken (.inl hphase) hqueue
    simp [System.settled, System.inHand, Passage.IsAnswer, hphase]
  | receive hphase hevent =>
    have htaken := taken?_of_takeEvent? (.inr hphase) hevent
    obtain ⟨queue, hqueue, rfl⟩ := takeEvent?_eq_some_iff.1 hevent
    apply Effect.takes _ rfl htaken (.inr hphase) hqueue
    simp [System.settled, System.inHand, Passage.IsAnswer, hphase]
  | report hreaders => exact .sends _ rfl rfl rfl rfl
  | interrupt =>
    by_cases hpending : x.prompt.pending
    . apply Effect.sends .interrupted
      . simp [sent?, Prompt.interrupt, hpending]
      . rfl
      . simp [Prompt.interrupt, hpending]
      . rfl
    . apply Effect.quiet
      . simp [sent?, Prompt.interrupt, hpending]
      . rfl
      . simp [Prompt.interrupt, hpending]
      . rfl

theorem Step.pending (h : Step values x action y) (hx : x.prompt.pending = x.phase.isPending)
    : y.prompt.pending = y.phase.isPending := by
  cases h with
  | call hphase | drained hphase | start hphase =>
    rw [hphase] at hx
    exact hx
  | drop hphase hevent =>
    obtain ⟨queue, _, rfl⟩ := takeEvent?_eq_some_iff.1 hevent
    exact hx
  | use hphase hevent | receive hphase hevent =>
    obtain ⟨queue, _, rfl⟩ := takeEvent?_eq_some_iff.1 hevent
    rw [hphase] at hx
    exact hx
  | announce | finish | giveUp => rfl
  | report hreaders => exact hx
  | interrupt =>
    unfold Prompt.interrupt
    split <;> exact hx

/--
Which interrupts can be in the queue, by the states in which they were accepted: those of earlier calls until
a call has drained the queue, and from then on only those of this call.
-/
def System.Admits (x s : System) : Prop :=
  match x.phase with
  | .idle | .draining => s.call < x.call
  | .drained => False
  | .announced | .waiting | .received _ => s.call = x.call

theorem Step.admits (h : Step values x action y) (hqueue : x.prompt.queue ≠ []) {s : System}
    (hs : x.Admits s) : y.Admits s := by
  unfold System.Admits System.call at hs ⊢
  cases h with
  | call hphase | start hphase | receive hphase =>
    simp only [hphase] at hs
    exact hs
  | announce hphase => simp [hphase] at hs
  | drained hphase hevent =>
    rw [takeEvent?_eq_none_iff] at hevent
    contradiction
  | drop hphase => simpa [hphase] using hs
  | use hphase =>
    simp only [hphase] at hs
    simp only [List.length_append, List.length_singleton]
    omega
  | finish hphase | giveUp hphase =>
    simp only [hphase] at hs
    simp [hs]
  | report | interrupt => exact hs

/--
The order of sending and taking. Event `k` is the one at place `k` of both lists, and the events that were not
taken are in the queue.
-/
structure Orderly (sent taken : List Passage) (x : System) : Prop where
  fifo : taken.map Passage.event ++ x.prompt.queue = sent.map Passage.event
  queued : ∀ s ∈ sent.drop taken.length, s.event = .interrupted → x.Admits s.state
  fate : ∀ (k : Nat) (s t : Passage), sent[k]? = some s → taken[k]? = some t → s.event = .interrupted →
    (t.state.phase = .waiting ∧ t.state.call = s.state.call) ∨
      (t.state.phase = .draining ∧ s.state.call < t.state.call)
  answers : ∀ (call : Nat) (event : Event), x.settled[call]? = some event →
    ∃ t ∈ taken, t.IsAnswer ∧ t.event = event ∧ t.state.call = call
  answered : ∀ t ∈ taken, t.IsAnswer → x.settled[t.state.call]? = some t.event
  once : taken.Pairwise fun t u => t.IsAnswer → t.state.call < u.state.call

namespace Orderly

variable {sent taken : List Passage}

theorem length_eq (h : Orderly sent taken x) : taken.length + x.prompt.queue.length = sent.length := by
  have := congrArg List.length h.fifo
  simpa using this

theorem map_drop (h : Orderly sent taken x)
    : (sent.drop taken.length).map Passage.event = x.prompt.queue := by
  rw [List.map_drop, ← h.fifo]
  simp

theorem queue_ne_nil (h : Orderly sent taken x) {s : Passage} (hs : s ∈ sent.drop taken.length)
    : x.prompt.queue ≠ [] := by
  rw [← h.map_drop]
  simp only [ne_eq, List.map_eq_nil_iff]
  exact List.ne_nil_of_mem hs

theorem quiet (h : Orderly sent taken x) (hqueue : y.prompt.queue = x.prompt.queue)
    (hsettled : y.settled = x.settled) (hadmits : ∀ s, x.prompt.queue ≠ [] → x.Admits s → y.Admits s)
    : Orderly sent taken y where
  fifo := by rw [hqueue, h.fifo]
  queued s hs hevent := hadmits s.state (h.queue_ne_nil hs) (h.queued s hs hevent)
  fate := h.fate
  answers := by
    rw [hsettled]
    exact h.answers
  answered := by
    rw [hsettled]
    exact h.answered
  once := h.once

theorem sends (h : Orderly sent taken x) (hqueue : y.prompt.queue = x.prompt.queue ++ [event])
    (hsettled : y.settled = x.settled) (hadmits : ∀ s, x.prompt.queue ≠ [] → x.Admits s → y.Admits s)
    (hnew : event = .interrupted → y.Admits x) : Orderly (sent ++ [⟨event, x⟩]) taken y where
  fifo := by
    rw [hqueue, ← List.append_assoc, h.fifo]
    simp
  queued s hs hevent := by
    have hlength := h.length_eq
    rw [List.drop_append_of_le_length (by omega), List.mem_append, List.mem_singleton] at hs
    obtain hs | hs := hs
    . exact hadmits s.state (h.queue_ne_nil hs) (h.queued s hs hevent)
    . subst hs
      exact hnew hevent
  fate k s t hk ht := by
    have hlength := h.length_eq
    have hlt : k < taken.length := (List.getElem?_eq_some_iff.1 ht).1
    rw [List.getElem?_append_left (by omega)] at hk
    exact h.fate k s t hk ht
  answers := by
    rw [hsettled]
    exact h.answers
  answered := by
    rw [hsettled]
    exact h.answered
  once := h.once

theorem call_eq_length_settled (hphase : x.phase = .draining ∨ x.phase = .waiting)
    : x.call = x.settled.length := by
  obtain hphase | hphase := hphase
  . simp [System.call, System.settled, System.inHand, hphase]
  . simp [System.call, System.settled, System.inHand, hphase]

theorem takes (h : Orderly sent taken x) (hphase : x.phase = .draining ∨ x.phase = .waiting)
    (hqueue : x.prompt.queue = event :: y.prompt.queue)
    (hsettled : y.settled = x.settled ++ if Passage.IsAnswer ⟨event, x⟩ then [event] else [])
    (hadmits : ∀ s, x.prompt.queue ≠ [] → x.Admits s → y.Admits s)
    : Orderly sent (taken ++ [⟨event, x⟩]) y where
  fifo := by
    rw [← h.fifo, hqueue]
    simp
  queued s hs hevent := by
    rw [List.length_append, List.length_singleton, ← List.drop_drop] at hs
    replace hs := List.mem_of_mem_drop hs
    exact hadmits s.state (h.queue_ne_nil hs) (h.queued s hs hevent)
  fate k s t hk ht hevent := by
    rw [List.getElem?_append] at ht
    split at ht
    . exact h.fate k s t hk ht hevent
    . next hge =>
      rw [List.getElem?_singleton] at ht
      split at ht
      . -- The event was the oldest in the queue, so its call is the one that the queue admits.
        next hlast =>
        cases ht
        have hmem : s ∈ sent.drop taken.length := by
          apply List.mem_of_getElem? (i := 0)
          rw [List.getElem?_drop, ← hk]
          congr 1
          omega
        have hadmitted := h.queued s hmem hevent
        unfold System.Admits at hadmitted
        obtain hphase | hphase := hphase
        . simp only [hphase] at hadmitted
          exact .inr ⟨hphase, hadmitted⟩
        . simp only [hphase] at hadmitted
          exact .inl ⟨hphase, hadmitted.symm⟩
      . contradiction
  answers call event' hcall := by
    rw [hsettled, List.getElem?_append] at hcall
    split at hcall
    . obtain ⟨t, ht, hanswer⟩ := h.answers call event' hcall
      exact ⟨t, List.mem_append_left _ ht, hanswer⟩
    . next hge =>
      split at hcall
      . next hanswer =>
        rw [List.getElem?_singleton] at hcall
        split at hcall
        . cases hcall
          refine ⟨_, List.mem_append_right _ List.mem_cons_self, hanswer, rfl, ?_⟩
          rw [call_eq_length_settled hphase]
          omega
        . contradiction
      . contradiction
  answered t ht hanswer := by
    rw [List.mem_append, List.mem_singleton] at ht
    rw [hsettled]
    obtain ht | ht := ht
    . have hold := h.answered t ht hanswer
      rw [List.getElem?_append_left (List.getElem?_eq_some_iff.1 hold).1, hold]
    . subst ht
      rw [if_pos hanswer, call_eq_length_settled hphase, List.getElem?_concat_length]
  once := by
    rw [List.pairwise_append]
    refine ⟨h.once, List.pairwise_singleton _ _, ?_⟩
    intro t ht u hu hanswer
    rw [List.mem_singleton] at hu
    subst hu
    rw [call_eq_length_settled hphase]
    exact (List.getElem?_eq_some_iff.1 (h.answered t ht hanswer)).1

end Orderly

theorem sent_concat (values : Nat → Option Char) (past : List (System × Action)) (moment : System × Action)
    : sent values (past ++ [moment]) = sent values past ++ (sent? values moment).toList := by
  unfold sent
  rw [List.filterMap_append]
  cases hsent : sent? values moment <;> simp [hsent]

theorem taken_concat (past : List (System × Action)) (moment : System × Action)
    : taken (past ++ [moment]) = taken past ++ (taken? moment).toList := by
  unfold taken
  rw [List.filterMap_append]
  cases htaken : taken? moment <;> simp [htaken]

theorem Past.pending (h : Past values past x) : x.prompt.pending = x.phase.isPending := by
  induction h with
  | start => rfl
  | step _ hstep ih => exact hstep.pending ih

theorem Past.of_mem (h : Past values past x) {s : System} (hs : (s, action) ∈ past)
    : ∃ before, Past values before s := by
  induction h with
  | start => contradiction
  | @step past x y action hpast hstep ih =>
    rw [List.mem_append, List.mem_singleton] at hs
    obtain hs | hs := hs
    . exact ih hs
    . cases hs
      exact ⟨past, hpast⟩

theorem Past.interrupt_iff (h : Past values past x)
    : x.prompt.interrupt.1 = true ↔ x.phase.isPending = true := by
  rw [← h.pending]
  unfold Prompt.interrupt
  split <;> simp_all

theorem Step.admits_interrupt (h : Step values x action y) (hpending : x.prompt.pending = x.phase.isPending)
    (hsent : sent? values (x, action) = some ⟨.interrupted, x⟩) : y.Admits x := by
  cases h with
  | interrupt =>
    have hphase : x.phase.isPending = true := by
      rw [← hpending]
      by_cases hwait : x.prompt.pending
      . exact hwait
      . simp [sent?, Prompt.interrupt, hwait] at hsent
    unfold System.Admits
    dsimp only
    cases hx : x.phase with
    | announced | waiting | received => rfl
    | idle | draining | drained =>
      rw [hx] at hphase
      contradiction
  | report => cases hsent
  | call | drop | use | drained | announce | start | receive | finish | giveUp => contradiction

theorem Past.orderly (h : Past values past x) : Orderly (sent values past) (taken past) x := by
  induction h with
  | start =>
    refine ⟨rfl, ?_, ?_, ?_, ?_, .nil⟩
    . simp [sent]
    . simp [sent]
    . simp [System.settled, System.inHand]
    . simp [taken]
  | @step past x y action hpast hstep ih =>
    have hadmits (s : System) (hqueue : x.prompt.queue ≠ []) (hs : x.Admits s) : y.Admits s :=
      hstep.admits hqueue hs
    rw [sent_concat, taken_concat]
    cases hstep.effect with
    | quiet hsent htaken hqueue hsettled =>
      rw [hsent, htaken, Option.toList_none, List.append_nil, List.append_nil]
      exact ih.quiet hqueue hsettled hadmits
    | sends event hsent htaken hqueue hsettled =>
      rw [hsent, htaken, Option.toList_none, List.append_nil]
      apply ih.sends hqueue hsettled hadmits
      intro hevent
      subst hevent
      exact hstep.admits_interrupt hpast.pending hsent
    | takes event hsent htaken hphase hqueue hsettled =>
      rw [hsent, htaken, Option.toList_none, List.append_nil]
      exact ih.takes hphase hqueue hsettled hadmits

theorem Past.of_concat (h : Past values (past ++ [(x, action)]) y)
    : Past values past x ∧ Step values x action y := by
  generalize hfull : past ++ [(x, action)] = full at h
  cases h with
  | start => simp at hfull
  | step hpast hstep =>
    obtain ⟨rfl, hmoment⟩ := List.append_inj' hfull rfl
    cases hmoment
    exact ⟨hpast, hstep⟩

def System.without (x : System) (place : Nat) : System :=
  { x with prompt := { x.prompt with queue := x.prompt.queue.eraseIdx place } }

theorem takeEvent?_without {p : Prompt} (h : x.prompt.takeEvent? = some (event, p)) (place : Nat)
    : (x.without (place + 1)).prompt.takeEvent? = some (event, { p with queue := p.queue.eraseIdx place }) := by
  obtain ⟨queue, hqueue, rfl⟩ := takeEvent?_eq_some_iff.1 h
  rw [takeEvent?_eq_some_iff]
  refine ⟨queue.eraseIdx place, ?_, rfl⟩
  simp [System.without, hqueue]

theorem eraseIdx_concat {queue : List Event} {place : Nat} (hplace : queue[place]? = some .interrupted)
    : (queue ++ [event]).eraseIdx place = queue.eraseIdx place ++ [event] :=
  List.eraseIdx_append_of_lt_length (List.getElem?_eq_some_iff.1 hplace).1 _

/--
An interrupt in the queue makes no difference to what happens next, unless a call that waits takes it: it is
dropped, or the same action leads to the same state without it.
-/
theorem Step.without {place : Nat} (h : Step values x action y)
    (hplace : x.prompt.queue[place]? = some .interrupted)
    (hkept : place = 0 → ∀ t ∈ taken? (x, action), t.state.phase ≠ .waiting)
    : (action = .proceed ∧ y = x.without place ∧ place < (taken? (x, action)).toList.length) ∨
      ∃ place', place' + (taken? (x, action)).toList.length = place ∧
        Step values (x.without place) action (y.without place') := by
  cases h with
  | call hphase => exact .inr ⟨place, rfl, .call hphase⟩
  | announce hphase => exact .inr ⟨place, by simp [taken?, hphase], .announce hphase⟩
  | start hphase => exact .inr ⟨place, by simp [taken?, hphase], .start hphase⟩
  | finish hphase => exact .inr ⟨place, by simp [taken?, hphase], .finish hphase⟩
  | giveUp hphase => exact .inr ⟨place, by simp [taken?, hphase], .giveUp hphase⟩
  | drained hphase hevent =>
    rw [takeEvent?_eq_none_iff.1 hevent] at hplace
    contradiction
  | drop hphase hevent =>
    rw [taken?_of_takeEvent? (.inl hphase) hevent]
    cases place with
    | zero =>
      obtain ⟨queue, hqueue, rfl⟩ := takeEvent?_eq_some_iff.1 hevent
      refine .inl ⟨rfl, ?_, Nat.zero_lt_one⟩
      simp [System.without, hqueue]
    | succ place =>
      exact .inr ⟨place, rfl, .drop (x := x.without (place + 1)) hphase (takeEvent?_without hevent place)⟩
  | use hphase hevent =>
    rw [taken?_of_takeEvent? (.inl hphase) hevent]
    cases place with
    | zero =>
      obtain ⟨queue, hqueue, rfl⟩ := takeEvent?_eq_some_iff.1 hevent
      simp [hqueue] at hplace
    | succ place =>
      exact .inr ⟨place, rfl, .use (x := x.without (place + 1)) hphase (takeEvent?_without hevent place)⟩
  | receive hphase hevent =>
    rw [taken?_of_takeEvent? (.inr hphase) hevent] at hkept ⊢
    cases place with
    | zero => exact absurd hphase (hkept rfl _ rfl)
    | succ place =>
      exact .inr ⟨place, rfl, .receive (x := x.without (place + 1)) hphase (takeEvent?_without hevent place)⟩
  | report hreaders =>
    refine .inr ⟨place, rfl, ?_⟩
    have hstep := @Step.report values (x.without place) _ hreaders
    unfold System.without deliver at hstep ⊢
    rw [eraseIdx_concat hplace]
    exact hstep
  | interrupt =>
    refine .inr ⟨place, rfl, ?_⟩
    have hstep := @Step.interrupt values (x.without place)
    unfold System.without Prompt.interrupt at hstep ⊢
    dsimp only at hstep ⊢
    split at hstep
    . next hpending =>
      rw [if_pos hpending, eraseIdx_concat hplace]
      exact hstep
    . next hpending =>
      rw [if_neg hpending]
      exact hstep

structure Spares (after after' : List (System × Action)) : Prop where
  sublist : (after'.map Prod.snd).Sublist (after.map Prod.snd)
  others : (after'.map Prod.snd).filter (· ≠ .proceed) = (after.map Prod.snd).filter (· ≠ .proceed)

theorem Spares.concat {after after' : List (System × Action)} (h : Spares after after') (s s' : System)
    (action : Action) : Spares (after ++ [(s, action)]) (after' ++ [(s', action)]) where
  sublist := by
    simpa using h.sublist
  others := by
    simpa using h.others

theorem Spares.proceed {after after' : List (System × Action)} (h : Spares after after') (s : System)
    : Spares (after ++ [(s, .proceed)]) after' where
  sublist := by
    rw [List.map_append]
    exact h.sublist.trans (List.sublist_append_left _ _)
  others := by
    simpa using h.others

section

variable {before after : List (System × Action)} {s : System}

theorem getElem?_sent (haccepted : s.prompt.interrupt.1 = true)
    : (sent values (before ++ (s, .interrupt) :: after))[(sent values before).length]?
        =
      some ⟨.interrupted, s⟩ := by
  simp [sent, sent?, haccepted]

theorem Orderly.getElem?_queue {sent taken : List Passage} (h : Orderly sent taken x) {k : Nat} {t : Passage}
    (hk : sent[k]? = some t) (hle : taken.length ≤ k)
    : x.prompt.queue[k - taken.length]? = some t.event := by
  rw [← h.map_drop, List.getElem?_map, List.getElem?_drop, Nat.add_sub_cancel' hle, hk]
  rfl

theorem Past.without (h : Past values (before ++ (s, .interrupt) :: after) x)
    (haccepted : s.prompt.interrupt.1 = true)
    (hkept : ∀ t, (taken (before ++ (s, .interrupt) :: after))[(sent values before).length]? = some t →
      t.state.phase ≠ .waiting)
    : ∃ after' z, Past values (before ++ after') z ∧ Spares after after' ∧
        z =
          if (sent values before).length < (taken (before ++ (s, .interrupt) :: after)).length then
            x
          else
            x.without ((sent values before).length -
              (taken (before ++ (s, .interrupt) :: after)).length) := by
  induction after using List.reverseRecOn generalizing x with
  | nil =>
    obtain ⟨hbefore, hstep⟩ := h.of_concat
    have hlength : (taken before).length + s.prompt.queue.length = (sent values before).length :=
      hbefore.orderly.length_eq
    refine ⟨[], s, by simpa using hbefore, ⟨.slnil, rfl⟩, ?_⟩
    have htaken : taken (before ++ [(s, .interrupt)]) = taken before := by
      rw [taken_concat]
      simp [taken?]
    rw [htaken, if_neg (by omega), show (sent values before).length - (taken before).length
      = s.prompt.queue.length by omega]
    cases hstep with
    | interrupt =>
      unfold Prompt.interrupt at haccepted ⊢
      split at haccepted
      . next hpending =>
        rw [if_pos hpending]
        unfold System.without
        dsimp only
        rw [List.eraseIdx_append_of_length_le (Nat.le_refl _)]
        simp
      . contradiction
  | append_singleton after moment ih =>
    obtain ⟨w, action⟩ := moment
    rw [show before ++ (s, .interrupt) :: (after ++ [(w, action)])
      = (before ++ (s, .interrupt) :: after) ++ [(w, action)] by simp] at h hkept ⊢
    obtain ⟨hpast, hstep⟩ := h.of_concat
    rw [taken_concat] at hkept ⊢
    have hkept' (t : Passage)
        (ht : (taken (before ++ (s, .interrupt) :: after))[(sent values before).length]? = some t)
        : t.state.phase ≠ .waiting := by
      apply hkept
      rw [List.getElem?_append_left (List.getElem?_eq_some_iff.1 ht).1, ht]
    obtain ⟨after', z, hz, hspares, hstate⟩ := ih hpast hkept'
    rw [List.length_append]
    split at hstate
    . next hlt =>
      subst hstate
      refine ⟨after' ++ [(z, action)], x, ?_, hspares.concat z z action, ?_⟩
      . simpa using hz.step hstep
      . rw [if_pos (by omega)]
    . next hge =>
      have hplace := hpast.orderly.getElem?_queue (getElem?_sent haccepted) (Nat.le_of_not_lt hge)
      have hleft (hzero : (sent values before).length - (taken (before ++ (s, .interrupt) :: after)).length = 0)
          : ∀ t ∈ taken? (w, action), t.state.phase ≠ .waiting := by
        intro t ht
        apply hkept
        rw [show taken? (w, action) = some t from ht, List.getElem?_append_right (by omega), hzero]
        rfl
      obtain ⟨rfl, hx, hlt⟩ | ⟨place', hplace', hstep'⟩ := hstep.without hplace hleft
      . refine ⟨after', z, hz, hspares.proceed w, ?_⟩
        rw [if_pos (by omega), hstate, hx]
      . rw [← hstate] at hstep'
        refine ⟨after' ++ [(z, action)], x.without place', ?_, hspares.concat w z action, ?_⟩
        . simpa using hz.step hstep'
        . rw [if_neg (by omega)]
          congr 1
          omega

end

def Accepted (values : Nat → Option Char) (past : List (System × Action)) (k : Nat) (s : System) : Prop :=
  (sent values past)[k]? = some ⟨.interrupted, s⟩

def Received (past : List (System × Action)) (k : Nat) (t : System) : Prop :=
  (taken past)[k]? = some ⟨.interrupted, t⟩ ∧ t.phase = .waiting

def Dropped (past : List (System × Action)) (k : Nat) (t : System) : Prop :=
  (taken past)[k]? = some ⟨.interrupted, t⟩ ∧ t.phase = .draining

def Queued (past : List (System × Action)) (x : System) (k : Nat) : Prop :=
  (taken past).length ≤ k ∧ x.prompt.queue[k - (taken past).length]? = some .interrupted

namespace Orderly

variable {sent taken : List Passage} {k k' : Nat} {t t' : Passage}

theorem event_eq {s : Passage} (h : Orderly sent taken x) (hs : sent[k]? = some s) (ht : taken[k]? = some t)
    : t.event = s.event := by
  have hk := congrArg (·[k]?) h.fifo
  have hlt := (List.getElem?_eq_some_iff.1 ht).1
  rw [List.getElem?_append_left (by simpa using hlt), List.getElem?_map, List.getElem?_map, hs, ht] at hk
  simpa using hk

theorem exists_sent (h : Orderly sent taken x) (ht : taken[k]? = some t)
    : ∃ s, sent[k]? = some ⟨t.event, s⟩ := by
  have hlength := h.length_eq
  have hlt := (List.getElem?_eq_some_iff.1 ht).1
  obtain ⟨s, hs⟩ : ∃ s, sent[k]? = some s := ⟨_, List.getElem?_eq_getElem (by omega)⟩
  refine ⟨s.state, ?_⟩
  rw [hs, h.event_eq hs ht]

theorem le_of_call_le (h : Orderly sent taken x) (ht : taken[k]? = some t) (ht' : taken[k']? = some t')
    (hanswer' : t'.IsAnswer) (hcall : t.state.call ≤ t'.state.call) : k ≤ k' := by
  have honce := List.pairwise_iff_getElem.1 h.once
  obtain ⟨hk, rfl⟩ := List.getElem?_eq_some_iff.1 ht
  obtain ⟨hk', rfl⟩ := List.getElem?_eq_some_iff.1 ht'
  apply Nat.le_of_not_lt
  intro hlt
  have := honce k' k hk' hk hlt hanswer'
  omega

end Orderly

theorem Accepted.append {k : Nat} {s : System} (h : Accepted values past k s)
    (more : List (System × Action)) : Accepted values (past ++ more) k s := by
  unfold Accepted sent at h ⊢
  rw [List.filterMap_append, List.getElem?_append_left (List.getElem?_eq_some_iff.1 h).1, h]

namespace Past

variable {k : Nat} {s t : System}

theorem isPending_of_accepted (h : Past values past x) (hs : Accepted values past k s)
    : s.phase.isPending = true := by
  obtain ⟨⟨y, action⟩, hmem, hsent⟩ := List.mem_filterMap.1 (List.mem_of_getElem? hs)
  cases action with
  | interrupt =>
    unfold sent? at hsent
    dsimp only at hsent
    split at hsent
    . next haccepted =>
      cases hsent
      obtain ⟨before, hbefore⟩ := h.of_mem hmem
      exact hbefore.interrupt_iff.1 haccepted
    . contradiction
  | report => cases hsent
  | call | proceed => contradiction

theorem receive?_of_received (ht : Received past k t) : ∃ p, t.prompt.receive? = some (none, p) := by
  obtain ⟨⟨y, action⟩, _, htaken⟩ := List.mem_filterMap.1 (List.mem_of_getElem? ht.1)
  obtain ⟨rfl, p, hevent⟩ := takeEvent?_of_taken? htaken
  refine ⟨p.stopWaiting, ?_⟩
  unfold receive?
  rw [hevent]

theorem call_of_received (h : Past values past x) (hs : Accepted values past k s) (ht : Received past k t)
    : t.call = s.call := by
  obtain ⟨_, hcall⟩ | ⟨hphase, _⟩ := h.orderly.fate k _ _ hs ht.1 rfl
  . exact hcall
  . have := ht.2.symm.trans hphase
    contradiction

theorem exists_received (h : Past values past x) {call : Nat} (hcall : x.answers[call]? = some .interrupted)
    : ∃ k s t, Accepted values past k s ∧ s.phase.isPending = true ∧ s.call = call ∧
        Received past k t ∧ t.call = call ∧ ∃ p, t.prompt.receive? = some (none, p) := by
  have hsettled : x.settled[call]? = some .interrupted := by
    unfold System.settled
    rw [List.getElem?_append_left (List.getElem?_eq_some_iff.1 hcall).1, hcall]
  obtain ⟨⟨event, t⟩, ht, hanswer, hevent, htcall⟩ := h.orderly.answers call _ hsettled
  obtain ⟨k, hk⟩ := List.getElem?_of_mem ht
  cases hevent
  have hphase : t.phase = .waiting := by
    simpa [Passage.IsAnswer] using hanswer
  obtain ⟨s, hs⟩ := h.orderly.exists_sent hk
  have hreceived : Received past k t := ⟨hk, hphase⟩
  have hscall := h.call_of_received hs hreceived
  exact ⟨k, s, t, hs, h.isPending_of_accepted hs, hscall.symm.trans htcall, hreceived, htcall,
    receive?_of_received hreceived⟩

theorem queued_or_dropped (h : Past values past x) (hs : Accepted values past k s)
    (hkept : ∀ t, ¬Received past k t) : Queued past x k ∨ ∃ t, Dropped past k t ∧ s.call < t.call := by
  by_cases hle : (taken past).length ≤ k
  . exact .inl ⟨hle, h.orderly.getElem?_queue hs hle⟩
  . have ht := List.getElem?_eq_getElem (Nat.lt_of_not_le hle)
    generalize (taken past)[k] = t at ht
    obtain ⟨event, t⟩ := t
    cases h.orderly.event_eq hs ht
    obtain ⟨hphase, _⟩ | ⟨hphase, hcall⟩ := h.orderly.fate k _ _ hs ht rfl
    . exact absurd ⟨ht, hphase⟩ (hkept t)
    . exact .inr ⟨t, ⟨ht, hphase⟩, hcall⟩

theorem phase_ne_waiting {before after : List (System × Action)}
    (h : Past values (before ++ (s, .interrupt) :: after) x) (haccepted : s.prompt.interrupt.1 = true)
    (hkept : ∀ t, ¬Received (before ++ (s, .interrupt) :: after) (sent values before).length t)
    (t : Passage) (ht : (taken (before ++ (s, .interrupt) :: after))[(sent values before).length]? = some t)
    : t.state.phase ≠ .waiting := by
  intro hphase
  have hevent : t.event = .interrupted := h.orderly.event_eq (getElem?_sent haccepted) ht
  apply hkept t.state
  refine ⟨?_, hphase⟩
  rw [ht, ← hevent]

theorem not_received_later {more : List (System × Action)} (h : Past values past x)
    (hs : Accepted values past k s) (hsettled : s.call < x.settled.length)
    (hkept : ∀ t, ¬Received past k t) (hmore : Past values (past ++ more) y)
    : ∀ t, ¬Received (past ++ more) k t := by
  intro t ht
  have hcall := hmore.call_of_received (hs.append more) ht
  -- The call has its answer already, which was taken before `k`.
  obtain ⟨u, hu, hanswer, _, hucall⟩ := h.orderly.answers s.call _ (List.getElem?_eq_getElem hsettled)
  obtain ⟨j, hj⟩ := List.getElem?_of_mem hu
  have hlt := (List.getElem?_eq_some_iff.1 hj).1
  have htaken : taken (past ++ more) = taken past ++ taken more := List.filterMap_append
  have hj' : (taken (past ++ more))[j]? = some u := by
    rw [htaken, List.getElem?_append_left hlt, hj]
  have hle := hmore.orderly.le_of_call_le ht.1 hj' hanswer (show t.call ≤ u.state.call by omega)
  apply hkept t
  refine ⟨?_, ht.2⟩
  rw [← ht.1, htaken, List.getElem?_append_left (by omega)]

end Past

/--
An interrupt ends no other call than the one it was accepted for, in whatever order a caller, readers and
interrupts act on the prompt. It is accepted exactly if a call is pending. A call that is answered by an
interrupt was pending when this interrupt was sent, and returns no character. An interrupt ends one call at
most. One that comes too late to end its own call stays in the queue until a later call drops it while it
drains the queue. It is never received by a call that waits, and without it all calls have the same answers.
-/
theorem interrupt_ends_own_call (values : Nat → Option Char) (actions : List Action) (x : System)
    : (Run values {} actions x ↔ ∃ past, past.map Prod.snd = actions ∧ Past values past x) ∧
      ∀ past, Past values past x →
        (taken past).map Passage.event ++ x.prompt.queue = (sent values past).map Passage.event ∧
        (∀ s, (s, .interrupt) ∈ past → (s.prompt.interrupt.1 = true ↔ s.phase.isPending = true)) ∧
        (∀ call : Nat, x.answers[call]? = some .interrupted →
          ∃ k s t, Accepted values past k s ∧ s.phase.isPending = true ∧ s.call = call ∧
            Received past k t ∧ t.call = call ∧ ∃ p, t.prompt.receive? = some (none, p)) ∧
        (∀ k s t, Accepted values past k s → Received past k t → t.call = s.call) ∧
        (∀ k t k' t', Received past k t → Received past k' t' → (k = k' ↔ t.call = t'.call)) ∧
        (∀ k s, Accepted values past k s → s.call < x.settled.length → (∀ t, ¬Received past k t) →
          ∀ more y, Past values (past ++ more) y →
            Queued (past ++ more) y k ∨ ∃ t, Dropped (past ++ more) k t ∧ s.call < t.call) ∧
        ∀ before s after, past = before ++ (s, .interrupt) :: after → s.prompt.interrupt.1 = true →
          (∀ t, ¬Received past (sent values before).length t) →
          ∃ after' z, Past values (before ++ after') z ∧ Spares after after' ∧
            z = { x with prompt := { x.prompt with queue := z.prompt.queue } } := by
  refine ⟨run_iff_exists_past, ?_⟩
  intro past h
  refine ⟨h.orderly.fifo, ?_, ?_, ?_, ?_, ?_, ?_⟩
  . intro s hs
    obtain ⟨before, hbefore⟩ := h.of_mem hs
    exact hbefore.interrupt_iff
  . intro call hcall
    exact h.exists_received hcall
  . intro k s t
    exact h.call_of_received
  . intro k t k' t' ht ht'
    constructor
    . intro hk
      subst hk
      cases ht.1.symm.trans ht'.1
      rfl
    . intro hcall
      apply Nat.le_antisymm
      . exact h.orderly.le_of_call_le ht.1 ht'.1 (.inr ht'.2) (Nat.le_of_eq hcall)
      . exact h.orderly.le_of_call_le ht'.1 ht.1 (.inr ht.2) (Nat.le_of_eq hcall.symm)
  . intro k s hs hsettled hkept more y hmore
    have hsent := hs.append more
    exact hmore.queued_or_dropped hsent (h.not_received_later hs hsettled hkept hmore)
  . intro before s after hpast haccepted hkept
    subst hpast
    obtain ⟨after', z, hz, hspares, hstate⟩ := h.without haccepted (h.phase_ne_waiting haccepted hkept)
    refine ⟨after', z, hz, hspares, ?_⟩
    rw [hstate]
    split <;> rfl

theorem interrupt_ends_own_call_second_interrupt
    : let values := fun _ => some 'k'
      let waiting : System :=
        { prompt := { queue := [.interrupted], pending := true, inFlight := true }
          phase := .waiting
          readers := 1 }
      let x : System :=
        { prompt := { inFlight := true }, phase := .draining, readers := 1, answers := [.interrupted] }
      ∃ past, Past values past x ∧ Accepted values past 1 waiting ∧ (∀ t, ¬Received past 1 t) ∧
        (∃ k t, Received past k t ∧ t.call = 0) ∧ ∃ t, Dropped past 1 t ∧ 0 < t.call := by
  intro values waiting x
  let left : System :=
    { prompt := { queue := [.interrupted], inFlight := true }, readers := 1, answers := [.interrupted] }
  obtain ⟨past, hpast, haccepted, hdropped⟩
      : ∃ past, Past values past x ∧ Accepted values past 1 waiting ∧
          Dropped past 1 { left with phase := .draining } := by
    have hstart : Past values _ { phase := .drained } := (Past.start.step (.call rfl)).step (.drained rfl rfl)
    have hwaiting : Past values _ waiting :=
      ((hstart.step (.announce rfl)).step (.start rfl)).step .interrupt
    have hleft : Past values _ left := ((hwaiting.step .interrupt).step (.receive rfl rfl)).step (.giveUp rfl)
    exact ⟨_, (hleft.step (.call rfl)).step (.drop rfl rfl), rfl, rfl, rfl⟩
  have hkept (t : System) : ¬Received past 1 t := by
    intro ht
    cases hdropped.1.symm.trans ht.1
    cases ht.2
  obtain ⟨_, _, hanswered, _, _, hlate, _⟩ := (interrupt_ends_own_call values [] x).2 past hpast
  obtain ⟨k, _, t, _, _, _, ht, hcall, _⟩ := hanswered 0 rfl
  refine ⟨past, hpast, haccepted, hkept, ⟨k, t, ht, hcall⟩, ?_⟩
  obtain hqueued | hdropped' := hlate 1 waiting haccepted Nat.zero_lt_one hkept [] x (by simpa using hpast)
  . have hlt := (List.getElem?_eq_some_iff.1 hdropped.1).1
    rw [List.append_nil] at hqueued
    exact absurd hqueued.1 (Nat.not_le_of_lt hlt)
  . rw [List.append_nil] at hdropped'
    exact hdropped'

end Brainfuck.Prompt
