import Brainfuck.Proofs.Execution

/-!
This module contains simulations between the runs of two programs. A round of the one run is matched by one or
more rounds of the other, and a round that ends it by a round that ends the other. Then both go on for ever, or
both come to an end, and their ends are related.
-/

namespace Brainfuck

open RunState

variable {n n' : Nat} {σ σ' : Type}

structure Execution.EndAlike (Q : Ending → RunState n σ → Ending → RunState n' σ' → Prop)
    (e : Execution n σ) (e' : Execution n' σ') : Prop where
  halts_iff : (∃ ending t, e.Halts ending t) ↔ ∃ ending' t', e'.Halts ending' t'
  related : ∀ ending t ending' t', e.Halts ending t → e'.Halts ending' t' → Q ending t ending' t'

structure Simulation (console : Console (StateM σ)) (p : Program) (console' : Console (StateM σ'))
    (p' : Program) (R : RunState n σ → RunState n' σ' → Prop)
    (Q : Ending → RunState n σ → Ending → RunState n' σ' → Prop) : Prop where
  next {s t : RunState n σ} {s' : RunState n' σ'} (h : R s s') (hturn : s.turn console p = .next t)
    : ∃ k t', Steps console' p' (k + 1) s' t' ∧ R t t'
  stop {s t : RunState n σ} {s' : RunState n' σ'} {ending : Ending} (h : R s s')
    (hturn : s.turn console p = .stop ending t)
    : ∃ ending' t', s'.turn console' p' = .stop ending' t' ∧ Q ending t ending' t'

inductive Turn.Related (R : RunState n σ → RunState n' σ' → Prop) : Turn n σ → Turn n' σ' → Prop where
  | stop (ending : Ending) {t : RunState n σ} {t' : RunState n' σ'} (h : R t t')
    : Related R (.stop ending t) (.stop ending t')
  | next {t : RunState n σ} {t' : RunState n' σ'} (h : R t t') : Related R (.next t) (.next t')

/--
If the one machine does what the other does, up to a change `g` of the machine, and the worlds stay related by
`W`, then the rounds are related.
-/
theorem Turn.related_of_step {console : Console (StateM σ)} {p : Program} {console' : Console (StateM σ')}
    {p' : Program} {s : RunState n σ} {s' : RunState n σ'} {g : Machine n → Machine n}
    {W : σ → σ' → Prop} (hdebug : ∀ m, (g m).debug = m.debug)
    (hstep : s'.machine.step p' = (s.machine.step p).map g)
    (htraced : W (s.traced console p) (s'.traced console' p'))
    (hprint : ∀ c w w', W w w' → W ((console.print c).run w).2 ((console'.print c).run w').2)
    (hask : ∀ resume, s.machine.step p = .ask resume →
      ∀ w w', W w w' →
        (console'.ask.run w').1 = (console.ask.run w).1 ∧ W (console.ask.run w).2 (console'.ask.run w').2)
    : Related (fun t t' => t'.machine = g t.machine ∧ W t.world t'.world) (s.turn console p)
        (s'.turn console' p') := by
  unfold turn
  rw [hstep]
  cases hs : s.machine.step p with
  | halt m | fail fault m => exact .stop _ ⟨rfl, htraced⟩
  | advance m => exact .next ⟨rfl, htraced⟩
  | write c m =>
    dsimp only [Transition.map]
    rw [hdebug]
    split
    . exact .next ⟨rfl, htraced⟩
    . exact .next ⟨rfl, hprint c _ _ htraced⟩
  | ask resume =>
    obtain ⟨hanswer, hworld⟩ := hask resume hs _ _ htraced
    dsimp only [Transition.map]
    rw [hanswer]
    exact .next ⟨rfl, hworld⟩

namespace Turn.Related

variable {R R' : RunState n σ → RunState n' σ' → Prop} {turn : Turn n σ} {turn' : Turn n' σ'}
  {t : RunState n σ}

theorem exists_next (h : Related R (.next t) turn') : ∃ t', turn' = .next t' ∧ R t t' := by
  cases h with
  | next ht => exact ⟨_, rfl, ht⟩

theorem exists_stop {ending : Ending} (h : Related R (.stop ending t) turn')
    : ∃ t', turn' = .stop ending t' ∧ R t t' := by
  cases h with
  | stop _ ht => exact ⟨_, rfl, ht⟩

theorem mono (h : Related R turn turn') (hR : ∀ t', R turn.state t' → R' turn.state t')
    : Related R' turn turn' := by
  cases h with
  | stop ending ht => exact .stop ending (hR _ ht)
  | next ht => exact .next (hR _ ht)

end Turn.Related

section

variable {console : Console (StateM σ)} {p : Program} {s t u : RunState n σ} {j k : Nat} {ending : Ending}

theorem Steps.le_of_stops (hsteps : Steps console p j s t) (hstops : Stops console p k s ending u)
    : j ≤ k := by
  apply Nat.le_of_not_lt
  intro hlt
  have hrun := Machine.run_of_steps hsteps 0
  rw [Nat.add_zero, Machine.run_of_stops hstops hlt, Machine.run_zero] at hrun
  exact hstops.ending_ne_interrupted (result_inj hrun).1

theorem Stops.of_steps (hstops : Stops console p k s ending u) (hsteps : Steps console p j s t)
    : ∃ i, Stops console p i t ending u := by
  induction hsteps generalizing k with
  | refl s => exact ⟨k, hstops⟩
  | head hturn _ ih =>
    obtain ⟨_, _, hrest⟩ := hstops.tail hturn
    exact ih hrest

end

namespace Simulation

variable {console : Console (StateM σ)} {p : Program} {console' : Console (StateM σ')} {p' : Program}
  {R : RunState n σ → RunState n' σ' → Prop}
  {Q : Ending → RunState n σ → Ending → RunState n' σ' → Prop} {s t : RunState n σ}
  {s' t' : RunState n' σ'} {ending ending' : Ending} {k : Nat}

theorem of_lockstep
    (h : ∀ s s', R s s' → Turn.Related R (s.turn console p) (s'.turn console' p'))
    : Simulation console p console' p' R fun ending t ending' t' => ending' = ending ∧ R t t' := by
  constructor
  . intro s t s' hs hturn
    have hrelated := h s s' hs
    rw [hturn] at hrelated
    obtain ⟨t', hturn', ht⟩ := hrelated.exists_next
    exact ⟨0, t', .single hturn', ht⟩
  . intro s t s' ending hs hturn
    have hrelated := h s s' hs
    rw [hturn] at hrelated
    obtain ⟨t', hturn', ht⟩ := hrelated.exists_stop
    exact ⟨ending, t', hturn', rfl, ht⟩

theorem steps (h : Simulation console p console' p' R Q) (hs : R s s') (hsteps : Steps console p k s t)
    : ∃ k' t', k ≤ k' ∧ Steps console' p' k' s' t' ∧ R t t' := by
  induction hsteps generalizing s' with
  | refl s => exact ⟨0, s', Nat.le_refl 0, .refl s', hs⟩
  | head hturn _ ih =>
    obtain ⟨j, u', hfirst, hu⟩ := h.next hs hturn
    obtain ⟨k', t', hle, hrest, ht⟩ := ih hu
    exact ⟨j + 1 + k', t', by omega, hfirst.trans hrest, ht⟩

theorem stops (h : Simulation console p console' p' R Q) (hs : R s s')
    (hstops : Stops console p k s ending t)
    : ∃ k' ending' t', Stops console' p' k' s' ending' t' ∧ Q ending t ending' t' := by
  obtain ⟨u, hsteps, hturn⟩ := hstops
  obtain ⟨k', u', _, hsteps', hu⟩ := h.steps hs hsteps
  obtain ⟨ending', t', hturn', ht⟩ := h.stop hu hturn
  exact ⟨k', ending', t', ⟨u', hsteps', hturn'⟩, ht⟩

theorem exists_stops (h : Simulation console p console' p' R Q) (hs : R s s')
    (hstops : Stops console' p' k s' ending' t') : ∃ j ending t, Stops console p j s ending t := by
  obtain ⟨t, hsteps, _⟩ | ⟨j, ending, t, _, hstops, _⟩ := Machine.run_cases console p (k + 1) s
  . obtain ⟨k', u', hle, hsteps', _⟩ := h.steps hs hsteps
    have := hsteps'.le_of_stops hstops
    omega
  . exact ⟨j, ending, t, hstops⟩

end Simulation

namespace Execution

variable {e : Execution n σ} {e' : Execution n' σ'} {p p' : Program}
  {R : RunState n σ → RunState n' σ' → Prop}
  {Q : Ending → RunState n σ → Ending → RunState n' σ' → Prop}

theorem EndAlike.mono {Q' : Ending → RunState n σ → Ending → RunState n' σ' → Prop}
    (hQ : ∀ ending t ending' t', Q ending t ending' t' → Q' ending t ending' t') (h : EndAlike Q e e')
    : EndAlike Q' e e' :=
  ⟨h.halts_iff, fun ending t ending' t' ht ht' => hQ _ _ _ _ (h.related ending t ending' t' ht ht')⟩

theorem endAlike_of_fault {fault fault' : Fault} (hparse : Program.parse e.source = .error fault)
    (hparse' : Program.parse e'.source = .error fault')
    (hstart : Q (.failed fault) e.start (.failed fault') e'.start) : EndAlike Q e e' := by
  constructor
  . simp only [halts_iff_of_fault hparse, halts_iff_of_fault hparse']
    simp
  . intro ending t ending' t' ht ht'
    rw [halts_iff_of_fault hparse] at ht
    rw [halts_iff_of_fault hparse'] at ht'
    rw [ht.1, ht.2, ht'.1, ht'.2]
    exact hstart

theorem endAlike_of_simulation (hparse : Program.parse e.source = .ok p)
    (hparse' : Program.parse e'.source = .ok p') (h : Simulation e.console p e'.console p' R Q) {k : Nat}
    {s' : RunState n' σ'} (hsteps : Steps e'.console p' k e'.start s') (hstart : R e.start s')
    : EndAlike Q e e' := by
  have hends {ending : Ending} {t : RunState n σ} (ht : e.Halts ending t)
      : ∃ ending' t', e'.Halts ending' t' ∧ Q ending t ending' t' := by
    obtain ⟨_, hstops⟩ := (halts_iff_stops hparse).1 ht
    obtain ⟨j, ending', t', hstops', hQ⟩ := h.stops hstart hstops
    exact ⟨ending', t', (halts_iff_stops hparse').2 ⟨k + j, hstops'.after hsteps⟩, hQ⟩
  constructor
  . constructor
    . intro ⟨ending, t, ht⟩
      obtain ⟨ending', t', ht', _⟩ := hends ht
      exact ⟨ending', t', ht'⟩
    . intro ⟨ending', t', ht'⟩
      obtain ⟨_, hstops'⟩ := (halts_iff_stops hparse').1 ht'
      obtain ⟨_, hrest⟩ := hstops'.of_steps hsteps
      obtain ⟨j, ending, t, hstops⟩ := h.exists_stops hstart hrest
      exact ⟨ending, t, (halts_iff_stops hparse).2 ⟨j, hstops⟩⟩
  . intro ending t ending' t' ht ht'
    obtain ⟨ending'', t'', ht'', hQ⟩ := hends ht
    obtain ⟨rfl, rfl⟩ := Machine.Halts.unique ht' ht''
    exact hQ

end Execution

end Brainfuck
