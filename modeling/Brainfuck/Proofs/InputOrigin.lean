import Brainfuck.Proofs.Cursor
import Brainfuck.Proofs.Simulation

/-!
This module contains the proof that it does not matter where an input character comes from. What a machine can
still read is a `Supply`: the unread characters of its buffer, and after them the answers of a provider. Two
supplies that bring the same bytes one after the other lead to the same run.
-/

namespace Brainfuck

open RunState

variable {n : Nat} {τ τ' : Type}

structure Supply (τ : Type) where
  unread : List Char
  provider : τ

namespace Supply

def next (provider : StateM τ (Option Char)) (s : Supply τ) : Option Char × Supply τ :=
  match s.unread with
  | c :: unread => (some c, { s with unread })
  | [] => ((provider.run s.provider).1, { s with provider := (provider.run s.provider).2 })

theorem next_of_cons {provider : StateM τ (Option Char)} {s : Supply τ} {c : Char} {cs : List Char}
    (h : s.unread = c :: cs) : s.next provider = (some c, { s with unread := cs }) := by
  unfold next
  rw [h]

theorem next_of_nil {provider : StateM τ (Option Char)} {s : Supply τ} (h : s.unread = [])
    : s.next provider
        =
      ((provider.run s.provider).1, { s with provider := (provider.run s.provider).2 }) := by
  unfold next
  rw [h]

/--
Supplies that are related by `R` bring the same byte, and are related again after that.
-/
def Matches (provider : StateM τ (Option Char)) (provider' : StateM τ' (Option Char))
    (R : Supply τ → Supply τ' → Prop) : Prop :=
  ∀ s s', R s s' →
    Machine.byteOf (s'.next provider').1 = Machine.byteOf (s.next provider).1 ∧
      R (s.next provider).2 (s'.next provider').2

end Supply

def Machine.withInput (m : Machine n) (input : Input) : Machine n :=
  { m with input }

theorem Machine.perform_withInput {i : Instruction} (hi : i ≠ .input) (p : Program) (m : Machine n)
    (input : Input) : (m.withInput input).perform p i = (m.perform p i).map (withInput · input) := by
  unfold perform withInput
  cases i with
  | input => contradiction
  | right | left =>
    dsimp only
    split <;> rfl
  | increment | decrement | output | loopOpen | loopClose => rfl

theorem Machine.step_of_ne_input {p : Program} {m : Machine n} (hi : p.instruction? m.ip ≠ some .input)
    : (∀ input, (m.withInput input).step p = (m.step p).map (withInput · input)) ∧
      (∀ answer, ((m.step p).machine answer).input = m.input) ∧ ∀ resume, m.step p ≠ .ask resume := by
  cases h : p.instruction? m.ip with
  | none =>
    have hend (input : Input) : (m.withInput input).step p = .halt (m.withInput input) := by
      unfold step
      rw [show (m.withInput input).ip = m.ip from rfl, h]
    have hstep : m.step p = .halt m := by
      unfold step
      rw [h]
    rw [hstep]
    refine ⟨hend, fun _ => rfl, ?_⟩
    simp
  | some i =>
    have hne : i ≠ .input := fun hinput => hi (hinput ▸ h)
    rw [step_of_instruction h]
    refine ⟨?_, input_perform hne, perform_ne_ask hne⟩
    intro input
    rw [← perform_withInput hne]
    exact step_of_instruction h

namespace RunState

def supply (s : RunState n (Recording τ)) : Supply τ where
  unread := s.machine.input.unread
  provider := s.world.source

theorem unread_supply (s : RunState n (Recording τ)) : s.supply.unread = s.machine.input.unread := by
  dsimp only [supply]

end RunState

structure Recording.SuppliedBy (R : Supply τ → Supply τ' → Prop) (unread unread' : List Char)
    (r : Recording τ) (r' : Recording τ') : Prop where
  printed : r'.printed = r.printed
  records : r'.records = r.records
  supply : R ⟨unread, r.source⟩ ⟨unread', r'.source⟩

structure RunState.SuppliedBy (R : Supply τ → Supply τ' → Prop) (s : RunState n (Recording τ))
    (s' : RunState n (Recording τ')) : Prop where
  machine : s'.machine = s.machine.withInput s'.machine.input
  world : Recording.SuppliedBy R s.machine.input.unread s'.machine.input.unread s.world s'.world

theorem RunState.turn_of_input (provider : StateM τ (Option Char)) {p : Program}
    {s : RunState n (Recording τ)} (hi : p.instruction? s.machine.ip = some .input)
    : ∃ t, s.turn (Recording.console provider) p = .next t ∧
        t.machine = (s.machine.store (s.supply.next provider).1).withInput t.machine.input ∧
        t.world.printed = s.world.printed ∧
        t.world.records = (s.traced (Recording.console provider) p).records ∧
        t.supply = (s.supply.next provider).2 := by
  have hstep := Machine.step_of_instruction hi
  unfold Machine.perform at hstep
  cases hnext : s.machine.input.next? with
  | some next =>
    obtain ⟨c, rest⟩ := next
    have hunread := s.unread_supply.trans (Input.unread_eq_cons hnext)
    simp only [hnext] at hstep
    refine ⟨_, turn_of_advance hstep, ?_⟩
    rw [Supply.next_of_cons hunread, Recording.traced_console]
    exact ⟨rfl, rfl, rfl, rfl⟩
  | none =>
    have hunread := s.unread_supply.trans (Input.unread_eq_nil hnext)
    simp only [hnext] at hstep
    refine ⟨_, turn_of_ask hstep, ?_⟩
    rw [Supply.next_of_nil hunread, Recording.traced_console, Recording.ask_console]
    dsimp only [supply]
    exact ⟨rfl, rfl, rfl, rfl⟩

namespace RunState.SuppliedBy

variable {provider : StateM τ (Option Char)} {provider' : StateM τ' (Option Char)} {p : Program}
  {R : Supply τ → Supply τ' → Prop} {s : RunState n (Recording τ)} {s' : RunState n (Recording τ')}

theorem ip (h : s.SuppliedBy R s') : s'.machine.ip = s.machine.ip := by
  rw [h.machine]
  rfl

theorem world_traced (h : s.SuppliedBy R s') (provider : StateM τ (Option Char))
    (provider' : StateM τ' (Option Char)) (p : Program)
    : Recording.SuppliedBy R s.machine.input.unread s'.machine.input.unread
        (s.traced (Recording.console provider) p) (s'.traced (Recording.console provider') p) := by
  rw [Recording.traced_console, Recording.traced_console]
  refine ⟨h.world.printed, ?_, h.world.supply⟩
  rw [h.machine, h.world.records]
  rfl

theorem turn_of_ne_input (h : s.SuppliedBy R s') (provider : StateM τ (Option Char))
    (provider' : StateM τ' (Option Char)) (hi : p.instruction? s.machine.ip ≠ some .input)
    : Turn.Related (SuppliedBy R) (s.turn (Recording.console provider) p)
        (s'.turn (Recording.console provider') p) := by
  obtain ⟨hstep, hkept, hask⟩ := Machine.step_of_ne_input hi
  have hstep' := hstep s'.machine.input
  rw [← h.machine] at hstep'
  have hinput : (s.turn (Recording.console provider) p).state.machine.input = s.machine.input := by
    rw [machine_turn]
    apply hkept
  have hturn := Turn.related_of_step (g := fun m => m.withInput s'.machine.input) (fun _ => rfl) hstep'
    (h.world_traced provider provider' p)
    (fun c _ _ hw => ⟨congrArg (·.push c) hw.printed, hw.records, hw.supply⟩)
    (fun resume hs => absurd hs (hask resume))
  apply hturn.mono
  intro t' ⟨hmachine, hworld⟩
  constructor
  . rw [hmachine]
    rfl
  . rw [hinput, hmachine]
    exact hworld

theorem turn_of_input (h : s.SuppliedBy R s') (hR : Supply.Matches provider provider' R)
    (hi : p.instruction? s.machine.ip = some .input)
    : Turn.Related (SuppliedBy R) (s.turn (Recording.console provider) p)
        (s'.turn (Recording.console provider') p) := by
  obtain ⟨t, hturn, hmachine, hprinted, hrecords, hsupply⟩ := RunState.turn_of_input provider hi
  obtain ⟨t', hturn', hmachine', hprinted', hrecords', hsupply'⟩ :=
    RunState.turn_of_input provider' (s := s') (h.ip ▸ hi)
  obtain ⟨hbyte, hrest⟩ := hR s.supply s'.supply h.world.supply
  rw [← hsupply, ← hsupply'] at hrest
  rw [hturn, hturn']
  refine .next ⟨?_, ?_, ?_, hrest⟩
  . rw [hmachine', hmachine, h.machine]
    unfold Machine.store
    rw [hbyte]
    rfl
  . rw [hprinted', hprinted, h.world.printed]
  . rw [hrecords', hrecords, (h.world_traced provider provider' p).records]

theorem simulation (hR : Supply.Matches provider provider' R) (p : Program)
    : Simulation (Recording.console provider) p (Recording.console provider') p (SuppliedBy (n := n) R)
        fun ending t ending' t' => ending' = ending ∧ t.SuppliedBy R t' := by
  apply Simulation.of_lockstep
  intro s s' h
  by_cases hi : p.instruction? s.machine.ip = some .input
  . exact h.turn_of_input hR hi
  . exact h.turn_of_ne_input provider provider' hi

end RunState.SuppliedBy

def answeringFirst (provider : StateM τ (Option Char)) : StateM (List Char × τ) (Option Char) := do
  match ← get with
  | (c :: rest, source) =>
    set (rest, source)
    return some c
  | ([], source) =>
    let (answer, source) := provider.run source
    set (([] : List Char), source)
    return answer

def lowByte (c : Char) : Char :=
  .ofNat (c.toNat % 256)

theorem toNat_lowByte (c : Char) : (lowByte c).toNat = c.toNat % 256 := by
  have hvalid : (c.toNat % 256).isValidChar := .inl (by omega)
  unfold lowByte Char.ofNat
  rw [dif_pos hvalid]
  rfl

theorem byteOf_lowByte (c : Char) : Machine.byteOf (some (lowByte c)) = Machine.byteOf (some c) := by
  apply UInt8.toNat.inj
  simp [Machine.byteOf, toNat_lowByte]

namespace Supply

def Postpones (s : Supply τ) (s' : Supply (List Char × τ)) : Prop :=
  s.unread = s'.unread ++ s'.provider.1 ∧ s.provider = s'.provider.2

theorem postpones_matches (provider : StateM τ (Option Char))
    : Matches provider (answeringFirst provider) Postpones := by
  intro s ⟨unread', first, source⟩ ⟨hunread, hprovider⟩
  dsimp only at hunread hprovider
  subst hprovider
  cases unread' with
  | cons c rest =>
    rw [List.cons_append] at hunread
    rw [next_of_cons hunread, next_of_cons rfl]
    exact ⟨rfl, rfl, rfl⟩
  | nil =>
    rw [List.nil_append] at hunread
    rw [next_of_nil rfl]
    cases first with
    | cons c rest =>
      rw [next_of_cons hunread]
      exact ⟨rfl, rfl, rfl⟩
    | nil =>
      rw [next_of_nil hunread]
      exact ⟨rfl, hunread, rfl⟩

def Narrows (s s' : Supply τ) : Prop :=
  s'.unread = s.unread.map lowByte ∧ s'.provider = s.provider

theorem narrows_matches (provider : StateM τ (Option Char)) : Matches provider provider Narrows := by
  intro s s' ⟨hunread', hprovider⟩
  cases hunread : s.unread with
  | cons c rest =>
    rw [hunread, List.map_cons] at hunread'
    rw [next_of_cons hunread, next_of_cons hunread']
    exact ⟨byteOf_lowByte c, rfl, hprovider⟩
  | nil =>
    rw [hunread, List.map_nil] at hunread'
    rw [next_of_nil hunread, next_of_nil hunread', hprovider]
    exact ⟨rfl, by rw [hunread, hunread']; rfl, rfl⟩

end Supply

def SameResult (ending : Ending) (t : RunState n (Recording τ)) (ending' : Ending)
    (t' : RunState n (Recording τ')) : Prop :=
  ending' = ending ∧ t'.machine.tape = t.machine.tape ∧ t'.machine.ip = t.machine.ip ∧
    t'.machine.output = t.machine.output ∧ t'.world.printed = t.world.printed ∧
    t'.world.records = t.world.records

def Recording.withSource (r : Recording τ) (source : τ') : Recording τ' :=
  { r with source }

theorem RunState.SuppliedBy.sameResult {R : Supply τ → Supply τ' → Prop} {t : RunState n (Recording τ)}
    {t' : RunState n (Recording τ')} (h : t.SuppliedBy R t') (ending : Ending)
    : SameResult ending t ending t' := by
  refine ⟨rfl, ?_, h.ip, ?_, h.world.printed, h.world.records⟩
  . rw [h.machine]
    rfl
  . rw [h.machine]
    rfl

namespace Execution

theorem endAlike_of_supply {provider : StateM τ (Option Char)} {provider' : StateM τ' (Option Char)}
    {R : Supply τ → Supply τ' → Prop} (hR : Supply.Matches provider provider' R) (source : String)
    {input input' : String} (m : Machine n) {r : Recording τ} {answers : τ'}
    (hstart : R ⟨input.toList, r.source⟩ ⟨input'.toList, answers⟩)
    : EndAlike SameResult (recorded provider source input ⟨m, r⟩)
        (recorded provider' source input' ⟨m, r.withSource answers⟩) := by
  have hsupplied : SuppliedBy R (recorded provider source input ⟨m, r⟩).start
      (recorded provider' source input' ⟨m, r.withSource answers⟩).start := by
    refine ⟨rfl, rfl, rfl, ?_⟩
    rw [← Input.unread_ofString, ← Input.unread_ofString input'] at hstart
    exact hstart
  cases hparse : Program.parse source with
  | error fault => exact endAlike_of_fault hparse hparse (hsupplied.sameResult _)
  | ok p =>
    refine EndAlike.mono ?_
      (endAlike_of_simulation hparse hparse (SuppliedBy.simulation hR p) (.refl _) hsupplied)
    intro ending t ending' t' ⟨hending, hend⟩
    subst hending
    exact hend.sameResult _

end Execution

/--
The end of an input text can as well come from the provider, and only the low byte of a character counts.
-/
theorem input_origin_irrelevant (provider : StateM τ (Option Char)) (source : String) (m : Machine n)
    (r : Recording τ)
    : (∀ a b : String,
        Execution.EndAlike SameResult (.recorded provider source (a ++ b) ⟨m, r⟩)
          (.recorded (answeringFirst provider) source a ⟨m, r.withSource (b.toList, r.source)⟩)) ∧
      ∀ input : String,
        Execution.EndAlike SameResult (.recorded provider source input ⟨m, r⟩)
          (.recorded provider source (input.map lowByte) ⟨m, r⟩) := by
  constructor
  . intro a b
    apply Execution.endAlike_of_supply (Supply.postpones_matches provider)
    exact ⟨String.toList_append, rfl⟩
  . intro input
    apply Execution.endAlike_of_supply (Supply.narrows_matches provider)
    exact ⟨String.toList_map, rfl⟩

end Brainfuck
