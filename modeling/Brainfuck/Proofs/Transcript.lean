import Brainfuck.World
import Brainfuck.Proofs.Correspondence
import Brainfuck.Proofs.DebugMode

/-!
This module contains the proof about the standard output of a session in both modes. A `Transcript` keeps
the pieces of the standard output apart, so that the texts of the trace can be left out. A session shows the
output of its programs in either mode, except for a program that fails: in debug mode its output is held
back, and the session ends before it is shown.
-/

namespace Brainfuck

open RunState
open CommandLine (Mode ReplArguments)

variable {n : Nat} {τ : Type}

inductive Piece where
  | text (text : String)
  | trace (record : TraceRecord)

namespace Piece

def shown : Piece → String
  | .text s => s
  | .trace record => record.text ++ "\n"

def untraced : Piece → String
  | .text s => s
  | .trace _ => ""

def record? : Piece → Option TraceRecord
  | .text _ => none
  | .trace record => some record

end Piece

structure Transcript (τ : Type) where
  source : τ
  pieces : List Piece := []

namespace Transcript

def stdout (t : Transcript τ) : String :=
  String.join (t.pieces.map Piece.shown)

def untraced (t : Transcript τ) : String :=
  String.join (t.pieces.map Piece.untraced)

def records (t : Transcript τ) : List TraceRecord :=
  t.pieces.filterMap Piece.record?

def push (t : Transcript τ) (piece : Piece) : Transcript τ :=
  { t with pieces := t.pieces ++ [piece] }

def session (ask : StateM τ (Option Char)) (nextLine : StateM τ (Option String))
    : Session (StateM (Transcript τ)) where
  console := {
    print := fun c => modify fun t => t.push (.text (.singleton c))
    trace := fun record => modify fun t => t.push (.trace record)
    ask := fun t => ((ask.run t.source).1, { t with source := (ask.run t.source).2 }) }
  nextLine := fun t => ((nextLine.run t.source).1, { t with source := (nextLine.run t.source).2 })
  write text := modify fun t => t.push (.text text)

section

variable (t : Transcript τ) (piece : Piece)

@[simp]
theorem stdout_push : (t.push piece).stdout = t.stdout ++ piece.shown := by
  simp [stdout, push, String.join_append, String.join_cons, String.join_nil]

@[simp]
theorem untraced_push : (t.push piece).untraced = t.untraced ++ piece.untraced := by
  simp [untraced, push, String.join_append, String.join_cons, String.join_nil]

@[simp]
theorem records_push : (t.push piece).records = t.records ++ piece.record?.toList := by
  cases piece <;> simp [records, push, Piece.record?]

end

theorem stdout_eq_untraced {t : Transcript τ} (h : t.records = []) : t.stdout = t.untraced := by
  unfold stdout untraced
  rw [List.map_congr_left]
  intro piece hmem
  cases piece with
  | text text => rfl
  | trace record =>
    have hrecord : record ∈ t.records := List.mem_filterMap.2 ⟨_, hmem, rfl⟩
    rw [h] at hrecord
    contradiction

end Transcript

namespace World

def lineOf : Mode → StateM World (Option String)
  | .bare => nextLine
  | .editor => editLine

def withStdout (w : World) (stdout : String) : World :=
  { w with stdout }

theorem ask_withStdout (w : World) (stdout : String)
    : ask.run (w.withStdout stdout) = ((ask.run w).1, (ask.run w).2.withStdout stdout) := by
  unfold ask withStdout
  simp only [StateT.run_bind, StateT.run_get, pure_bind]
  cases w.prompt.drain with
  | mk answer prompt =>
    cases answer with
    | some c => rfl
    | none =>
      cases w.reactions with
      | nil => rfl
      | cons reaction reactions => cases reaction <;> rfl

theorem lineOf_withStdout (mode : Mode) (w : World) (stdout : String)
    : (lineOf mode).run (w.withStdout stdout)
        =
      (((lineOf mode).run w).1, ((lineOf mode).run w).2.withStdout stdout) := by
  cases mode with
  | editor => rfl
  | bare =>
    unfold lineOf nextLine settleReader withStdout
    simp only [StateT.run_bind, StateT.run_modify, pure_bind]
    cases w.prompt.hasReader <;> rfl

end World

namespace Transcript

def toWorld (base : String) (t : Transcript World) : World :=
  t.source.withStdout (base ++ t.stdout)

theorem toWorld_push (base : String) (t : Transcript World) (piece : Piece)
    : ((World.writeOutput piece.shown).run (t.toWorld base)).2 = (t.push piece).toWorld base := by
  unfold toWorld
  rw [stdout_push, ← String.append_assoc]
  rfl

theorem matches_world (inputIsTerminal errorIsTerminal : Bool) (mode : Mode) (base : String)
    : (session World.ask (World.lineOf mode)).Matches (fun t w => w = t.toWorld base)
        (ReplArguments.session (World.host inputIsTerminal errorIsTerminal) mode) where
  console := {
    print := by
      intro t w h c
      rw [h]
      exact toWorld_push base t (.text (.singleton c))
    trace := by
      intro t w h record
      rw [h]
      exact toWorld_push base t (.trace record)
    answer := by
      intro t w h
      rw [h]
      exact congrArg (·.1) (World.ask_withStdout t.source (base ++ t.stdout))
    ask := by
      intro t w h
      rw [h]
      exact congrArg (·.2) (World.ask_withStdout t.source (base ++ t.stdout)) }
  line := by
    intro t w h
    rw [h]
    have hline := congrArg (·.1) (World.lineOf_withStdout mode t.source (base ++ t.stdout))
    cases mode <;> exact hline
  nextLine := by
    intro t w h
    rw [h]
    have hline := congrArg (·.2) (World.lineOf_withStdout mode t.source (base ++ t.stdout))
    cases mode <;> exact hline
  write := by
    intro t w h text
    rw [h]
    exact toWorld_push base t (.text text)

theorem matches_recording (ask : StateM τ (Option Char)) (nextLine : StateM τ (Option String))
    (untraced : String) (records : List TraceRecord)
    : (Recording.console ask).Matches
        (fun r t => t.source = r.source ∧ t.untraced = untraced ++ r.printed ∧
          t.records = records ++ r.records.toList)
        (session ask nextLine).console where
  print := by
    intro r t ⟨hsource, huntraced, hrecords⟩ c
    refine ⟨hsource, ?_, ?_⟩
    . change (t.push _).untraced = untraced ++ r.printed.push c
      rw [untraced_push, huntraced, String.push_eq_append, String.append_assoc, Piece.untraced]
    . change (t.push _).records = records ++ r.records.toList
      rw [records_push, hrecords]
      exact List.append_nil _
  trace := by
    intro r t ⟨hsource, huntraced, hrecords⟩ record
    refine ⟨hsource, ?_, ?_⟩
    . change (t.push _).untraced = untraced ++ r.printed
      rw [untraced_push, huntraced]
      exact String.append_empty
    . change (t.push _).records = records ++ (r.records.push record).toList
      rw [records_push, hrecords, Array.toList_push, List.append_assoc]
      rfl
  answer := by
    intro r t ⟨hsource, _, _⟩
    exact congrArg (fun source => (ask.run source).1) hsource
  ask := by
    intro r t ⟨hsource, huntraced, hrecords⟩
    exact ⟨congrArg (fun source => (ask.run source).2) hsource, huntraced, hrecords⟩

variable (ask : StateM τ (Option Char)) (nextLine : StateM τ (Option String))

theorem outcome_execution (line : String) (m : Machine n) (w : Transcript τ) (k : Nat)
    : let e := (session ask nextLine).execution line ⟨m, w⟩
      let r := Execution.recorded ask line "" ⟨m, { source := w.source }⟩
      (e.outcome k).1 = (r.outcome k).1 ∧
      (e.outcome k).2.source = (r.outcome k).2.source ∧
      (e.outcome k).2.untraced = w.untraced ++ (r.outcome k).2.printed ∧
      (e.outcome k).2.records = w.records ++ (r.outcome k).2.records.toList := by
  intro e r
  have hmatches : Execution.Matches _ r e :=
    ⟨matches_recording ask nextLine w.untraced w.records, rfl, rfl, rfl,
      String.append_empty.symm, (List.append_nil _).symm⟩
  exact hmatches.outcome k

/--
What the two modes make of a line, if both have shown `untraced` before it: outside of debug mode the output
is shown as it comes, and in debug mode nothing of it is shown.
-/
structure SameLine (untraced : String) (records : List TraceRecord)
    (plain debugged : (Ending × Machine n) × Transcript τ) : Prop where
  result : debugged.1 = (plain.1.1, plain.1.2.setDebug true)
  source : debugged.2.source = plain.2.source
  debug : plain.1.2.debug = false
  records : plain.2.records = records
  shown : plain.2.untraced = untraced ++ plain.1.2.output
  held : debugged.2.untraced = untraced

theorem sameLine (line : String) (m : Machine n) {w w' : Transcript τ} (hsource : w'.source = w.source)
    (huntraced : w'.untraced = w.untraced) (k : Nat)
    : SameLine w.untraced w.records
        (((session ask nextLine).execution line ⟨m.setDebug false, w⟩).outcome k)
        (((session ask nextLine).execution line ⟨m.setDebug true, w'⟩).outcome k) := by
  let plain := Execution.recorded ask line "" ⟨m.setDebug false, { source := w.source }⟩
  let debugged := Execution.recorded ask line "" ⟨m.setDebug true, { source := w.source }⟩
  obtain ⟨hplain, captures, hcaptures, _⟩ :=
    Machine.execute_debugged ask line "" m { source := w.source } k
  have hprinted : (plain.outcome k).2.printed = "" ++ (plain.outcome k).1.2.output := hplain.printed
  have hrecords : (plain.outcome k).2.records = #[] := hplain.records
  have hdebugged : debugged.outcome k
      = result (plain.outcome k).1.1 (RunState.debugged "" (#[] ++ captures) (plain.reached k)) :=
    hcaptures
  obtain ⟨hresult, hsources, hshown, htraced⟩ :=
    outcome_execution ask nextLine line (m.setDebug false) w k
  obtain ⟨hresult', hsources', hheld, _⟩ :=
    outcome_execution ask nextLine line (m.setDebug true) w' k
  rw [hsource, hdebugged] at hresult' hsources' hheld
  refine ⟨?_, ?_, ?_, ?_, ?_, ?_⟩
  . rw [hresult', hresult]
    rfl
  . rw [hsources', hsources]
    rfl
  . rw [hresult]
    exact hplain.debug
  . rw [htraced, hrecords]
    exact List.append_nil _
  . rw [hshown, hresult, hprinted, String.empty_append]
  . rw [hheld, huntraced]
    exact String.append_empty

end Transcript

theorem append_closing (output : String) : output ++ closing output false = closing output true := by
  unfold closing
  dsimp only
  split
  . exact String.append_empty
  . exact String.append_empty
  . rfl

namespace Transcript

section

variable {untraced : String} {records : List TraceRecord}
  {plain debugged : (Ending × Machine n) × Transcript τ}

theorem SameLine.failed (h : SameLine untraced records plain debugged)
    : plain.2.untraced = debugged.2.untraced ++ plain.1.2.output := by
  rw [h.shown, h.held]

theorem SameLine.closed (h : SameLine untraced records plain debugged)
    : (debugged.2.push (.text (closing plain.1.2.output true))).untraced
        =
      (plain.2.push (.text (closing plain.1.2.output plain.1.2.debug))).untraced := by
  rw [untraced_push, untraced_push, h.shown, h.held, h.debug, String.append_assoc, ← append_closing]
  rfl

theorem SameLine.records_closed (h : SameLine untraced records plain debugged) (text : String)
    : (plain.2.push (.text text)).records = records := by
  rw [records_push, h.records]
  exact List.append_nil _

theorem SameLine.setDebug_machine (h : SameLine untraced records plain debugged)
    : plain.1.2.setDebug false = plain.1.2 := by
  rw [← h.debug]
  rfl

end

variable (ask : StateM τ (Option Char)) (nextLine : StateM τ (Option String))

structure SameSession (records : List TraceRecord) (plain debugged : (Ending × Machine n) × Transcript τ)
    : Prop where
  result : debugged.1 = (plain.1.1, plain.1.2.setDebug true)
  source : debugged.2.source = plain.2.source
  records : plain.2.records = records
  finished (h : plain.1.1 = .finished) : plain.2.untraced = debugged.2.untraced
  failed {fault : Fault} (h : plain.1.1 = .failed fault)
    : plain.2.untraced = debugged.2.untraced ++ plain.1.2.output

theorem sameSession (budget : Nat) (m : Machine n) {w w' : Transcript τ} (hsource : w'.source = w.source)
    (huntraced : w'.untraced = w.untraced)
    : SameSession w.records (((session ask nextLine).run budget (m.setDebug false)).run w)
        (((session ask nextLine).run budget (m.setDebug true)).run w') := by
  induction budget generalizing m w w' with
  | zero => exact ⟨rfl, hsource, rfl, nofun, nofun⟩
  | succ budget ih =>
    have hrun := (session ask nextLine).run_succ budget ⟨m.setDebug false, w⟩
    have hrun' := (session ask nextLine).run_succ budget ⟨m.setDebug true, w'⟩
    dsimp only at hrun hrun'
    rw [hrun, hrun']
    -- Both modes take the same line, since they have the same source.
    let taken : Transcript τ := { w with source := (nextLine.run w.source).2 }
    let taken' : Transcript τ := { w' with source := (nextLine.run w'.source).2 }
    have hline : (session ask nextLine).nextLine.run w = ((nextLine.run w.source).1, taken) := rfl
    have hline' : (session ask nextLine).nextLine.run w' = ((nextLine.run w'.source).1, taken') := rfl
    have htaken : taken'.source = taken.source := congrArg (fun source => (nextLine.run source).2) hsource
    rw [hline, hline', hsource]
    dsimp only
    cases (nextLine.run w.source).1 with
    | none => exact ⟨rfl, htaken, rfl, fun _ => huntraced.symm, nofun⟩
    | some line =>
      dsimp only
      split
      . exact ih m htaken huntraced
      . have hsame := sameLine ask nextLine line m htaken huntraced budget
        unfold Execution.reached
        rw [hsame.result]
        generalize ((session ask nextLine).execution line ⟨m.setDebug false, taken⟩).outcome budget = plain
          at hsame ⊢
        dsimp only
        cases hending : plain.1.1 with
        | finished =>
          have hrest := ih plain.1.2 (by exact hsame.source) hsame.closed
          rw [hsame.records_closed, hsame.setDebug_machine] at hrest
          exact hrest
        | failed fault => exact ⟨rfl, hsame.source, hsame.records, nofun, fun _ => hsame.failed⟩
        | interrupted => exact ⟨rfl, hsame.source, hsame.records, nofun, nofun⟩

end Transcript

/--
A session shows the same output in both modes as long as no program fails. Debug mode changes neither where
the session ends nor what it takes from the source of its lines and answers. But it holds the output of a
program back until the program has finished, and a program that fails ends the session before that: what
this program has written is shown outside of debug mode only. On a system, a transcript is what the session
of a command writes to the standard output.
-/
theorem debug_session_withholds_failed_output (ask : StateM τ (Option Char))
    (nextLine : StateM τ (Option String)) (source : τ) (m : Machine n)
    (inputIsTerminal errorIsTerminal : Bool) (mode : Mode) (budget : Nat) (world : World)
    : let session := Transcript.session ask nextLine
      let start := fun debug => RunState.mk (m.setDebug debug) { source }
      let shown := ((Transcript.session World.ask (World.lineOf mode)).run budget m).run { source := world }
      (∀ ending, (∃ t, session.Halts (start false) ending t) ↔ ∃ t, session.Halts (start true) ending t) ∧
      (∀ ending ending' plain debugged, session.Halts (start false) ending plain →
        session.Halts (start true) ending' debugged →
        ending' = ending ∧
        debugged.machine = plain.machine.setDebug true ∧
        debugged.world.source = plain.world.source ∧
        plain.world.stdout
          =
            debugged.world.untraced ++ (if ending = .finished then "" else plain.machine.output) ∧
        (plain.world.stdout = debugged.world.untraced ↔ ending = .finished ∨ plain.machine.output = "")) ∧
      ((ReplArguments.session (World.host inputIsTerminal errorIsTerminal) mode).run budget m).run world
          =
        (shown.1, shown.2.toWorld world.stdout) := by
  intro session start shown
  have hsame (budget : Nat) := Transcript.sameSession ask nextLine budget m (w := { source }) rfl rfl
  refine ⟨?_, ?_, ?_⟩
  . intro ending
    rw [Session.exists_halts_iff, Session.exists_halts_iff]
    have hending (budget : Nat) := congrArg (·.1) (hsame budget).result
    dsimp only at hending
    simp only [start, session, hending]
  . intro ending ending' plain debugged hplain hdebugged
    obtain ⟨least, hleast⟩ := hplain.exists_run
    obtain ⟨least', hleast'⟩ := hdebugged.exists_run
    -- Both modes have ended once the budget is large enough for each of them.
    have hboth := hsame (max least least' + 1)
    rw [hleast _ (by omega), hleast' _ (by omega)] at hboth
    obtain ⟨hresult, hsource, hrecords, hfinished, hfailed⟩ := hboth
    have hstdout : plain.world.stdout = plain.world.untraced := Transcript.stdout_eq_untraced hrecords
    have hshown : plain.world.stdout
        = debugged.world.untraced ++ (if ending = .finished then "" else plain.machine.output) := by
      rw [hstdout]
      cases ending with
      | finished => exact (hfinished rfl).trans String.append_empty.symm
      | failed fault => exact hfailed rfl
      | interrupted => exact absurd rfl hplain.1
    refine ⟨congrArg (·.1) hresult, congrArg (·.2) hresult, hsource, hshown, ?_⟩
    rw [hshown, String.append_eq_left_iff]
    by_cases hending : ending = .finished <;> simp [hending]
  . have hmatches := Transcript.matches_world inputIsTerminal errorIsTerminal mode world.stdout
    have hstart : world = Transcript.toWorld world.stdout { source := world } :=
      congrArg world.withStdout String.append_empty.symm
    obtain ⟨hresult, hworld⟩ := hmatches.run budget m hstart
    exact Prod.ext hresult hworld

theorem debug_session_withholds_failed_output_second_line
    : let session := Transcript.session World.ask World.nextLine
      let start := fun debug =>
        RunState.mk ((Machine.create 2).setDebug debug) { source := { stdin := Text.encode "+.\n,.<\nA\n" } }
      ∃ plain debugged, session.Halts (start false) (.failed (.underflow 2)) plain ∧
        session.Halts (start true) (.failed (.underflow 2)) debugged ∧
        debugged.machine = plain.machine.setDebug true ∧
        plain.world.stdout = debugged.world.untraced ++ plain.machine.output := by
  intro session start
  obtain ⟨plain, hplain⟩ : ∃ t, session.Halts (start false) (.failed (.underflow 2)) t :=
    Session.exists_halts_iff.2 ⟨by simp, 9, by decide +kernel⟩
  obtain ⟨debugged, hdebugged⟩ : ∃ t, session.Halts (start true) (.failed (.underflow 2)) t :=
    Session.exists_halts_iff.2 ⟨by simp, 9, by decide +kernel⟩
  have hmodes := debug_session_withholds_failed_output World.ask World.nextLine
    { stdin := Text.encode "+.\n,.<\nA\n" } (Machine.create 2) false false .bare 9 {}
  have hboth := hmodes.2.1 _ _ _ _ hplain hdebugged
  exact ⟨plain, debugged, hplain, hdebugged, hboth.2.1, hboth.2.2.2.1⟩

theorem failed_output_missing_in_debug_mode
    : let session := ReplArguments.session (World.host false false) .bare
      let ended := fun debug =>
        (session.run 5 ((Machine.create 1).setDebug debug)).run { stdin := Text.encode "+.<\n" }
      let shown := ((Transcript.session World.ask World.nextLine).run 5 ((Machine.create 1).setDebug true)).run
        { source := { stdin := Text.encode "+.<\n" } }
      (ended false).1.1 = .failed (.underflow 2) ∧ (ended false).2.stdout = "\x01" ∧
      (ended true).1.1 = .failed (.underflow 2) ∧ (ended true).2.stdout = shown.2.stdout ∧
      shown.2.untraced = "" ∧ shown.2.records.length = 3 := by
  decide +kernel

end Brainfuck
