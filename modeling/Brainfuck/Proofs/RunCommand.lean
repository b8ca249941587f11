import Brainfuck.Proofs.Delivery
import Brainfuck.Proofs.FileTree
import Brainfuck.Proofs.History
import Brainfuck.Proofs.Settings
import Brainfuck.Proofs.Transcript

/-!
This module contains the proof about the command that runs one program, from its arguments to the standard
output, the exit code and the files that it leaves. The execution is compared with one whose records are kept
and whose questions go to the same user.
-/

namespace Brainfuck

open Text (Bytes)
open CommandLine (RunArguments)

variable {n : Nat} {τ : Type}

def traceText (records : List TraceRecord) : String :=
  String.join (records.map fun record => record.text ++ "\n")

def finalNewline (output : String) : String :=
  if output = "" ∨ output.toList.getLast? = some '\n' then "" else "\n"

theorem closing_eq_append_finalNewline (output : String)
    : closing output true = output ++ finalNewline output := by
  have hempty : output = "" ↔ output.toList.getLast? = none := by simp
  simp only [closing, finalNewline, hempty]
  split
  . next h => simp [h]
  . next h => simp [h]
  . next last hnewline h =>
    have hne : last ≠ '\n' := hnewline
    simp [h, hne, String.push_eq_append]

theorem Execution.printed_recorded (provider : StateM τ (Option Char)) (source input : String)
    (m : Machine n) (r : Recording τ) (k : Nat)
    : let out := (recorded provider source input ⟨m, r⟩).outcome k
      out.2.printed = r.printed ++ (if m.debug then "" else out.1.2.output) ∧
      (m.debug = false → out.2.records = r.records) := by
  intro out
  obtain ⟨hplain, captures, hdebugged, _⟩ := Machine.execute_debugged provider source input m r k
  cases hdebug : m.debug with
  | false =>
    have hm : m.setDebug false = m := hdebug ▸ rfl
    rw [hm] at hplain
    exact ⟨hplain.printed, fun _ => hplain.records⟩
  | true =>
    have hm : m.setDebug true = m := hdebug ▸ rfl
    rw [hm] at hdebugged
    have hout : out = _ := hdebugged
    rw [hout]
    exact ⟨String.append_empty.symm, nofun⟩

namespace Transcript

theorem stdout_eq_traceText {t : Transcript τ} (h : t.untraced = "") : t.stdout = traceText t.records := by
  obtain ⟨source, pieces⟩ := t
  unfold stdout traceText records
  unfold untraced at h
  dsimp only at h ⊢
  induction pieces with
  | nil => rfl
  | cons piece pieces ih =>
    rw [List.map_cons, String.join_cons, String.append_eq_empty_iff] at h
    rw [List.map_cons, String.join_cons, ih h.2]
    cases piece with
    | text text =>
      have htext : text = "" := h.1
      rw [htext]
      exact String.empty_append
    | trace record =>
      have hrecord : (Piece.trace record).record? = some record := rfl
      rw [List.filterMap_cons_some hrecord, List.map_cons, String.join_cons]
      rfl

theorem stdout_eq_append {t : Transcript τ} (h : t.untraced = "" ∨ t.records = [])
    : t.stdout = traceText t.records ++ t.untraced := by
  obtain h | h := h
  . rw [stdout_eq_traceText h, h, String.append_empty]
  . rw [stdout_eq_untraced h, h]
    exact String.empty_append.symm

end Transcript

namespace World

theorem files_ask (w : World) : (ask.run w).2.files = w.files := by
  unfold ask
  simp only [StateT.run_bind, StateT.run_get, pure_bind]
  cases w.prompt.drain with
  | mk answer prompt =>
    cases answer with
    | some c => rfl
    | none =>
      cases w.reactions with
      | nil => rfl
      | cons reaction reactions => cases reaction <;> rfl

theorem files_providerAfter (w : World) (count : Nat) : (providerAfter ask w count).files = w.files := by
  induction count with
  | zero => rfl
  | succ count ih => rw [providerAfter, files_ask, ih]

theorem run_writeFile (path : String) (content : Bytes) (w : World)
    : (writeFile path content).run w
        =
      match w.files.write path content with
      | .error error => (.error error, w)
      | .ok files => (.ok (), { w with files }) := by
  unfold writeFile
  simp only [StateT.run_bind, StateT.run_get, pure_bind]
  cases w.files.write path content <;> rfl

variable (inputIsTerminal errorIsTerminal : Bool)

theorem run_execute (source input : String) (m : Machine n) (w : World) (k : Nat)
    : let kept := (Execution.recorded ask source input ⟨m, { source := w }⟩).outcome k
      (m.execute (host inputIsTerminal errorIsTerminal).console k source input).run w
        =
      (kept.1, kept.2.source.withStdout (w.stdout ++ (traceText kept.2.records.toList ++ kept.2.printed))) := by
  let recorded := Execution.recorded ask source input ⟨m, { source := w }⟩
  let shown : Execution n (Transcript World) :=
    ⟨(Transcript.session ask nextLine).console, source, input, ⟨m, { source := w }⟩⟩
  let real : Execution n World :=
    ⟨(host inputIsTerminal errorIsTerminal).console, source, input, ⟨m, w⟩⟩
  have hshown : Execution.Matches _ recorded shown :=
    ⟨Transcript.matches_recording ask nextLine "" [], rfl, rfl, rfl, rfl, rfl⟩
  have hreal : Execution.Matches _ shown real :=
    ⟨(Transcript.matches_world inputIsTerminal errorIsTerminal .bare w.stdout).console, rfl, rfl,
      congrArg w.withStdout String.append_empty.symm⟩
  obtain ⟨hresult, hsource, huntraced, hrecords⟩ := hshown.outcome k
  obtain ⟨hresult', hworld⟩ := hreal.outcome k
  obtain ⟨hprinted, hplain⟩ := Execution.printed_recorded ask source input m { source := w } k
  rw [String.empty_append] at huntraced hprinted
  rw [List.nil_append] at hrecords
  have hmode : (shown.outcome k).2.untraced = "" ∨ (shown.outcome k).2.records = [] := by
    rw [huntraced, hrecords]
    cases hdebug : m.debug with
    | true => exact .inl (by rw [hprinted, hdebug]; rfl)
    | false => exact .inr (by rw [hplain hdebug])
  intro kept
  refine Prod.ext (hresult'.trans hresult) (hworld.trans ?_)
  unfold Transcript.toWorld
  rw [Transcript.stdout_eq_append hmode, huntraced, hrecords, hsource]

end World

namespace CommandLine

namespace RunArguments

inductive Provides (a : RunArguments) (files : FileTree) : String → Prop where
  | code (hfile : a.file? = none) (hcode : a.code ≠ []) : Provides a files (String.join a.code)
  | file {path source : String} {content : Bytes} (hfile : a.file? = some path) (hcode : a.code = [])
      (hread : files.read path = .ok content) (htext : Text.decode? content = some source)
      : Provides a files source

def Unreadable (a : RunArguments) (files : FileTree) : Prop :=
  ∃ path, a.file? = some path ∧ a.code = [] ∧
    ∀ content, files.read path = .ok content → Text.decode? content = none

def dumpPath? (a : RunArguments) (config : Config) : Option String :=
  a.dump?.map fun path => if path = "" then config.dumpFile else path

def dumpContent (m : Machine n) : Bytes :=
  Text.encode (Snapshot.capture m).text

def DumpFails (a : RunArguments) (config : Config) (files : FileTree) (m : Machine n) : Prop :=
  ∃ path error, a.dumpPath? config = some path ∧ files.write path (dumpContent m) = .error error

/--
The execution of a program on a new machine with a tape of `length` cells, in debug mode if the arguments or the
configuration ask for it. All that it shows is kept, and the user answers its questions.
-/
def execution (a : RunArguments) (config : Config) (length : Nat) (source : String) (w : World)
    : Execution (max length 1) (Recording World) :=
  .recorded World.ask source (a.input?.getD "")
    ⟨(Machine.create length).setDebug (a.debug || config.debug), { source := w }⟩

/--
What the command leaves if the execution of its program has come to `ending` in the state `t`: the exit code
and the system, which was `before` at first.
-/
structure Concludes (a : RunArguments) (config : Config) (before : World) (ending : Ending)
    (t : RunState n (Recording World)) (code : UInt32) (after : World) : Prop where
  stdout : after.stdout
    = before.stdout ++ ((if a.debug || config.debug then traceText t.world.records.toList else "") ++
      t.machine.output ++ finalNewline t.machine.output)
  success (hending : ending = .finished) (hdump : ¬a.DumpFails config before.files t.machine) : code = 0
  failure (h : ending ≠ .finished ∨ a.DumpFails config before.files t.machine) : code = 1
  dumped {path : String} (hpath : a.dumpPath? config = some path)
    (hdump : ¬a.DumpFails config before.files t.machine)
    : before.files.Written after.files path (dumpContent t.machine)
  undumped (h : a.dumpPath? config = none ∨ a.DumpFails config before.files t.machine)
    : after.files = before.files

variable (a : RunArguments) (config : Config) (inputIsTerminal errorIsTerminal : Bool) (program : String)

structure Dumps (before : World) (m : Machine n) (done : Bool) (after : World) : Prop where
  stdout : after.stdout = before.stdout
  done_iff : done ↔ ¬a.DumpFails config before.files m
  written {path : String} (hpath : a.dumpPath? config = some path)
    (hdump : ¬a.DumpFails config before.files m) : before.files.Written after.files path (dumpContent m)
  kept (h : a.dumpPath? config = none ∨ a.DumpFails config before.files m) : after.files = before.files

theorem dumps_dump (m : Machine n) (w : World)
    : let out := (a.dump (World.host inputIsTerminal errorIsTerminal) config m).run w
      a.Dumps config w m out.1 out.2 := by
  unfold dump
  cases hdump : a.dump? with
  | none =>
    have hnone : a.dumpPath? config = none := by simp [dumpPath?, hdump]
    have hfails : ¬a.DumpFails config w.files m := by simp [DumpFails, hnone]
    exact ⟨rfl, ⟨fun _ => hfails, fun _ => rfl⟩, by simp [hnone], fun _ => rfl⟩
  | some path =>
    have hpath : a.dumpPath? config = some (if path.isEmpty then config.dumpFile else path) := by
      simp [dumpPath?, hdump]
    dsimp only
    generalize (if path.isEmpty then config.dumpFile else path) = path at hpath ⊢
    change let out := StateT.run (World.writeFile path (dumpContent m) >>= _) w
      a.Dumps config w m out.1 out.2
    rw [StateT.run_bind, World.run_writeFile]
    cases hwrite : w.files.write path (dumpContent m) with
    | ok files =>
      have hfails : ¬a.DumpFails config w.files m := by simp [DumpFails, hpath, hwrite]
      refine ⟨rfl, ⟨fun _ => hfails, fun _ => rfl⟩, ?_, by simp [hpath, hfails]⟩
      intro path' hpath' _
      rw [hpath] at hpath'
      cases hpath'
      exact FileTree.written_of_write hwrite
    | error error =>
      have hfails : a.DumpFails config w.files m := by simp [DumpFails, hpath, hwrite]
      exact ⟨rfl, ⟨fun hdone => absurd hdone Bool.false_ne_true, fun h => absurd hfails h⟩,
        fun _ h => absurd hfails h, fun _ => rfl⟩

variable {a config} {source : String} {w : World} {ending : Ending} {length : Nat}

theorem run_runSource_of_lt (hlength : Resolves a.tapeLength? config length) (hlong : Machine.maxLength < length)
    (budget : Nat)
    : (a.runSource (World.host inputIsTerminal errorIsTerminal) program config budget source).run w
        =
      (101, { w with stderr := w.stderr ++ "capacity overflow\n" }) := by
  rw [← hlength.eq, ← Machine.make?_eq_none_iff] at hlong
  have hmachine : a.machine? config = none := by rw [machine?, makeMachine?, hlong, Option.map_none]
  unfold runSource
  rw [hmachine]
  rfl

theorem run_runSource {budget : Nat} {m : Machine (max length 1)} {executed : World}
    (hlength : Resolves a.tapeLength? config length) (hfits : length ≤ Machine.maxLength)
    (h : (((Machine.create length).setDebug (a.debug || config.debug)).execute
      (World.host inputIsTerminal errorIsTerminal).console budget source (a.input?.getD "")).run w
        = ((ending, m), executed))
    (hending : ending ≠ .interrupted)
    : ∃ closed : World,
        closed.stdout = executed.stdout ++ closing m.output m.debug ∧ closed.files = executed.files ∧
        (a.runSource (World.host inputIsTerminal errorIsTerminal) program config budget source).run w
          =
        let dumped := (a.dump (World.host inputIsTerminal errorIsTerminal) config m).run closed
        (if ending = .finished && dumped.1 then 0 else 1, dumped.2) := by
  obtain rfl := hlength.eq
  have hmachine : a.machine? config
      = some ((Machine.create (resolveLength a.tapeLength? config)).setDebug (a.debug || config.debug)) := by
    rw [machine?, makeMachine?, Machine.make?_eq_some_iff.mpr ⟨hfits, rfl⟩, Option.map_some]
  unfold runSource
  rw [hmachine]
  dsimp only
  rw [StateT.run_bind, h]
  cases ending with
  | interrupted => contradiction
  | finished | failed fault =>
    refine ⟨_, ?_, ?_, rfl⟩
    . rfl
    . rfl

variable {t : RunState (max length 1) (Recording World)} {budget : Nat}

theorem files_of_outcome (h : (a.execution config length source w).outcome budget = t.result ending)
    : t.world.source.files = w.files := by
  have hconsole : (a.execution config length source w).console = Recording.console World.ask := rfl
  have hdelivered := (Execution.delivered_reached hconsole budget).1
  rw [Execution.reached_of_outcome h] at hdelivered
  rw [hdelivered.source]
  exact World.files_providerAfter w _

theorem shown_of_outcome (h : (a.execution config length source w).outcome budget = t.result ending)
    : traceText t.world.records.toList ++ t.world.printed ++ closing t.machine.output t.machine.debug
        =
      (if a.debug || config.debug then traceText t.world.records.toList else "") ++ t.machine.output ++
        finalNewline t.machine.output := by
  have hreached := Execution.reached_of_outcome h
  have hdebug : t.machine.debug = (a.debug || config.debug) := by
    rw [← hreached, Execution.debug_reached]
    rfl
  obtain ⟨hprinted, hplain⟩ := Execution.printed_recorded World.ask source (a.input?.getD "")
    ((Machine.create length).setDebug (a.debug || config.debug)) { source := w } budget
  rw [show (Execution.recorded _ _ _ _).outcome budget = t.result ending from h] at hprinted hplain
  replace hprinted : t.world.printed = if a.debug || config.debug then "" else t.machine.output :=
    hprinted.trans String.empty_append
  replace hplain : (a.debug || config.debug) = false → t.world.records = #[] := hplain
  rw [hprinted, hdebug, String.append_assoc, String.append_assoc, ← closing_eq_append_finalNewline,
    ← append_closing]
  cases hmode : a.debug || config.debug with
  | true =>
    rw [append_closing]
    rfl
  | false =>
    rw [hplain hmode]
    rfl

theorem concludes_runSource (hlength : Resolves a.tapeLength? config length) (hfits : length ≤ Machine.maxLength)
    (hending : ending ≠ .interrupted) (h : (a.execution config length source w).outcome budget = t.result ending)
    : let out := (a.runSource (World.host inputIsTerminal errorIsTerminal) program config budget source).run w
      a.Concludes config w ending t out.1 out.2 := by
  have hexecute := World.run_execute inputIsTerminal errorIsTerminal source (a.input?.getD "")
    ((Machine.create length).setDebug (a.debug || config.debug)) w budget
  rw [show (Execution.recorded _ _ _ _).outcome budget = t.result ending from h] at hexecute
  obtain ⟨closed, hstdout, hfiles, hrun⟩ := run_runSource inputIsTerminal errorIsTerminal program hlength hfits
    hexecute hending
  replace hstdout := hstdout.trans (String.append_assoc.trans (congrArg (w.stdout ++ ·) (shown_of_outcome h)))
  replace hfiles := hfiles.trans (files_of_outcome h)
  have hdumps := a.dumps_dump config inputIsTerminal errorIsTerminal t.machine closed
  intro out
  rw [show out = _ from hrun]
  obtain ⟨hstdout', hdone, hwritten, hkept⟩ := hdumps
  rw [hfiles] at hdone hwritten hkept
  refine ⟨hstdout'.trans hstdout, ?_, ?_, hwritten, hkept⟩
  . intro hfinished hdump
    simp [hfinished, hdone.2 hdump]
  . intro hfailed
    apply if_neg
    intro hcode
    rw [Bool.and_eq_true, decide_eq_true_eq] at hcode
    obtain hunfinished | hdump := hfailed
    . exact hunfinished hcode.1
    . exact hdone.1 hcode.2 hdump

theorem run_perform_of_code (hhelp : a.help = false) (hfile : a.file? = none) (hcode : a.code ≠ [])
    (budget : Nat)
    : (a.perform (World.host inputIsTerminal errorIsTerminal) program config budget).run w
        =
      (a.runSource (World.host inputIsTerminal errorIsTerminal) program config budget
        (String.join a.code)).run w := by
  obtain ⟨part, parts, hparts⟩ := List.exists_cons_of_ne_nil hcode
  unfold perform origin
  rw [if_neg (by simp [hhelp]), hfile, hparts]

theorem run_perform_of_file (hhelp : a.help = false) {path : String} (hfile : a.file? = some path)
    (hcode : a.code = []) (budget : Nat)
    : (a.perform (World.host inputIsTerminal errorIsTerminal) program config budget).run w
        =
      match sourceText path (w.files.read path) with
      | .error error => (1, { w with stderr := w.stderr ++ Report.banner errorIsTerminal error.message })
      | .ok source =>
        (a.runSource (World.host inputIsTerminal errorIsTerminal) program config budget source).run w := by
  have hread : (World.readFile path).run w = (w.files.read path, w) := rfl
  unfold perform origin
  rw [if_neg (by simp [hhelp]), hfile, hcode]
  change StateT.run (World.readFile path >>= _) w = _
  rw [StateT.run_bind, hread]
  change StateT.run (match sourceText path (w.files.read path) with | .error _ => _ | .ok _ => _) w = _
  cases sourceText path (w.files.read path) <;> rfl

theorem run_perform_of_provides (hhelp : a.help = false) (h : a.Provides w.files source) (budget : Nat)
    : (a.perform (World.host inputIsTerminal errorIsTerminal) program config budget).run w
        =
      (a.runSource (World.host inputIsTerminal errorIsTerminal) program config budget source).run w := by
  cases h with
  | code hfile hcode => rw [run_perform_of_code _ _ _ hhelp hfile hcode]
  | @file path source content hfile hcode hread htext =>
    have hsource : sourceText path (w.files.read path) = .ok source := by simp [sourceText, hread, htext]
    rw [run_perform_of_file _ _ _ hhelp hfile hcode, hsource]

theorem run_perform_of_unreadable (hhelp : a.help = false) (h : a.Unreadable w.files) (budget : Nat)
    : ∃ report,
        (a.perform (World.host inputIsTerminal errorIsTerminal) program config budget).run w
          =
        (1, { w with stderr := w.stderr ++ report }) := by
  obtain ⟨path, hfile, hcode, hread⟩ := h
  have hsource : ∃ error, sourceText path (w.files.read path) = .error error := by
    cases hfound : w.files.read path with
    | error error => exact ⟨_, rfl⟩
    | ok content => exact ⟨.ofFileError path .malformed, by simp [sourceText, hread content hfound]⟩
  obtain ⟨error, hsource⟩ := hsource
  rw [run_perform_of_file _ _ _ hhelp hfile hcode, hsource]
  exact ⟨_, rfl⟩

theorem provides_or_unreadable (files : FileTree) (h : a.file? = none ↔ a.code ≠ [])
    : (∃ source, a.Provides files source) ∨ a.Unreadable files := by
  cases hfile : a.file? with
  | none => exact .inl ⟨_, .code hfile (h.1 hfile)⟩
  | some path =>
    have hcode : a.code = [] := by simpa [hfile] using h
    by_cases htext : ∀ content, files.read path = .ok content → Text.decode? content = none
    . exact .inr ⟨path, hfile, hcode, htext⟩
    . simp only [not_forall] at htext
      obtain ⟨content, hread, hdecode⟩ := htext
      obtain ⟨source, hsource⟩ := Option.ne_none_iff_exists'.1 hdecode
      exact .inl ⟨source, .file hfile hcode hread hsource⟩

end RunArguments

end CommandLine

open CommandLine (Resolves)

/--
The command that runs one program, from its arguments to what it leaves. Exactly one of a file and code is
given. If this comes to a program text whose execution ends, on a machine with the tape length and the debug mode
that are asked for, then given enough time the command writes the trace and the whole output, its exit code says
whether the program finished and the snapshot could be written, and the snapshot is that of the machine as the
program has left it, also after a fault. If the file cannot be read, the exit code is one, and there is a report
and nothing else. With a tape for which memory cannot be asked there is no machine, and the process ends.
-/
theorem run_command_leaves (inputIsTerminal errorIsTerminal : Bool) (program : String) (config : Config)
    (a : RunArguments) (w : World) (hhelp : a.help = false) (hone : a.file? = none ↔ a.code ≠ [])
    : let perform := fun budget =>
        (a.perform (World.host inputIsTerminal errorIsTerminal) program config budget).run w
      (∃ source, a.Provides w.files source ∧
        ∀ length, Resolves a.tapeLength? config length →
          (length < UInt64.size / 2 →
            ∀ ending t, (a.execution config length source w).Halts ending t →
              ∃ least, ∀ budget, least ≤ budget →
                a.Concludes config w ending t (perform budget).1 (perform budget).2) ∧
          (UInt64.size / 2 ≤ length →
            ∀ budget, ∃ report, perform budget = (101, { w with stderr := w.stderr ++ report }))) ∨
      (a.Unreadable w.files ∧
        ∀ budget, ∃ report, perform budget = (1, { w with stderr := w.stderr ++ report })) := by
  intro perform
  obtain ⟨source, hsource⟩ | hunreadable := a.provides_or_unreadable w.files hone
  . have hperform : ∀ budget, perform budget
        = (a.runSource (World.host inputIsTerminal errorIsTerminal) program config budget source).run w :=
      RunArguments.run_perform_of_provides inputIsTerminal errorIsTerminal program hhelp hsource
    refine .inl ⟨source, hsource, fun length hlength => ⟨?_, ?_⟩⟩
    . intro hshort ending t ⟨hending, least, hleast⟩
      refine ⟨least, ?_⟩
      intro budget hbudget
      have houtcome : (a.execution config length source w).outcome least = t.result ending := hleast
      have hle : (a.execution config length source w).outcome budget = t.result ending := by
        rw [Execution.outcome_of_le (by rw [houtcome]; exact hending) hbudget, houtcome]
      have hfits : length ≤ Machine.maxLength := Nat.le_sub_one_of_lt hshort
      rw [hperform]
      exact RunArguments.concludes_runSource inputIsTerminal errorIsTerminal program hlength hfits hending hle
    . intro hlong budget
      have hlong : Machine.maxLength < length := Nat.lt_of_lt_of_le (by decide) hlong
      rw [hperform, RunArguments.run_runSource_of_lt inputIsTerminal errorIsTerminal program hlength hlong]
      exact ⟨_, rfl⟩
  . refine .inr ⟨hunreadable, ?_⟩
    intro budget
    exact RunArguments.run_perform_of_unreadable inputIsTerminal errorIsTerminal program hhelp hunreadable budget

theorem run_command_leaves_failed_program
    : let a : RunArguments := { code := [",.", "<"], debug := true, tapeLength? := some 2, dump? := some "" }
      let w : World := { stdin := Text.encode "A\n" }
      let shown :=
        "IP:    0 | Cmd: , | Ptr:    0 | Memory: [  0   0]\n" ++ Text.blanks 41 ++ "^^^\n" ++
        "IP:    1 | Cmd: . | Ptr:    0 | Memory: [ 65   0]\n" ++ Text.blanks 41 ++ "^^^\n" ++
        "IP:    2 | Cmd: < | Ptr:    0 | Memory: [ 65   0]\n" ++ Text.blanks 41 ++ "^^^\nA\n"
      let dumped : Snapshot :=
        { memorySize := 2, ip := 2, pointer := 0, input := "", output := "A", debugMode := "true",
          cells := [(0, 65), (1, 0)] }
      ∃ t least, (a.execution {} 2 ",.<" w).Halts (.failed (.underflow 2)) t ∧
        ∀ budget, least ≤ budget →
          let out := (a.perform (World.host false false) "sbfi" {} budget).run w
          out.1 = 1 ∧ out.2.stdout = shown ∧ out.2.files.read "sbfi-dump.json" = .ok (Text.encode dumped.text) := by
  intro a w shown dumped
  obtain ⟨source, hsource, hconcludes⟩ | ⟨⟨path, hfile, _⟩, _⟩ :=
    run_command_leaves false false "sbfi" {} a w rfl (by decide)
  . cases hsource with
    | file hfile => cases hfile
    | code =>
      have hvalue : ∃ out, (a.execution {} 2 ",.<" w).outcome 4 = out ∧
          out.1.1 = .failed (.underflow 2) ∧
          traceText out.2.records.toList ++ out.1.2.output ++ finalNewline out.1.2.output = shown ∧
          Snapshot.capture out.1.2 = dumped :=
        ⟨_, rfl, by decide +kernel⟩
      obtain ⟨out, hout, hfailed, hshown, hdumped⟩ := hvalue
      let t : RunState 2 (Recording World) := ⟨out.1.2, out.2⟩
      have ht : (a.execution {} 2 ",.<" w).Halts (.failed (.underflow 2)) t := by
        refine ⟨by simp, 4, ?_⟩
        rw [← hfailed]
        exact hout
      obtain ⟨least, hleast⟩ := (hconcludes 2 (.option rfl (by decide))).1 (by decide) _ t ht
      refine ⟨t, least, ht, ?_⟩
      intro budget hbudget
      have hpath : a.dumpPath? {} = some "sbfi-dump.json" := by decide
      have htarget : w.files.target "sbfi-dump.json" = .ok ["", "sbfi-dump.json"] := by decide +kernel
      have hdump : ¬a.DumpFails {} w.files t.machine := by
        simp [RunArguments.DumpFails, hpath, FileTree.write, htarget, bind, Except.bind, pure, Except.pure]
      have hdone := hleast budget hbudget
      refine ⟨hdone.failure (.inl (by simp)), ?_, ?_⟩
      . exact hdone.stdout.trans (String.empty_append.trans hshown)
      . have hread := (hdone.dumped hpath hdump).read
        unfold RunArguments.dumpContent at hread
        rw [show Snapshot.capture t.machine = dumped from hdumped] at hread
        exact hread
  . cases hfile

end Brainfuck
