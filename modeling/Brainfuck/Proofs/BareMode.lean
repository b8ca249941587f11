import Brainfuck.World
import Brainfuck.Proofs.Correspondence
import Brainfuck.Proofs.Delivery
import Brainfuck.Proofs.LineWalk

/-!
This module contains the proof that a session without a line editor uses every line of the standard input
once. The session and the programs that it runs read from the same stream, and `Uses` says which line goes to
whom: a line is a program, the input instructions of this program take the lines behind it one by one, and
the next line after these is a program again.
-/

namespace Brainfuck

open RunState
open Text (Bytes Decodes lines lineChar? decode?)
open CommandLine (ReplArguments)

variable {n : Nat}

namespace Execution.Matches

variable {σ σ' : Type} {R : σ → σ' → Prop} {e : Execution n σ} {e' : Execution n σ'}

theorem reads (h : Matches R e e') (k : Nat) : e'.reads k = e.reads k := by
  unfold Execution.reads
  simp only [h.next?]

theorem stored (h : Matches R e e') (k : Nat) : e'.stored k = e.stored k := by
  unfold Execution.stored
  simp only [h.next?, h.machine_reached]

end Execution.Matches

def nextAnswer : StateM (List Bytes) (Option Char) :=
  fun lines => (lines.head?.bind lineChar?, lines.tail)

theorem providerAfter_nextAnswer (lines : List Bytes) (count : Nat)
    : providerAfter nextAnswer lines count = lines.drop count := by
  induction count with
  | zero => rfl
  | succ count ih =>
    rw [providerAfter, ih]
    exact List.tail_drop

theorem delivery_nextAnswer (lines : List Bytes) (count : Nat)
    : delivery nextAnswer lines [] count = lines[count]?.bind lineChar? := by
  unfold delivery
  rw [List.getElem?_nil, List.length_nil, Nat.sub_zero, providerAfter_nextAnswer]
  exact congrArg (·.bind lineChar?) List.head?_drop

def prompts (count : Nat) : String :=
  String.join (List.replicate count "Input: ")

theorem prompts_succ (count : Nat) : prompts (count + 1) = prompts count ++ Prompt.text := by
  simp [prompts, Prompt.text, List.replicate_succ', String.join_append, String.join_cons, String.join_nil]

theorem prompts_add (count more : Nat) : prompts (count + more) = prompts count ++ prompts more := by
  simp [prompts, ← List.replicate_append_replicate, String.join_append]

namespace World

structure Quiet (w : World) : Prop where
  prompt : w.prompt = {}
  reactions : w.reactions = []

variable {w w' : World} {line : String}

theorem Quiet.run_ask (h : w.Quiet)
    : ask.run w
        =
      ((lines w.stdin).head?.bind lineChar?,
        { w with stdin := (Text.readFirstChar w.stdin).2, stderr := w.stderr ++ Prompt.text }) := by
  obtain ⟨hprompt, hreactions⟩ := h
  obtain ⟨files, environment, configDirectory?, stdin, stdout, stderr, prompt, reactions, editor, keys⟩ := w
  subst hprompt hreactions
  rw [← Text.fst_readFirstChar]
  rfl

theorem Quiet.run_nextLine (h : w.Quiet)
    : nextLine.run w
        =
      ((lines w.stdin).head?.bind decode?, { w with stdin := (Text.readLine w.stdin).2 }) := by
  obtain ⟨hprompt, hreactions⟩ := h
  obtain ⟨files, environment, configDirectory?, stdin, stdout, stderr, prompt, reactions, editor, keys⟩ := w
  subst hprompt hreactions
  rw [← Text.fst_readLine]
  rfl

theorem Quiet.of_line (h : w.Quiet) (hline : nextLine.run w = (some line, w'))
    : w'.Quiet ∧ w'.stderr = w.stderr ∧
      ∃ first, lines w.stdin = first :: lines w'.stdin ∧ Decodes first line.toList := by
  rw [h.run_nextLine, Prod.mk.injEq] at hline
  obtain ⟨hfirst, rfl⟩ := hline
  refine ⟨⟨h.prompt, h.reactions⟩, rfl, ?_⟩
  obtain ⟨first, hhead, hdecode⟩ := Option.bind_eq_some_iff.1 hfirst
  refine ⟨first, ?_, Text.decode?_eq_some_iff.mp hdecode⟩
  dsimp only
  rw [Text.lines_snd_readLine]
  exact List.eq_cons_of_mem_head? hhead

theorem Quiet.of_no_line (h : w.Quiet) (hline : nextLine.run w = (none, w'))
    : w'.stderr = w.stderr ∧ (∀ first ∈ (lines w.stdin).head?, ∀ cs, ¬Decodes first cs) ∧
      lines w'.stdin = (lines w.stdin).tail := by
  rw [h.run_nextLine, Prod.mk.injEq] at hline
  obtain ⟨hfirst, rfl⟩ := hline
  refine ⟨rfl, ?_, Text.lines_snd_readLine w.stdin⟩
  intro first hmem
  exact Text.decode?_eq_none_iff.mp (Option.bind_eq_none_iff.mp hfirst first hmem)

def bareSession (inputIsTerminal errorIsTerminal : Bool) : Session (StateM World) :=
  ReplArguments.session (host inputIsTerminal errorIsTerminal) .bare

section

variable (inputIsTerminal errorIsTerminal : Bool) {s : RunState n World}

theorem Quiet.closed (h : s.world.Quiet)
    : ((bareSession inputIsTerminal errorIsTerminal).closed s).world.Quiet :=
  ⟨h.prompt, h.reactions⟩

theorem stdin_closed : ((bareSession inputIsTerminal errorIsTerminal).closed s).world.stdin = s.world.stdin :=
  rfl

theorem stderr_closed
    : ((bareSession inputIsTerminal errorIsTerminal).closed s).world.stderr = s.world.stderr :=
  rfl

end

/--
A recording of lines goes with the world whose standard input holds them, if the standard error was `stderr`
at first.
-/
structure Holds (stderr : String) (r : Recording (List Bytes)) (w : World) : Prop where
  quiet : w.Quiet
  stdin : lines w.stdin = r.source
  stderr : w.stderr = stderr ++ prompts r.asked

theorem matches_holds (inputIsTerminal errorIsTerminal : Bool) (stderr : String)
    : (Recording.console nextAnswer).Matches (Holds stderr)
        (bareSession inputIsTerminal errorIsTerminal).console where
  print := by
    intro r w h c
    exact ⟨⟨h.quiet.prompt, h.quiet.reactions⟩, h.stdin, h.stderr⟩
  trace := by
    intro r w h record
    exact ⟨⟨h.quiet.prompt, h.quiet.reactions⟩, h.stdin, h.stderr⟩
  answer := by
    intro r w h
    change (ask.run w).1 = r.source.head?.bind lineChar?
    rw [h.quiet.run_ask, h.stdin]
  ask := by
    intro r w h
    change Holds stderr { r with source := r.source.tail, asked := r.asked + 1 } (ask.run w).2
    rw [h.quiet.run_ask]
    refine ⟨⟨h.quiet.prompt, h.quiet.reactions⟩, ?_, ?_⟩
    . rw [Text.lines_snd_readFirstChar, h.stdin]
    . dsimp only
      rw [h.stderr, prompts_succ, String.append_assoc]

end World

namespace Execution

/--
A program that takes `lines` with its input instructions. At every point it has taken as many of them as there
were input instructions, each with a prompt, and these have stored the characters of the lines in order.
-/
structure TakesLines (lines : List Bytes) (e : Execution n World) : Prop where
  stdin (k : Nat) : Text.lines (e.reached k).world.stdin = lines.drop (e.reads k)
  stderr (k : Nat) : (e.reached k).world.stderr = e.state.world.stderr ++ prompts (e.reads k)
  stored (k : Nat)
    : (e.stored k).map UInt8.toNat = (List.range (e.reads k)).map fun j => cellCode (lines[j]?.bind lineChar?)

variable (inputIsTerminal errorIsTerminal : Bool) (line : String) {s : RunState n World}

theorem matches_lines (h : s.world.Quiet)
    : Matches (World.Holds s.world.stderr)
        (recorded nextAnswer line "" ⟨s.machine, { source := lines s.world.stdin }⟩)
        ((World.bareSession inputIsTerminal errorIsTerminal).execution line s) :=
  ⟨World.matches_holds inputIsTerminal errorIsTerminal s.world.stderr, rfl, rfl,
    h, rfl, String.append_empty.symm⟩

theorem quiet_reached (h : s.world.Quiet) (k : Nat)
    : (((World.bareSession inputIsTerminal errorIsTerminal).execution line s).reached k).world.Quiet :=
  ((matches_lines inputIsTerminal errorIsTerminal line h).outcome k).2.quiet

theorem takesLines (h : s.world.Quiet)
    : TakesLines (lines s.world.stdin)
        ((World.bareSession inputIsTerminal errorIsTerminal).execution line s) := by
  have hmatches := matches_lines inputIsTerminal errorIsTerminal line h
  let r := recorded nextAnswer line "" ⟨s.machine, { source := lines s.world.stdin }⟩
  have hdelivered (k : Nat) := delivered_reached (show r.console = Recording.console nextAnswer from rfl) k
  constructor
  . intro k
    have hsource : (r.reached k).world.source = (lines s.world.stdin).drop (r.reads k) :=
      (hdelivered k).1.source.trans (providerAfter_nextAnswer _ _)
    rw [hmatches.reads k]
    exact (hmatches.outcome k).2.stdin.trans hsource
  . intro k
    have hasked : (r.reached k).world.asked = r.reads k := (hdelivered k).1.asked.trans (Nat.zero_add _)
    rw [hmatches.reads k, ← hasked]
    exact (hmatches.outcome k).2.stderr
  . intro k
    rw [hmatches.reads k, hmatches.stored k, (hdelivered k).2]
    simp only [← delivery_nextAnswer]
    rfl

end Execution

namespace Session

namespace Item

variable {σ : Type}

def line : Item n σ → String
  | skipped line => line
  | executed e _ => e.source

def reads : Item n σ → Nat
  | skipped _ => 0
  | executed e k => e.reads k

def totalReads (items : List (Item n σ)) : Nat :=
  items.foldr (·.reads + ·) 0

def ending : Item n σ → Ending
  | skipped _ => .finished
  | executed e k => (e.outcome k).1.1

def TakesLines (lines : List Bytes) : Item n World → Prop
  | skipped _ => True
  | executed e _ => e.TakesLines lines

theorem totalReads_cons (item : Item n σ) (items : List (Item n σ))
    : totalReads (item :: items) = item.reads + totalReads items :=
  rfl

end Item

/--
`Uses lines items left`: the first of `lines` is the program of the first item, its input instructions take
the lines behind it, and so on. The lines in `left` are not used.
-/
inductive Uses : List Bytes → List (Item n World) → List Bytes → Prop where
  | nil (lines : List Bytes) : Uses lines [] lines
  | cons {line : Bytes} {rest left : List Bytes} {item : Item n World} {items : List (Item n World)}
      (hprogram : Decodes line item.line.toList) (hitem : item.TakesLines rest)
      (h : Uses (rest.drop item.reads) items left)
      : Uses (line :: rest) (item :: items) left

theorem Uses.isSuffix {lines left : List Bytes} {items : List (Item n World)} (h : Uses lines items left)
    : left <:+ lines := by
  induction h with
  | nil lines => exact List.suffix_rfl
  | cons _ _ _ ih => exact (ih.trans (List.drop_suffix _ _)).trans (List.suffix_cons _ _)

/--
How a session comes to its ending: it finishes if it asks for a line and there is none, or one that is no text;
and it fails if its last program does. In both cases `rest` are the lines that are left in the stream, if
`left` are those behind the last program and its input.
-/
def Concludes (items : List (Item n World)) (left rest : List Bytes) : Ending → Prop
  | .finished =>
    (∀ item ∈ items, item.ending = .finished) ∧ (∀ line ∈ left.head?, ∀ cs, ¬Decodes line cs) ∧ rest = left.tail
  | .failed fault =>
    (∃ before last, items = before ++ [last] ∧ (∀ item ∈ before, item.ending = .finished) ∧
      last.ending = .failed fault) ∧
    rest = left
  | .interrupted => False

section

variable {items : List (Item n World)} {left rest : List Bytes} {ending : Ending}

theorem Concludes.cons (h : Concludes items left rest ending) {item : Item n World}
    (hitem : item.ending = .finished) : Concludes (item :: items) left rest ending := by
  cases ending with
  | interrupted => exact h
  | finished =>
    obtain ⟨hitems, hrest⟩ := h
    exact ⟨List.forall_mem_cons.2 ⟨hitem, hitems⟩, hrest⟩
  | failed fault =>
    obtain ⟨⟨before, last, rfl, hbefore, hlast⟩, hrest⟩ := h
    exact ⟨⟨item :: before, last, rfl, List.forall_mem_cons.2 ⟨hitem, hbefore⟩, hlast⟩, hrest⟩

theorem Concludes.isSuffix (h : Concludes items left rest ending) : rest <:+ left := by
  cases ending with
  | interrupted => exact h.elim
  | finished =>
    rw [h.2.2]
    exact List.tail_suffix left
  | failed fault => exact h.2 ▸ List.suffix_rfl

end

theorem Course.uses {inputIsTerminal errorIsTerminal : Bool} {s t : RunState n World}
    {items : List (Item n World)} {ending : Ending}
    (h : (World.bareSession inputIsTerminal errorIsTerminal).Course s items ending t)
    (hquiet : s.world.Quiet)
    : ∃ left, Uses (lines s.world.stdin) items left ∧ Concludes items left (lines t.world.stdin) ending ∧
        t.world.stderr = s.world.stderr ++ prompts (Item.totalReads items) := by
  induction h with
  | @done s w hline =>
    obtain ⟨hstderr, hnone, hleft⟩ := hquiet.of_no_line hline
    exact ⟨lines s.world.stdin, .nil _, ⟨by simp, hnone, hleft⟩, hstderr.trans String.append_empty.symm⟩
  | @skip s t w line items ending hline hblank _ ih =>
    obtain ⟨hquiet, hstderr, first, hlines, hdecode⟩ := hquiet.of_line hline
    obtain ⟨left, huses, hconcludes, hprompts⟩ := ih hquiet
    refine ⟨left, ?_, hconcludes.cons rfl, ?_⟩
    . rw [hlines]
      exact .cons hdecode trivial huses
    . rw [hprompts, ← hstderr, Item.totalReads_cons, show (Item.skipped line).reads = 0 from rfl,
        Nat.zero_add]
  | @fail s w line k fault hline hprogram hfail =>
    obtain ⟨hquiet, hstderr, first, hlines, hdecode⟩ := hquiet.of_line hline
    have htakes := Execution.takesLines inputIsTerminal errorIsTerminal line (s := { s with world := w }) hquiet
    refine ⟨_, ?_, ⟨⟨[], _, rfl, by simp, hfail⟩, htakes.stdin k⟩, ?_⟩
    . rw [hlines]
      exact .cons hdecode htakes (.nil _)
    . rw [← hstderr]
      exact htakes.stderr k
  | @run s t w line k items ending hline hprogram hrun _ ih =>
    obtain ⟨hquiet, hstderr, first, hlines, hdecode⟩ := hquiet.of_line hline
    have htakes := Execution.takesLines inputIsTerminal errorIsTerminal line (s := { s with world := w }) hquiet
    have hreached :=
      Execution.quiet_reached inputIsTerminal errorIsTerminal line (s := { s with world := w }) hquiet k
    obtain ⟨left, huses, hconcludes, hprompts⟩ := ih (hreached.closed inputIsTerminal errorIsTerminal)
    rw [World.stdin_closed, htakes.stdin k] at huses
    rw [World.stderr_closed, htakes.stderr k] at hprompts
    refine ⟨left, ?_, hconcludes.cons hrun, ?_⟩
    . rw [hlines]
      exact .cons hdecode htakes huses
    . rw [hprompts, Item.totalReads_cons, prompts_add, ← hstderr, ← String.append_assoc]
      rfl

end Session

/--
Every line of the standard input is used once, as a program or as the answer to an input instruction. Whatever
the bytes are, a session without a line editor takes whole lines from the front of the standard input, in the
order that `Uses` describes, and shows one prompt for each input instruction. It ends as `Concludes` says.
-/
theorem bare_session_uses_lines_in_order (inputIsTerminal errorIsTerminal : Bool) (stdin : Bytes)
    (world : World) (m : Machine n) (ending : Ending) (t : RunState n World)
    : let session := ReplArguments.session (World.host inputIsTerminal errorIsTerminal) .bare
      let start := RunState.mk m { world with stdin, prompt := {}, reactions := [] }
      (∀ stream, (lines stream).flatten = stream ∧
        ∃ (bodies : List Bytes) (last : Bytes),
          lines stream = bodies.map (· ++ [Text.newline]) ++ (if last = [] then [] else [last]) ∧
          (∀ body ∈ bodies, Text.newline ∉ body) ∧ Text.newline ∉ last) ∧
      (∀ line, ∃ body trailing, line.toList = body ++ trailing ∧
        (∀ c ∈ body.getLast?, c ≠ '\r' ∧ c ≠ '\n') ∧ (∀ c ∈ trailing, c = '\r' ∨ c = '\n') ∧
        Text.firstChar? line = body.head?) ∧
      (∀ line, (lineChar? line = none ↔ Text.Silent line) ∧
        ∀ c, lineChar? line = some c ↔ ¬Text.Silent line ∧ ∃ cs, Decodes line (c :: cs)) ∧
      (session.Halts start ending t
          ↔
        ∃ items left, session.Course start items ending t ∧
          Session.Uses (lines stdin) items left ∧
          Session.Concludes items left (lines t.world.stdin) ending ∧
          lines t.world.stdin <:+ lines stdin ∧
          t.world.stderr = world.stderr ++ prompts (Session.Item.totalReads items)) := by
  intro session start
  refine ⟨fun stream => ⟨Text.flatten_lines stream, Text.exists_bodies stream⟩,
    Text.exists_body_firstChar?, fun line => ⟨Text.lineChar?_eq_none_iff, fun c => Text.lineChar?_eq_some_iff⟩, ?_⟩
  rw [Session.halts_iff_exists_course]
  constructor
  . intro ⟨items, hcourse⟩
    obtain ⟨left, huses, hconcludes, hprompts⟩ := Session.Course.uses hcourse ⟨rfl, rfl⟩
    exact ⟨items, left, hcourse, huses, hconcludes, hconcludes.isSuffix.trans huses.isSuffix, hprompts⟩
  . intro ⟨items, left, hcourse, _⟩
    exact ⟨items, hcourse⟩

-- The first line is a program that takes the two lines behind it, the second of which has no character. The next
-- program fails, and the last line stays.
example
    : let w : World := { stdin := Text.encode ",.,.\nAB\r\n\r\n+.<\n.\n" }
      ∃ out, ((World.bareSession false false).run 10 (Machine.create 1)).run w = out ∧
        out.1.1 = .failed (.underflow 2) ∧ out.2.stdin = Text.encode ".\n" ∧
        out.2.stdout = "A\x00\n\x01" ∧ out.2.stderr = "Input: Input: " :=
  ⟨_, rfl, by decide +kernel⟩

end Brainfuck
