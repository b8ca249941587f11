import Brainfuck.Report
import Brainfuck.Proofs.Execution

/-!
This module contains the proof that the report about a failed execution points at the instruction that is to
blame. The fault names the position of that instruction among the characters of the stripped source text, and
the caret of the report stands below the character there.
-/

namespace Brainfuck

variable {n : Nat} {σ : Type}

namespace Fault

def instruction : Fault → Instruction
  | unmatched .opening _ => .loopOpen
  | unmatched .closing _ => .loopClose
  | overflow _ => .right
  | underflow _ => .left

def symbol : Fault → Char
  | unmatched .opening _ => '['
  | unmatched .closing _ => ']'
  | overflow _ => '>'
  | underflow _ => '<'

theorem symbol_instruction (fault : Fault) : fault.instruction.symbol = fault.symbol := by
  cases fault with
  | unmatched bracket position => cases bracket <;> rfl
  | overflow position | underflow position => rfl

end Fault

theorem Instruction.symbol_of_ofChar? {c : Char} {i : Instruction} (h : ofChar? c = some i)
    : i.symbol = c := by
  unfold ofChar? at h
  split at h <;> cases h <;> rfl

theorem stripComments_eq_map_symbol (source : String)
    : stripComments source = .ofList ((instructions source).map Instruction.symbol) := by
  unfold stripComments instructions
  congr 1
  induction source.toList with
  | nil => rfl
  | cons c rest ih =>
    cases hc : Instruction.ofChar? c with
    | none => simp [hc, ih]
    | some i => simp [hc, ih, Instruction.symbol_of_ofChar? hc]

theorem getElem?_stripComments (source : String) (position : Nat)
    : (stripComments source).toList[position]?
        =
      (instructions source)[position]?.map Instruction.symbol := by
  rw [stripComments_eq_map_symbol, String.toList_ofList, List.getElem?_map]

theorem Program.text_of_parse {source : String} {p : Program} (hparse : parse source = .ok p)
    : p.text = stripComments source := by
  unfold text
  rw [(parse_eq_ok hparse).1, stripComments_eq_map_symbol]

theorem Unclosed.getElem?_of_mem {code : List Instruction} {stack : List Nat} (h : Unclosed code stack)
    {position : Nat} (hposition : position ∈ stack) : code[position]? = some .loopOpen := by
  induction h with
  | nil => contradiction
  | cons h hbody ih =>
    cases hposition with
    | head => simp
    | tail _ hmem =>
      have hopen := ih hmem
      obtain ⟨hlt, _⟩ := List.getElem?_eq_some_iff.1 hopen
      rw [List.getElem?_append_left hlt, hopen]

theorem Program.instruction_of_parse_eq_error {source : String} {fault : Fault}
    (hparse : parse source = .error fault)
    : (instructions source)[fault.position]? = some fault.instruction := by
  unfold parse at hparse
  dsimp only at hparse
  have hmatched := matchBrackets_matched (instructions source)
  generalize matchBrackets (instructions source) = result at hparse hmatched
  cases hmatched with
  | ok => contradiction
  | stray hcode =>
    cases hparse
    rw [hcode]
    simp [Fault.position, Fault.instruction]
  | unclosed hunclosed hlast =>
    cases hparse
    exact hunclosed.getElem?_of_mem (List.mem_of_getLast? hlast)

theorem Machine.Blocked.position_eq {m : Machine n} {i : Instruction} {fault : Fault}
    (h : m.Blocked i fault) : fault.position = m.ip ∧ fault.instruction = i := by
  cases h with
  | overflow hi | underflow hi => exact ⟨rfl, hi.symm⟩

theorem Execution.instruction_of_halts_failed {e : Execution n σ} {fault : Fault} {t : RunState n σ}
    (h : e.Halts (.failed fault) t)
    : (instructions e.source)[fault.position]? = some fault.instruction := by
  cases hparse : Program.parse e.source with
  | error fault' =>
    rw [halts_iff_of_fault hparse] at h
    cases h.1
    exact Program.instruction_of_parse_eq_error hparse
  | ok p =>
    obtain ⟨_, u, _, hturn⟩ := (halts_iff_stops hparse).1 h
    obtain ⟨_, hending, _⟩ | ⟨i, fault', hi, hblocked, hending, _⟩ := RunState.stop_cases hturn
    . contradiction
    . cases hending
      obtain ⟨hposition, hinstruction⟩ := hblocked.position_eq
      rw [hposition, hinstruction, ← (Program.parse_eq_ok hparse).1, ← p.instruction?_eq_getElem?]
      exact hi

namespace Report

/--
`PointsAt report code position c`: the last two lines of the report are a piece of the code, of 65 characters at
most, and a caret below the character `c` at `position`.
-/
def PointsAt (report : String) (code : List Char) (position : Nat) (c : Char) : Prop :=
  ∃ heading before piece after column,
    report = heading ++ "\n  " ++ .ofList piece ++ "\n  " ++ Text.blanks column ++ "^\n" ∧
      code = before ++ piece ++ after ∧ piece.length ≤ 65 ∧ before.length + column = position ∧
      piece[column]? = some c

variable {code : List Char} {position : Nat}

theorem append_excerpt (code : List Char) (position : Nat)
    : ∃ after, code = code.take (position - radius) ++ excerpt code position ++ after := by
  unfold excerpt
  dsimp only
  generalize min ((position + radius + 1) % UInt64.size) code.length - (position - radius) = count
  refine ⟨(code.drop (position - radius)).drop count, ?_⟩
  rw [List.append_assoc, List.take_append_drop, List.take_append_drop]

theorem length_excerpt_le (code : List Char) (position : Nat) : (excerpt code position).length ≤ 65 := by
  have hstop := Nat.mod_le (position + radius + 1) UInt64.size
  unfold excerpt
  rw [List.length_take]
  unfold radius at *
  omega

theorem getElem?_excerpt (hposition : position < code.length) (hcode : code.length + radius < UInt64.size)
    : (excerpt code position)[position - (position - radius)]? = code[position]? := by
  unfold excerpt
  rw [Nat.mod_eq_of_lt (by omega), List.getElem?_take_of_lt (by omega), List.getElem?_drop]
  congr 1
  omega

theorem pointsAt_withContext (terminal : Bool) (title code : String) {position : Nat} {c : Char}
    (hc : code.toList[position]? = some c) (hcode : code.length + radius < UInt64.size)
    : PointsAt (withContext terminal title code position) code.toList position c := by
  rw [← String.length_toList] at hcode
  obtain ⟨hposition, _⟩ := List.getElem?_eq_some_iff.1 hc
  obtain ⟨after, hafter⟩ := append_excerpt code.toList position
  refine ⟨label terminal ++ " " ++ title ++ " at position " ++ position.repr, _, _, after,
    position - (position - radius), ?_, hafter, length_excerpt_le code.toList position, ?_, ?_⟩
  . unfold withContext caretLine
    simp only [String.append_assoc]
    rfl
  . rw [List.length_take]
    omega
  . rw [getElem?_excerpt hposition hcode, hc]

end Report

/--
The report about a failed execution points at the instruction that is to blame. The condition on the length says
that the end of the excerpt fits in a machine word, as it does for every text that fits in a memory.
-/
theorem fault_report_points_at_instruction (e : Execution n σ) (terminal : Bool)
    (command? : Option String)
    : (stripComments e.source = .ofList ((instructions e.source).map Instruction.symbol) ∧
        ∀ p, Program.parse e.source = .ok p → p.text = stripComments e.source) ∧
      ∀ fault t, e.Halts (.failed fault) t →
        fault.position < (stripComments e.source).length ∧
          (stripComments e.source).toList[fault.position]? = some fault.symbol ∧
          ((stripComments e.source).length + Report.radius < UInt64.size →
            Report.PointsAt (Report.ofFault terminal command? (stripComments e.source) fault)
              (stripComments e.source).toList fault.position fault.symbol) := by
  refine ⟨⟨stripComments_eq_map_symbol e.source, fun p => Program.text_of_parse⟩, ?_⟩
  intro fault t hhalts
  have hsymbol : (stripComments e.source).toList[fault.position]? = some fault.symbol := by
    rw [getElem?_stripComments, Execution.instruction_of_halts_failed hhalts, Option.map_some,
      fault.symbol_instruction]
  refine ⟨?_, hsymbol, ?_⟩
  . rw [← String.length_toList]
    exact (List.getElem?_eq_some_iff.1 hsymbol).1
  . intro hlength
    unfold Report.ofFault
    exact Report.pointsAt_withContext terminal _ _ hsymbol hlength

theorem fault_report_points_at_instruction_overflow
    : let e := Execution.recorded answersInOrder "go > and > on" "" ⟨Machine.create 2, { source := [] }⟩
      (∃ t, e.Halts (.failed (.overflow 1)) t) ∧ (stripComments e.source).length + Report.radius < UInt64.size ∧
        Report.PointsAt "Error: Runtime error: memory pointer overflow at position 1\n  >>\n   ^\n"
          ['>', '>'] 1 '>' := by
  intro e
  have hvalue : ∃ out, e.outcome 5 = out ∧ out.1.1 = .failed (.overflow 1) := ⟨_, rfl, by decide +kernel⟩
  obtain ⟨out, hout, hfailed⟩ := hvalue
  have hhalts : e.Halts (.failed (.overflow 1)) ⟨out.1.2, out.2⟩ := by
    refine ⟨by simp, 5, ?_⟩
    rw [← hfailed]
    exact hout
  have hstrip : stripComments e.source = ">>" := by decide +kernel
  have hlength : (stripComments e.source).length + Report.radius < UInt64.size := by
    rw [hstrip]
    decide
  have hreport : Report.ofFault false none ">>" (.overflow 1)
      = "Error: Runtime error: memory pointer overflow at position 1\n  >>\n   ^\n" := by
    decide +kernel
  obtain ⟨_, hfaults⟩ := fault_report_points_at_instruction e false none
  obtain ⟨_, _, hpoints⟩ := hfaults (.overflow 1) _ hhalts
  have hpoints := hpoints hlength
  rw [hstrip, hreport] at hpoints
  exact ⟨⟨_, hhalts⟩, hlength, hpoints⟩

end Brainfuck
