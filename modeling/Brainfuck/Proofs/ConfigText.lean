import Brainfuck.Proofs.Document

/-!
This module contains how settings are written. A text is a tape length if and only if it spells a positive machine
word, and a configuration can be written as a section of a file from which it is read back, whatever stands in
the file before.
-/

namespace Brainfuck

namespace Text

variable {cs : List Char}

theorem trims_self (hfirst : ∀ c, cs.head? = some c → isBlank c = false)
    (hlast : ∀ c, cs.getLast? = some c → isBlank c = false) : Trims cs cs where
  between := ⟨[], [], by simp, by simp, by simp⟩
  first := hfirst
  last := hlast

theorem trims_of_forall (h : ∀ c ∈ cs, isBlank c = false) : Trims cs cs :=
  trims_self (fun c hc => h c (List.mem_of_head? hc)) (fun c hc => h c (List.mem_of_getLast? hc))

theorem not_isBlank_of_isDigit {c : Char} (h : c.isDigit) : isBlank c = false := by
  obtain ⟨hlow, hhigh⟩ : 48 ≤ c.toNat ∧ c.toNat ≤ 57 := Char.isDigit_iff_toNat.mp h
  simp only [isBlank, Bool.or_eq_false_iff, Bool.and_eq_false_iff, decide_eq_false_iff_not, beq_eq_false_iff_ne]
  omega

theorem trims_repr (n : Nat) : Trims n.repr.toList n.repr.toList :=
  trims_of_forall fun _ hc => not_isBlank_of_isDigit (isDigit_of_mem_repr hc)

theorem cut_append_cons (separator : Char) (front back : List Char)
    : cut separator (front ++ separator :: back) = cut separator front ++ cut separator back := by
  simp only [cut_eq_splitOn, List.splitOn_eq_splitOnP]
  exact List.splitOnP_append_cons front back (by simp)

end Text

namespace Config

open Text

/--
`DenotesLength text n`: the text without the blanks at its ends, and then without all underscores, spells `n`,
which is positive and fits in a machine word.
-/
def DenotesLength (text : String) (n : Nat) : Prop :=
  ∃ body, Trims text.toList body ∧ Spells (body.filter (· != '_')) n ∧ 1 ≤ n ∧ n ≤ UInt64.size - 1

theorem readTapeLength_eq_some_iff {text : String} {n : Nat}
    : readTapeLength text = some n ↔ DenotesLength text n := by
  unfold readTapeLength DenotesLength
  rw [exists_trims_iff, Option.filter_eq_some_iff, readWord_eq_some_iff, String.toList_ofList, maxWord,
    decide_eq_true_eq]
  constructor
  . intro ⟨⟨hspells, hword⟩, hpos⟩
    exact ⟨hspells, hpos, hword⟩
  . intro ⟨hspells, hpos, hword⟩
    exact ⟨⟨hspells, hword⟩, hpos⟩

/--
The lengths of tapes are exactly the positive machine words in decimal: with blanks around them and underscores
anywhere between, with leading zeros, with a plus sign or none. No other text is read, however long it is.
-/
theorem tape_lengths_are_positive_words (text : String)
    : (∀ n, readTapeLength text = some n ↔ DenotesLength text n) ∧
      (readTapeLength text = none ↔ ∀ n, ¬DenotesLength text n) := by
  refine ⟨fun n => readTapeLength_eq_some_iff, ?_⟩
  rw [Option.eq_none_iff_forall_ne_some]
  constructor
  . intro h n hn
    exact h n (readTapeLength_eq_some_iff.mpr hn)
  . intro h n hn
    exact h n (readTapeLength_eq_some_iff.mp hn)

-- Blanks are looked for before the underscores go, so those that an underscore protects stay.
example : readTapeLength "\t+00_18446744073709551615 " = some 18446744073709551615 ∧
    readTapeLength "18446744073709551616" = none ∧ readTapeLength "_ 5" = none := by
  decide +kernel

def switchText (switch : Bool) : String :=
  if switch then "true" else "false"

def assignmentLine (key raw : String) : String :=
  key ++ " = " ++ raw

def writtenLines (config : Config) : List String :=
  ["[machine]",
    assignmentLine "tape_length" config.tapeLength.repr,
    assignmentLine "debug" (switchText config.debug),
    assignmentLine "dump_file" ("\"" ++ config.dumpFile ++ "\"")]

def written (config : Config) : String :=
  "\n".intercalate config.writtenLines

theorem toList_assignmentLine (key raw : String)
    : (assignmentLine key raw).toList = key.toList ++ [' ', '=', ' '] ++ raw.toList := by
  rw [assignmentLine, String.toList_append, String.toList_append]
  rfl

/--
The characters of a key that neither end it nor start another kind of line.
-/
def isKeyChar (c : Char) : Bool :=
  !isBlank c && c != '=' && c != '#' && c != '['

theorem ofLine_assignmentLine {key raw : String} (hne : key.toList ≠ []) (hchars : key.toList.all isKeyChar)
    (hraw : raw.toList ≠ []) (htrims : Trims raw.toList raw.toList)
    : Entry.ofLine (assignmentLine key raw).toList = .assignment key (.ofList (unquote raw.toList)) := by
  have hkey : ∀ c ∈ key.toList, isBlank c = false ∧ c ≠ '=' ∧ c ≠ '#' ∧ c ≠ '[' := by
    intro c hc
    simpa [isKeyChar, and_assoc] using List.all_eq_true.mp hchars c hc
  rw [toList_assignmentLine, Entry.ofLine_eq_assignment_iff]
  generalize hline : key.toList ++ [' ', '=', ' '] ++ raw.toList = line
  obtain ⟨c, cs, hcons⟩ := List.exists_cons_of_ne_nil hne
  obtain ⟨hblank, _, hcomment, hbracket⟩ := hkey c (hcons ▸ List.mem_cons_self)
  have hhead : line.head? = some c := by
    rw [← hline, hcons]
    rfl
  have hlast : line.getLast? = raw.toList.getLast? := by
    rw [← hline, List.getLast?_append, List.getLast?_eq_some_getLast hraw, Option.some_or]
  have hself : Trims line line := by
    apply trims_self
    . rw [hhead]
      rintro _ ⟨⟩
      exact hblank
    . rw [hlast]
      exact htrims.last
  have hname : Trims key.toList key.toList := trims_of_forall fun c hc => (hkey c hc).1
  constructor
  . rw [ignored_iff, trims_iff.mp hself, hhead]
    rintro (rfl | hsharp)
    . simp at hhead
    . exact hcomment (Option.some.inj hsharp)
  . intro ⟨body, hbody, hfirst, _⟩
    obtain rfl := (trims_iff.mp hself).symm.trans (trims_iff.mp hbody)
    rw [hhead] at hfirst
    exact hbracket (Option.some.inj hfirst)
  . refine ⟨key.toList ++ [' '], ' ' :: raw.toList, raw.toList, ?_, ?_, ?_, ?_, ?_⟩
    . simpa [← hline] using hself
    . intro hmem
      obtain hmem | hmem := List.mem_append.mp hmem
      . exact (hkey '=' hmem).2.1 rfl
      . simp at hmem
    . exact ⟨⟨[], [' '], rfl, by simp, List.forall_mem_singleton.mpr rfl⟩, hname.first, hname.last⟩
    . exact ⟨⟨[' '], [], by simp, List.forall_mem_singleton.mpr rfl, by simp⟩, htrims.first, htrims.last⟩
    . rw [String.toList_ofList]
      exact unquotes_iff.mpr rfl

variable (config : Config)

theorem ofLine_length
    : Entry.ofLine (assignmentLine "tape_length" config.tapeLength.repr).toList
        =
      .assignment "tape_length" config.tapeLength.repr := by
  have hunquote : unquote config.tapeLength.repr.toList = config.tapeLength.repr.toList := by
    apply unquote_of_ne
    intro inner hinner
    have hquote : '"' ∈ config.tapeLength.repr.toList := hinner ▸ List.mem_cons_self
    exact absurd (isDigit_of_mem_repr hquote) (by decide)
  rw [ofLine_assignmentLine (by decide) (by decide), hunquote, String.ofList_toList]
  . rw [Nat.toList_repr]
    exact Nat.toDigits_ne_nil
  . exact trims_repr config.tapeLength

theorem ofLine_debug
    : Entry.ofLine (assignmentLine "debug" (switchText config.debug)).toList
        =
      .assignment "debug" (switchText config.debug) := by
  cases config.debug <;> decide +kernel

theorem ofLine_dumpFile
    : Entry.ofLine (assignmentLine "dump_file" ("\"" ++ config.dumpFile ++ "\"")).toList
        =
      .assignment "dump_file" config.dumpFile := by
  have hraw : ("\"" ++ config.dumpFile ++ "\"").toList = '"' :: (config.dumpFile.toList ++ ['"']) := by
    rw [String.toList_append, String.toList_append]
    rfl
  have htrims : Trims ('"' :: (config.dumpFile.toList ++ ['"'])) ('"' :: (config.dumpFile.toList ++ ['"'])) := by
    apply trims_self
    . rintro _ ⟨⟩
      rfl
    . rw [← List.cons_append, List.getLast?_concat]
      rintro _ ⟨⟩
      rfl
  rw [ofLine_assignmentLine (by decide) (by decide), hraw, unquote_quoted, String.ofList_toList]
  . rw [hraw]
    exact List.cons_ne_nil _ _
  . rwa [hraw]

theorem cut_written (hfile : '\n' ∉ config.dumpFile.toList)
    : cut '\n' config.written.toList = config.writtenLines.map String.toList := by
  have hdigits : '\n' ∉ config.tapeLength.repr.toList := by
    intro hmem
    exact absurd (isDigit_of_mem_repr hmem) (by decide)
  have hswitch : '\n' ∉ (switchText config.debug).toList := by
    cases config.debug <;> decide
  rw [written, String.toList_intercalate, cut_eq_splitOn]
  apply List.splitOn_intercalate
  . simpa [writtenLines, toList_assignmentLine, hswitch, hfile] using hdigits
  . exact List.cons_ne_nil _ _

variable {config} {ending : String} (earlier : String)

theorem cut_document (hfile : '\n' ∉ config.dumpFile.toList) (hending : ending = "" ∨ ending = "\n")
    : ∃ after, cut '\n' (earlier ++ "\n" ++ config.written ++ ending).toList
        =
      cut '\n' earlier.toList ++ (config.writtenLines.map String.toList ++ after) ∧ (after = [] ∨ after = [[]]) := by
  have hfront : (earlier ++ "\n" ++ config.written).toList = earlier.toList ++ '\n' :: config.written.toList := by
    rw [String.toList_append, String.toList_append, List.append_assoc]
    rfl
  obtain rfl | rfl := hending
  . refine ⟨[], ?_, .inl rfl⟩
    rw [String.append_empty, hfront, cut_append_cons, cut_written config hfile, List.append_nil]
  . refine ⟨[[]], ?_, .inr rfl⟩
    rw [String.toList_append, hfront, List.append_assoc, List.cons_append, cut_append_cons]
    change _ ++ cut '\n' (config.written.toList ++ '\n' :: []) = _
    rw [cut_append_cons, cut_written config hfile]
    rfl

theorem machineAssignments_document (hfile : '\n' ∉ config.dumpFile.toList) (hending : ending = "" ∨ ending = "\n")
    : ∃ before, machineAssignments ((cut '\n' (earlier ++ "\n" ++ config.written ++ ending).toList).map Entry.ofLine)
        =
      before ++ [("tape_length", config.tapeLength.repr), ("debug", switchText config.debug),
        ("dump_file", config.dumpFile)] := by
  have hheader : Entry.ofLine "[machine]".toList = .header "machine" := by decide +kernel
  obtain ⟨after, hcut, hafter⟩ := cut_document earlier hfile hending
  refine ⟨machineAssignments ((cut '\n' earlier.toList).map Entry.ofLine), ?_⟩
  rw [hcut, List.map_append, machineAssignments, machineAssignments_go_append, ← machineAssignments,
    List.append_right_inj]
  simp only [writtenLines, List.map_cons, List.map_nil, List.cons_append, List.nil_append, hheader,
    ofLine_length, ofLine_debug, ofLine_dumpFile]
  obtain rfl | rfl := hafter
  . rfl
  . rfl

theorem readTapeLength_repr {n : Nat} (hpos : 1 ≤ n) (hword : n < UInt64.size) : readTapeLength n.repr = some n := by
  rw [readTapeLength_eq_some_iff]
  have hfilter : n.repr.toList.filter (· != '_') = n.repr.toList := by
    rw [List.filter_eq_self]
    intro c hc
    rw [bne_iff_ne]
    rintro rfl
    exact absurd (isDigit_of_mem_repr hc) (by decide)
  exact ⟨n.repr.toList, trims_repr n, hfilter.symm ▸ spells_repr n, hpos, Nat.le_sub_one_of_lt hword⟩

theorem readSwitch_switchText (switch : Bool) : readSwitch (switchText switch) = some switch := by
  cases switch <;> decide +kernel

theorem readFileName_of_ne {name : String} (h : name ≠ "") : readFileName name = some name := by
  rw [readFileName, if_neg]
  simpa using h

/--
Every configuration can be written down and read back. Behind any text and after any configuration, the lines of a
section that hold a positive word as the tape length, a switch, and the name of a file that is not empty and has no
newline, result in exactly this configuration, with a newline behind the last line or without.
-/
theorem configuration_read_back (start config : Config) (earlier ending : String)
    (hpos : 1 ≤ config.tapeLength) (hword : config.tapeLength < UInt64.size) (hname : config.dumpFile ≠ "")
    (hfile : '\n' ∉ config.dumpFile.toList) (hending : ending = "" ∨ ending = "\n")
    : start.apply (.ofDocument (earlier ++ "\n" ++ config.written ++ ending)) = config := by
  obtain ⟨before, hassignments⟩ := machineAssignments_document earlier hfile hending
  have hlayer : Layer.ofDocument (earlier ++ "\n" ++ config.written ++ ending)
      = { tapeLength? := some config.tapeLength, debug? := some config.debug, dumpFile? := some config.dumpFile } := by
    simp only [Layer.ofDocument, hassignments]
    simp [lastValue?, readTapeLength_repr hpos hword, readSwitch_switchText, readFileName_of_ne hname]
  rw [hlayer]
  rfl

theorem configuration_read_back_marks
    : let config : Config := { tapeLength := 18446744073709551615, debug := true, dumpFile := "\"a\" = #[b]\r " }
      ({ tapeLength := 7 } : Config).apply
          (.ofDocument ("[machine]\ntape_length = 0\ndump_file = \"[x]" ++ "\n" ++ config.written ++ "\n"))
        =
      config := by
  intro config
  exact configuration_read_back _ config _ _ (by decide) (by decide) (by decide) (by decide) (.inr rfl)

end Config

end Brainfuck
