import Brainfuck.Proofs.Settings

/-!
This module contains the law of configuration files: each setting is read from the line that decides its key, and
nothing else in a file matters.
-/

namespace Brainfuck.Config

open Text

variable {line : List Char} {lines : List (List Char)} {key value name : String}

/--
`setting.ReadFrom lines config result`: if a line decides the setting, it has the value of that line where this
is valid; in all other cases it is what it was.
-/
structure Setting.ReadFrom {α : Type} (setting : Setting α) (lines : List (List Char)) (config result : Config)
    : Prop where
  decided : ∀ raw, Decides lines setting.key raw →
    setting.value result = (setting.read raw).getD (setting.value config)
  unassigned : (∀ raw, ¬Decides lines setting.key raw) → setting.value result = setting.value config

theorem Setting.Lawful.readFrom {α : Type} {setting : Setting α} (hsetting : setting.Lawful) (text : String)
    (config : Config) : setting.ReadFrom (cut '\n' text.toList) config (config.apply (.ofDocument text)) := by
  constructor
  . intro raw hraw
    rw [hsetting.apply, hsetting.document, lastValue?_lines.mpr hraw, Option.bind_some]
  . intro hnone
    have hlast : lastValue? setting.key (machineAssignments ((cut '\n' text.toList).map Entry.ofLine)) = none := by
      rw [Option.eq_none_iff_forall_ne_some]
      exact fun raw hraw => hnone raw (lastValue?_lines.mp hraw)
    rw [hsetting.apply, hsetting.document, hlast, Option.bind_none, Option.getD_none]

def knownKeys : List String :=
  [Setting.tapeLength.key, Setting.debug.key, Setting.dumpFile.key]

theorem ofDocument_congr {text other : String}
    (h : ∀ key ∈ knownKeys, ∀ raw, Decides (cut '\n' text.toList) key raw ↔ Decides (cut '\n' other.toList) key raw)
    : Layer.ofDocument text = Layer.ofDocument other := by
  have hlast : ∀ key ∈ knownKeys,
      lastValue? key (machineAssignments ((cut '\n' text.toList).map Entry.ofLine))
        =
      lastValue? key (machineAssignments ((cut '\n' other.toList).map Entry.ofLine)) := by
    intro key hkey
    apply Option.ext
    intro raw
    rw [lastValue?_lines, lastValue?_lines, h key hkey]
  have hlength := hlast "tape_length" (by simp [knownKeys, Setting.tapeLength])
  have hdebug := hlast "debug" (by simp [knownKeys, Setting.debug])
  have hdump := hlast "dump_file" (by simp [knownKeys, Setting.dumpFile])
  simp only [Layer.ofDocument, hlength, hdebug, hdump]

/--
The line behind some others does nothing: it starts no section and assigns none of the keys in the section
`machine`.
-/
structure Idle (before : List (List Char)) (line : List Char) : Prop where
  not_startsSection : ¬StartsSection line
  not_assigns : InMachine before → ∀ key ∈ knownKeys, ∀ value, ¬Assigns line key value

theorem lastValue?_append_cons_of_ne {front back : List (String × String)} (hname : name ≠ key)
    : lastValue? key (front ++ (name, value) :: back) = lastValue? key (front ++ back) := by
  simp [lastValue?, hname]

theorem Idle.decides_iff {before after : List (List Char)} (h : Idle before line) (hkey : key ∈ knownKeys)
    : Decides (before ++ line :: after) key value ↔ Decides (before ++ after) key value := by
  rw [← lastValue?_lines, ← lastValue?_lines, List.map_append, List.map_append, List.map_cons]
  unfold machineAssignments
  rw [machineAssignments_go_append, machineAssignments_go_append]
  cases hline : Entry.ofLine line with
  | ignored => rfl
  | header name => exact absurd (Entry.startsSection_iff_ofLine.mpr ⟨name, hline⟩) h.not_startsSection
  | assignment name given =>
    cases hinside : insideAfter false (before.map Entry.ofLine) with
    | false => rfl
    | true =>
      -- The line assigns some other key, and the search for the last value passes over it.
      have hmachine := endsInMachine_map.mp (insideAfter_iff.mp hinside)
      have hassigns := Entry.ofLine_eq_assignment_iff.mp hline
      have hname : name ≠ key := by
        intro heq
        subst heq
        exact h.not_assigns hmachine name hkey given hassigns
      rw [machineAssignments.go, if_pos rfl, lastValue?_append_cons_of_ne hname]

theorem decides_cut_intercalate (hlines : ∀ line ∈ lines, '\n' ∉ line)
    : Decides (cut '\n' (['\n'].intercalate lines)) key value ↔ Decides lines key value := by
  cases lines with
  | nil =>
    -- The empty text has one line, which is ignored.
    rw [← lastValue?_lines, ← lastValue?_lines]
    rfl
  | cons line lines => rw [cut_eq_splitOn, List.splitOn_intercalate _ hlines (by simp)]

/--
The grammar of configuration files. A text is cut into its lines, and each setting is decided by the last line of
the section `machine` that assigns its key: it takes the value of this line if that is valid, and else stays what
it was. No other line has an influence: taking away a line that does nothing leaves the settings as they are, and
so does any change of the text after which the same values decide.
-/
theorem document_decided_by_last_assignments (text : String) (config : Config)
    : let lines := cut '\n' text.toList
      let result := config.apply (.ofDocument text)
      (['\n'].intercalate lines = text.toList ∧ ∀ line ∈ lines, '\n' ∉ line) ∧
      (Setting.tapeLength.ReadFrom lines config result ∧ Setting.debug.ReadFrom lines config result ∧
        Setting.dumpFile.ReadFrom lines config result) ∧
      (∀ key value other, Decides lines key value → Decides lines key other → value = other) ∧
      (∀ before line after, lines = before ++ line :: after → Idle before line →
        config.apply (.ofDocument (.ofList (['\n'].intercalate (before ++ after)))) = result) ∧
      ∀ other : String,
        (∀ key ∈ knownKeys, ∀ raw, Decides (cut '\n' other.toList) key raw ↔ Decides lines key raw) →
        config.apply (.ofDocument other) = result := by
  intro lines result
  have hlines : ∀ line ∈ lines, '\n' ∉ line := fun line => not_mem_of_mem_cut
  refine ⟨⟨?_, hlines⟩, ⟨?_, ?_, ?_⟩, fun _ _ _ => Decides.unique, ?_, ?_⟩
  . rw [show lines = text.toList.splitOn '\n' from cut_eq_splitOn _ _, List.intercalate_splitOn]
  . exact Setting.lawful_tapeLength.readFrom text config
  . exact Setting.lawful_debug.readFrom text config
  . exact Setting.lawful_dumpFile.readFrom text config
  . intro before line after hsplit hidle
    have hrest : ∀ line ∈ before ++ after, '\n' ∉ line := by
      intro other hother
      apply hlines
      rw [hsplit]
      obtain hbefore | hafter := List.mem_append.mp hother
      . exact List.mem_append_left _ hbefore
      . exact List.mem_append_right _ (List.mem_cons_of_mem _ hafter)
    apply congrArg config.apply
    apply ofDocument_congr
    intro key hkey raw
    rw [String.toList_ofList, decides_cut_intercalate hrest, ← hidle.decides_iff hkey, ← hsplit]
  . intro other hother
    exact congrArg config.apply (ofDocument_congr hother)

-- An invalid value takes a valid one back, and a value may hold equals signs and a lone quote.
example
    : ({} : Config).apply
        (.ofDocument "[machine]\ntape_length = 7\ndump_file = \"a=b\n[other]\ndebug=on\n [machine] \ntape_length=0")
        =
      { dumpFile := "\"a=b" } := by
  decide +kernel

end Brainfuck.Config
