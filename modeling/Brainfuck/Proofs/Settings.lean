import Brainfuck.Proofs.Decimal
import Brainfuck.Proofs.LineGrammar
import Brainfuck.World

/-!
This module contains the law of the settings: whatever configuration files and environments are applied one
after the other, each setting has the value of the last one that gives it a valid value. The settings are three
instances of one notion, and the law is proved once for all of them.
-/

namespace Brainfuck

namespace Config

inductive Source where
  | document (text : String)
  | environment (setting? : String → Option String)

def Source.layer : Source → Layer
  | .document text => .ofDocument text
  | .environment setting? => .ofEnvironment setting?

def configured (sources : List Source) : Config :=
  sources.foldl (fun config source => config.apply source.layer) {}

theorem configured_concat (sources : List Source) (source : Source)
    : configured (sources ++ [source]) = (configured sources).apply source.layer := by
  simp [configured]

/--
One of the settings: where configurations and layers keep it, the key and the environment variable that give
it, and how its values are read.
-/
structure Setting (α : Type) where
  value : Config → α
  given? : Layer → Option α
  key : String
  environmentName? : Option String
  read : String → Option α

namespace Setting

def tapeLength : Setting Nat where
  value := Config.tapeLength
  given? := Layer.tapeLength?
  key := "tape_length"
  environmentName? := some "SBFI_TAPE_LENGTH"
  read := readTapeLength

def debug : Setting Bool where
  value := Config.debug
  given? := Layer.debug?
  key := "debug"
  environmentName? := some "SBFI_DEBUG"
  read := readSwitch

def dumpFile : Setting String where
  value := Config.dumpFile
  given? := Layer.dumpFile?
  key := "dump_file"
  environmentName? := none
  read := readFileName

variable {α : Type} {setting : Setting α}

/--
A source gives the setting a valid value: in a configuration file the last assignment of the key in the section
`machine` is valid, in an environment the variable is there and valid.
-/
inductive ValidIn (setting : Setting α) : Source → α → Prop where
  | document {text raw : String} {value : α}
      (hraw : Decides (text.toList.splitOn '\n') setting.key raw)
      (hvalue : setting.read raw = some value)
      : ValidIn setting (.document text) value
  | environment {setting? : String → Option String} {name raw : String} {value : α}
      (hname : setting.environmentName? = some name) (hraw : setting? name = some raw)
      (hvalue : setting.read raw = some value)
      : ValidIn setting (.environment setting?) value

inductive Decided (setting : Setting α) (sources : List Source) : α → Prop where
  | last {before after : List Source} {source : Source} {value : α}
      (hsources : sources = before ++ source :: after) (hvalid : setting.ValidIn source value)
      (hafter : ∀ later ∈ after, ∀ other, ¬setting.ValidIn later other)
      : Decided setting sources value
  | default (hnone : ∀ source ∈ sources, ∀ other, ¬setting.ValidIn source other)
      : Decided setting sources (setting.value {})

/--
A source sets the setting to a value of its own, whatever the configuration is, or never changes it.
-/
def SetBy (setting : Setting α) (source : Source) : Prop :=
  (∃ value, setting.ValidIn source value ∧ ∀ config : Config, setting.value (config.apply source.layer) = value) ∨
    ((∀ value, ¬setting.ValidIn source value) ∧
      ∀ config : Config, setting.value (config.apply source.layer) = setting.value config)

structure Lawful (setting : Setting α) : Prop where
  apply : ∀ (config : Config) (layer : Layer),
    setting.value (config.apply layer) = (setting.given? layer).getD (setting.value config)
  document : ∀ text : String,
    setting.given? (.ofDocument text)
      =
    (lastValue? setting.key (machineAssignments ((Text.cut '\n' text.toList).map Entry.ofLine))).bind setting.read
  environment : ∀ setting? : String → Option String,
    setting.given? (.ofEnvironment setting?)
      =
    (setting.environmentName?.bind setting?).bind setting.read

theorem lawful_tapeLength : tapeLength.Lawful where
  apply _ _ := rfl
  document _ := by simp only [tapeLength, Layer.ofDocument]
  environment _ := by simp only [tapeLength, Layer.ofEnvironment, lengthVariable, Option.bind_some]

theorem lawful_debug : debug.Lawful where
  apply _ _ := rfl
  document _ := by simp only [debug, Layer.ofDocument]
  environment _ := by simp only [debug, Layer.ofEnvironment, debugVariable, Option.bind_some]

theorem lawful_dumpFile : dumpFile.Lawful where
  apply _ _ := rfl
  document _ := by simp only [dumpFile, Layer.ofDocument]
  environment _ := by simp only [dumpFile, Layer.ofEnvironment, Option.bind_none]

namespace Lawful

theorem given?_iff (hsetting : setting.Lawful) (source : Source) (value : α)
    : setting.given? source.layer = some value ↔ setting.ValidIn source value := by
  cases source with
  | document text =>
    rw [Source.layer, hsetting.document, Text.cut_eq_splitOn, Option.bind_eq_some_iff]
    constructor
    . intro ⟨raw, hraw, hvalue⟩
      exact .document (lastValue?_lines.mp hraw) hvalue
    . intro (.document hraw hvalue)
      exact ⟨_, lastValue?_lines.mpr hraw, hvalue⟩
  | environment setting? =>
    rw [Source.layer, hsetting.environment, Option.bind_eq_some_iff]
    constructor
    . intro ⟨raw, hraw, hvalue⟩
      obtain ⟨name, hname, hraw⟩ := Option.bind_eq_some_iff.mp hraw
      exact .environment hname hraw hvalue
    . intro (.environment hname hraw hvalue)
      exact ⟨_, Option.bind_eq_some_iff.mpr ⟨_, hname, hraw⟩, hvalue⟩

theorem setBy (hsetting : setting.Lawful) (source : Source) : setting.SetBy source := by
  cases hgiven : setting.given? source.layer with
  | some value =>
    refine .inl ⟨value, (hsetting.given?_iff source value).mp hgiven, fun config => ?_⟩
    rw [hsetting.apply, hgiven, Option.getD_some]
  | none =>
    refine .inr ⟨fun value hvalue => ?_, fun config => ?_⟩
    . rw [(hsetting.given?_iff source value).mpr hvalue] at hgiven
      contradiction
    . rw [hsetting.apply, hgiven, Option.getD_none]

theorem decided (hsetting : setting.Lawful) (sources : List Source)
    : setting.Decided sources (setting.value (configured sources)) := by
  induction sources using List.reverseRecOn with
  | nil => exact .default (fun _ hsource => absurd hsource List.not_mem_nil)
  | append_singleton sources source ih =>
    rw [configured_concat]
    obtain ⟨value, hvalid, hset⟩ | ⟨hnone, hkept⟩ := hsetting.setBy source
    . rw [hset]
      exact .last rfl hvalid (fun _ hlater => absurd hlater List.not_mem_nil)
    . rw [hkept]
      -- The new source gives nothing, so what decided before it still does.
      have hmem : ∀ {after : List Source}, (∀ later ∈ after, ∀ other, ¬setting.ValidIn later other) →
          ∀ later ∈ after ++ [source], ∀ other, ¬setting.ValidIn later other := by
        intro after hafter later hlater
        obtain hlater | hlater := List.mem_append.mp hlater
        . exact hafter later hlater
        . exact List.mem_singleton.mp hlater ▸ hnone
      generalize setting.value (configured sources) = value at ih
      cases ih with
      | last hsources hvalid hafter =>
        exact .last (by rw [hsources, List.append_assoc, List.cons_append]) hvalid (hmem hafter)
      | default hsources => exact .default (hmem hsources)

theorem value_apply_apply (hsetting : setting.Lawful) (config : Config) (source : Source)
    : setting.value ((config.apply source.layer).apply source.layer)
        =
      setting.value (config.apply source.layer) := by
  obtain ⟨value, _, hset⟩ | ⟨_, hkept⟩ := hsetting.setBy source
  . rw [hset, hset]
  . rw [hkept]

end Lawful

theorem Decided.of_read {sources : List Source} {value : α} (hdecided : setting.Decided sources value)
    {p : α → Prop} (hdefault : p (setting.value {}))
    (hread : ∀ raw value, setting.read raw = some value → p value) : p value := by
  cases hdecided with
  | last _ hvalid _ =>
    cases hvalid with
    | document _ hvalue => exact hread _ _ hvalue
    | environment _ _ hvalue => exact hread _ _ hvalue
  | default => exact hdefault

end Setting

theorem pos_and_lt_of_readTapeLength {text : String} {n : Nat} (h : readTapeLength text = some n)
    : 1 ≤ n ∧ n < UInt64.size := by
  obtain ⟨hword, hpos⟩ := Option.filter_eq_some_iff.mp h
  have hle : n ≤ UInt64.size - 1 := (Text.readWord_eq_some_iff.mp hword).2
  have hsize : 0 < UInt64.size := by decide
  exact ⟨Nat.succ_le_of_lt (by simpa using hpos), by omega⟩

theorem ne_empty_of_readFileName {text name : String} (h : readFileName text = some name) : name ≠ "" := by
  rw [readFileName] at h
  split at h
  . contradiction
  . rename_i hempty
    cases h
    simpa using hempty

theorem tapeLength_configured (sources : List Source)
    : 1 ≤ (configured sources).tapeLength ∧ (configured sources).tapeLength < UInt64.size := by
  apply (Setting.lawful_tapeLength.decided sources).of_read (p := fun n => 1 ≤ n ∧ n < UInt64.size)
  . decide
  . intro raw n hread
    simp only [Setting.tapeLength] at hread
    exact pos_and_lt_of_readTapeLength hread

theorem dumpFile_configured (sources : List Source) : (configured sources).dumpFile ≠ "" := by
  apply (Setting.lawful_dumpFile.decided sources).of_read (p := fun name => name ≠ "")
  . decide
  . exact fun _ _ => ne_empty_of_readFileName

theorem dumpFile_apply_environment (config : Config) (setting? : String → Option String)
    : (config.apply (Source.environment setting?).layer).dumpFile = config.dumpFile := by
  obtain ⟨_, hvalid, _⟩ | ⟨_, hkept⟩ := Setting.lawful_dumpFile.setBy (.environment setting?)
  . cases hvalid with
    | environment hname => contradiction
  . exact hkept config

theorem apply_layer_apply_layer (config : Config) (source : Source)
    : (config.apply source.layer).apply source.layer = config.apply source.layer := by
  have hlength := Setting.lawful_tapeLength.value_apply_apply config source
  have hdebug := Setting.lawful_debug.value_apply_apply config source
  have hdump := Setting.lawful_dumpFile.value_apply_apply config source
  simp only [Setting.tapeLength, Setting.debug, Setting.dumpFile] at hlength hdebug hdump
  rw [Config.mk.injEq]
  exact ⟨hlength, hdebug, hdump⟩

end Config

def World.HasConfig (w : World) (text : String) : Prop :=
  ∃ directory content, w.configDirectory? = some directory ∧
    w.files.read (directory ++ "/sbfi.toml") = .ok content ∧ Text.decode? content = some text

namespace CommandLine

open Config

inductive Resolves (length? : Option Nat) (config : Config) : Nat → Prop where
  | option {length : Nat} (hlength : length? = some length) (hpos : 0 < length) : Resolves length? config length
  | config (hzero : ∀ length, length? = some length → length = 0) : Resolves length? config config.tapeLength

theorem Resolves.eq {length? : Option Nat} {config : Config} {length : Nat} (h : Resolves length? config length)
    : resolveLength length? config = length := by
  unfold resolveLength
  cases h with
  | option hlength hpos => rw [hlength, Option.filter_some, if_pos (decide_eq_true hpos), Option.getD_some]
  | config hzero =>
    cases length? with
    | none => rfl
    | some length =>
      rw [hzero length rfl]
      rfl

theorem exists_resolves (length? : Option Nat) {config : Config} (hconfig : 1 ≤ config.tapeLength)
    : ∃ length, Resolves length? config length ∧ 1 ≤ length := by
  by_cases hzero : ∀ length, length? = some length → length = 0
  . exact ⟨config.tapeLength, .config hzero, hconfig⟩
  . simp only [not_forall] at hzero
    obtain ⟨length, hlength, hne⟩ := hzero
    have hpos : 0 < length := Nat.pos_of_ne_zero hne
    exact ⟨length, .option hlength hpos, hpos⟩

/--
A machine is the one that the options for the tape length and the debug mode and a configuration ask for. The
tape has the length of the option if that is positive and else the configured length, so it is never the length
of one cell that stands in for zero.
-/
structure Meets {n : Nat} (m : Machine n) (length? : Option Nat) (debug : Bool) (config : Config) : Prop where
  length_of_option : ∀ length, length? = some length → 0 < length → m.tape.cells.toList.length = length
  length_of_config : (∀ length, length? = some length → length = 0) →
    m.tape.cells.toList.length = config.tapeLength
  unclamped : 1 ≤ resolveLength length? config
  debug : m.debug = (debug || config.debug)

theorem meets_create (length? : Option Nat) (debug : Bool) {config : Config} (hconfig : 1 ≤ config.tapeLength)
    : Meets ((Machine.create (resolveLength length? config)).setDebug (debug || config.debug))
        length? debug config := by
  have hlength {length : Nat} (h : Resolves length? config length) (hpos : 1 ≤ length)
      : (Machine.create (resolveLength length? config)).tape.cells.toList.length = length := by
    rw [Vector.length_toList, h.eq, Nat.max_eq_left hpos]
  refine ⟨fun _ hoption hpos => hlength (.option hoption hpos) hpos, fun hzero => hlength (.config hzero) hconfig, ?_, rfl⟩
  obtain ⟨length, hresolves, hpos⟩ := exists_resolves length? hconfig
  rw [hresolves.eq]
  exact hpos

structure Builds {n : Nat} (machine? : Option (Machine n)) (length? : Option Nat) (debug : Bool) (config : Config)
    : Prop where
  meets : ∀ m, machine? = some m → Meets m length? debug config
  exists_iff : (∃ m, machine? = some m) ↔ resolveLength length? config < UInt64.size / 2

theorem builds_makeMachine? (length? : Option Nat) (debug : Bool) {config : Config} (hconfig : 1 ≤ config.tapeLength)
    : Builds (makeMachine? length? debug config) length? debug config := by
  unfold makeMachine?
  constructor
  . intro m hm
    obtain ⟨made, hmade, rfl⟩ := Option.map_eq_some_iff.mp hm
    rw [(Machine.make?_eq_some_iff.mp hmade).2]
    exact meets_create length? debug hconfig
  . simp only [← Option.ne_none_iff_exists', ne_eq, Option.map_eq_none_iff, Machine.make?_eq_none_iff]
    unfold Machine.maxLength UInt64.size
    omega

section Load

variable (inputIsTerminal errorIsTerminal : Bool) (w : World)

theorem run_fileLayer
    : ∃ layer, (World.host inputIsTerminal errorIsTerminal).fileLayer.run w = (layer, w) ∧
        ((∃ text, w.HasConfig text ∧ layer = (Source.document text).layer) ∨
          (∀ text, ¬w.HasConfig text) ∧ layer = {}) := by
  have hdirectory : (World.host inputIsTerminal errorIsTerminal).configDirectory?.run w
      = (w.configDirectory?, w) := rfl
  rw [Host.fileLayer, StateT.run_bind, hdirectory]
  unfold World.HasConfig
  cases w.configDirectory? with
  | none => exact ⟨_, rfl, .inr ⟨by simp, rfl⟩⟩
  | some directory =>
    have hread : (World.readFile (directory ++ "/sbfi.toml")).run w
        = (w.files.read (directory ++ "/sbfi.toml"), w) := rfl
    change ∃ layer, StateT.run (World.readFile (directory ++ "/sbfi.toml") >>= _) w = (layer, w) ∧ _
    rw [StateT.run_bind, hread]
    cases hfile : w.files.read (directory ++ "/sbfi.toml") with
    | error error => exact ⟨_, rfl, .inr ⟨by simp [hfile], rfl⟩⟩
    | ok content =>
      refine ⟨_, rfl, ?_⟩
      cases htext : Text.decode? content with
      | none => exact .inr ⟨by simp [hfile, htext], rfl⟩
      | some text => exact .inl ⟨text, ⟨directory, content, rfl, hfile, htext⟩, rfl⟩

theorem run_loadConfig
    : let environment := Source.environment fun name => w.environment.lookup name
      let loaded := (World.host inputIsTerminal errorIsTerminal).loadConfig.run w
      (∃ text, w.HasConfig text ∧ loaded = (configured [.document text, environment], w)) ∨
        (∀ text, ¬w.HasConfig text) ∧ loaded = (configured [environment], w) := by
  intro environment loaded
  obtain ⟨layer, hlayer, hsource⟩ := run_fileLayer inputIsTerminal errorIsTerminal w
  have hload : loaded = ((({} : Config).apply layer).apply environment.layer, w) := by
    change StateT.run (Host.loadConfig _) w = _
    rw [Host.loadConfig, StateT.run_bind, hlayer]
    rfl
  obtain ⟨text, htext, rfl⟩ | ⟨hnone, rfl⟩ := hsource
  . exact .inl ⟨text, htext, hload⟩
  . exact .inr ⟨hnone, hload⟩

end Load

/--
The last valid setting wins. Whatever sources are applied to the defaults, each setting is decided by the last
source that gives it a valid value; a source sets each setting in the same way whatever the configuration is;
and the machines of the commands get the tape length and the debug mode that the options and the settings name.
-/
theorem last_valid_setting_wins (sources : List Source)
    : (Setting.tapeLength.Decided sources (configured sources).tapeLength ∧
        Setting.debug.Decided sources (configured sources).debug ∧
        Setting.dumpFile.Decided sources (configured sources).dumpFile) ∧
      (∀ source, Setting.tapeLength.SetBy source ∧ Setting.debug.SetBy source ∧ Setting.dumpFile.SetBy source) ∧
      (∀ (config : Config) (source : Source),
        (config.apply source.layer).apply source.layer = config.apply source.layer) ∧
      (∀ (config : Config) (setting? : String → Option String),
        (config.apply (Source.environment setting?).layer).dumpFile = config.dumpFile) ∧
      (1 ≤ (configured sources).tapeLength ∧ (configured sources).tapeLength < UInt64.size ∧
        (configured sources).dumpFile ≠ "") ∧
      (∀ a : RunArguments,
        Builds (a.machine? (configured sources)) a.tapeLength? a.debug (configured sources)) ∧
      (∀ a : ReplArguments,
        Builds (a.machine? (configured sources)) a.tapeLength? a.debug (configured sources)) ∧
      (∀ (inputIsTerminal errorIsTerminal : Bool) (w : World),
        let environment := Source.environment fun name => w.environment.lookup name
        let loaded := (World.host inputIsTerminal errorIsTerminal).loadConfig.run w
        (∃ text, w.HasConfig text ∧ loaded = (configured [.document text, environment], w)) ∨
          (∀ text, ¬w.HasConfig text) ∧ loaded = (configured [environment], w)) := by
  obtain ⟨hpos, hword⟩ := tapeLength_configured sources
  refine ⟨⟨?_, ?_, ?_⟩, fun source => ⟨?_, ?_, ?_⟩, apply_layer_apply_layer, dumpFile_apply_environment,
    ⟨hpos, hword, dumpFile_configured sources⟩, fun a => ?_, fun a => ?_, run_loadConfig⟩
  . exact Setting.lawful_tapeLength.decided sources
  . exact Setting.lawful_debug.decided sources
  . exact Setting.lawful_dumpFile.decided sources
  . exact Setting.lawful_tapeLength.setBy source
  . exact Setting.lawful_debug.setBy source
  . exact Setting.lawful_dumpFile.setBy source
  . exact builds_makeMachine? a.tapeLength? a.debug hpos
  . exact builds_makeMachine? a.tapeLength? a.debug hpos

end CommandLine

end Brainfuck
