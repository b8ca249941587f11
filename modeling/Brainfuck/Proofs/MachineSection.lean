import Brainfuck.Config.Document
import Mathlib.Data.List.Induction

/-!
This module contains what the section `machine` of a configuration file assigns. An assignment belongs to the
section if the nearest header before it is that of the section, and a key has the value of its last assignment
there.
-/

namespace Brainfuck.Config

def EndsInMachine (entries : List Entry) : Prop :=
  ∃ earlier since, entries = earlier ++ .header "machine" :: since ∧ ∀ name, .header name ∉ since

def LastAssigned (entries : List Entry) (key value : String) : Prop :=
  ∃ before after, entries = before ++ .assignment key value :: after ∧ EndsInMachine before ∧
    ∀ front back other, after = front ++ .assignment key other :: back →
      ¬EndsInMachine (before ++ .assignment key value :: front)

variable {entries : List Entry} {entry : Entry} {key value : String}

theorem concat_eq_append_cons_iff {α : Type} {xs before after : List α} {x y : α}
    : xs ++ [x] = before ++ y :: after
        ↔
      (xs = before ∧ x = y ∧ after = []) ∨ ∃ front, after = front ++ [x] ∧ xs = before ++ y :: front := by
  cases after using List.reverseRecOn with
  | nil => simp
  | append_singleton front last =>
    rw [← List.cons_append, ← List.append_assoc, List.append_singleton_inj]
    constructor
    . rintro ⟨rfl, rfl⟩
      exact .inr ⟨front, rfl, rfl⟩
    . rintro (⟨_, _, hafter⟩ | ⟨other, hafter, rfl⟩)
      . simp at hafter
      . obtain ⟨rfl, rfl⟩ := List.append_singleton_inj.mp hafter
        exact ⟨rfl, rfl⟩

theorem not_endsInMachine_nil : ¬EndsInMachine [] := by
  intro ⟨earlier, since, hentries, _⟩
  simp at hentries

theorem endsInMachine_concat
    : EndsInMachine (entries ++ [entry])
        ↔
      entry = .header "machine" ∨ (EndsInMachine entries ∧ ∀ name, entry ≠ .header name) := by
  constructor
  . intro ⟨earlier, since, hentries, hsince⟩
    obtain ⟨_, hentry, _⟩ | ⟨front, rfl, hfront⟩ := concat_eq_append_cons_iff.mp hentries
    . exact .inl hentry
    . refine .inr ⟨⟨earlier, front, hfront, fun name hname => ?_⟩, fun name hname => ?_⟩
      . exact hsince name (List.mem_append_left _ hname)
      . exact hsince name (by simp [hname])
  . rintro (rfl | ⟨⟨earlier, since, rfl, hsince⟩, hentry⟩)
    . exact ⟨entries, [], rfl, fun _ => List.not_mem_nil⟩
    . refine ⟨earlier, since ++ [entry], by simp, fun name hname => ?_⟩
      obtain hname | hname := List.mem_append.mp hname
      . exact hsince name hname
      . exact hentry name (List.mem_singleton.mp hname).symm

theorem not_lastAssigned_nil : ¬LastAssigned [] key value := by
  intro ⟨before, after, hentries, _⟩
  simp at hentries

theorem lastAssigned_concat
    : LastAssigned (entries ++ [entry]) key value
        ↔
      (entry = .assignment key value ∧ EndsInMachine entries) ∨
        (LastAssigned entries key value ∧ ¬∃ other, entry = .assignment key other ∧ EndsInMachine entries) := by
  constructor
  . intro ⟨before, after, hentries, hbefore, hlast⟩
    obtain ⟨rfl, hentry, _⟩ | ⟨front, rfl, rfl⟩ := concat_eq_append_cons_iff.mp hentries
    . exact .inl ⟨hentry, hbefore⟩
    . refine .inr ⟨⟨before, front, rfl, hbefore, fun earlier later other hfront => ?_⟩, ?_⟩
      . exact hlast earlier (later ++ [entry]) other (by simp [hfront])
      . rintro ⟨other, rfl, hends⟩
        exact hlast front [] other rfl hends
  . rintro (⟨rfl, hends⟩ | ⟨⟨before, after, rfl, hbefore, hlast⟩, hentry⟩)
    . exact ⟨entries, [], rfl, hends, by simp⟩
    . refine ⟨before, after ++ [entry], by simp, hbefore, fun front back other hafter hends => ?_⟩
      obtain ⟨rfl, rfl, _⟩ | ⟨rest, _, rfl⟩ := concat_eq_append_cons_iff.mp hafter
      . exact hentry ⟨other, rfl, hends⟩
      . exact hlast front rest other rfl hends

def insideAfter (inside : Bool) (entries : List Entry) : Bool :=
  entries.foldl (fun inside entry => if let .header name := entry then name = "machine" else inside) inside

theorem insideAfter_iff : insideAfter false entries ↔ EndsInMachine entries := by
  induction entries using List.reverseRecOn with
  | nil => simp [insideAfter, not_endsInMachine_nil]
  | append_singleton entries entry ih =>
    rw [endsInMachine_concat, ← ih]
    cases entry <;> simp [insideAfter]

theorem machineAssignments_go_append (inside : Bool) (front back : List Entry)
    : machineAssignments.go inside (front ++ back)
        =
      machineAssignments.go inside front ++ machineAssignments.go (insideAfter inside front) back := by
  induction front generalizing inside with
  | nil => rfl
  | cons entry front ih =>
    cases entry with
    | ignored => simpa [machineAssignments.go, insideAfter] using ih inside
    | header name => simpa [machineAssignments.go, insideAfter] using ih (name = "machine")
    | assignment key value => cases inside <;> simpa [machineAssignments.go, insideAfter] using ih _

theorem lastValue?_concat (assignments : List (String × String)) (name : String)
    : lastValue? key (assignments ++ [(name, value)])
        =
      if name = key then some value else lastValue? key assignments := by
  simp [lastValue?]

theorem lastValue?_machineAssignments
    : lastValue? key (machineAssignments entries) = some value ↔ LastAssigned entries key value := by
  induction entries using List.reverseRecOn with
  | nil => simp [machineAssignments, machineAssignments.go, lastValue?, not_lastAssigned_nil]
  | append_singleton entries entry ih =>
    rw [lastAssigned_concat, ← ih, machineAssignments, machineAssignments_go_append, ← insideAfter_iff,
      ← machineAssignments]
    cases entry with
    | ignored => simp [machineAssignments.go]
    | header name => simp [machineAssignments.go]
    | assignment name given =>
      cases insideAfter false entries with
      | false => simp [machineAssignments.go]
      | true =>
        by_cases hname : name = key <;> simp [machineAssignments.go, lastValue?_concat, hname]

end Brainfuck.Config
