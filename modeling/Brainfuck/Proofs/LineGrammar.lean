import Brainfuck.Proofs.MachineSection
import Mathlib.Data.List.SplitOn

/-!
This module contains the grammar of configuration files, said of the characters of their lines and without the
reader: which lines are ignored, which start a section, which assign a value to a key, and which assignment of a
key decides its setting. The reader finds exactly these lines.
-/

namespace Brainfuck

namespace Text

structure Trims (cs body : List Char) : Prop where
  between : ∃ front back, cs = front ++ body ++ back ∧ (∀ c ∈ front, isBlank c) ∧ ∀ c ∈ back, isBlank c
  first : ∀ c, body.head? = some c → isBlank c = false
  last : ∀ c, body.getLast? = some c → isBlank c = false

variable {cs body : List Char} {separator : Char}

theorem head?_dropWhile {p : Char → Bool} {c : Char} (h : (cs.dropWhile p).head? = some c) : p c = false := by
  have hhead := List.head?_dropWhile_not p cs
  rw [h] at hhead
  exact hhead

theorem trims_trimList (cs : List Char) : Trims cs (trimList cs) := by
  have hfront := List.takeWhile_append_dropWhile (p := isBlank) (l := cs)
  have hback := List.takeWhile_append_dropWhile (p := isBlank) (l := (cs.dropWhile isBlank).reverse)
  have hsplit : cs.dropWhile isBlank
      = trimList cs ++ ((cs.dropWhile isBlank).reverse.takeWhile isBlank).reverse := by
    rw [trimList, dropEndWhile, ← List.reverse_append, hback, List.reverse_reverse]
  refine ⟨⟨cs.takeWhile isBlank, ((cs.dropWhile isBlank).reverse.takeWhile isBlank).reverse, ?_, ?_, ?_⟩, ?_, ?_⟩
  . rw [List.append_assoc, ← hsplit, hfront]
  . exact fun c hc => List.all_eq_true.mp List.all_takeWhile c hc
  . exact fun c hc => List.all_eq_true.mp List.all_takeWhile c (List.mem_reverse.mp hc)
  . intro c hc
    have hhead : (cs.dropWhile isBlank).head? = some c := by rw [hsplit, List.head?_append, hc, Option.some_or]
    exact head?_dropWhile hhead
  . intro c hc
    rw [trimList, dropEndWhile, List.getLast?_reverse] at hc
    exact head?_dropWhile hc

theorem trims_iff : Trims cs body ↔ trimList cs = body := by
  constructor
  . intro ⟨⟨front, back, hcs, hfront, hback⟩, hfirst, hlast⟩
    subst hcs
    cases body with
    | nil =>
      -- Where the blanks in front end is open here, but the first pass drops them all.
      have hblank : ∀ c ∈ front ++ [] ++ back, isBlank c := by
        rw [List.append_nil]
        exact List.forall_mem_append.mpr ⟨hfront, hback⟩
      rw [trimList, ← List.append_nil (front ++ [] ++ back), (span_of_head? hblank (by simp)).2]
      rfl
    | cons c body =>
      have hhead : ∀ d, (c :: body ++ back).head? = some d → isBlank d = false := by simpa using hfirst
      have hend : ∀ d, (c :: body).reverse.head? = some d → isBlank d = false := by rwa [List.head?_reverse]
      have hrear : ∀ d ∈ back.reverse, isBlank d := by simpa using hback
      rw [trimList, dropEndWhile, List.append_assoc, (span_of_head? hfront hhead).2, List.reverse_append,
        (span_of_head? hrear hend).2, List.reverse_reverse]
  . intro h
    subst h
    exact trims_trimList cs

theorem cut_eq_splitOn (separator : Char) (cs : List Char) : cut separator cs = cs.splitOn separator := by
  induction cs with
  | nil => rfl
  | cons c cs ih =>
    rw [cut_cons, ih]
    unfold addToPieces List.splitOn
    rw [List.splitOnP_cons_eq_if_modifyHead]
    by_cases hc : c = separator
    . simp [hc]
    . cases h : List.splitOnP (fun x => x == separator) cs with
      | nil => exact absurd h (List.splitOnP_ne_nil _ _)
      | cons piece pieces => simp [hc]

theorem not_mem_of_mem_cut {piece : List Char} (h : piece ∈ cut separator cs) : separator ∉ piece := by
  induction cs generalizing piece with
  | nil =>
    obtain rfl := List.mem_singleton.mp h
    exact List.not_mem_nil
  | cons c cs ih =>
    rw [cut_cons] at h
    unfold addToPieces at h
    split at h
    . obtain rfl | hpiece := List.mem_cons.mp h
      . exact List.not_mem_nil
      . exact ih hpiece
    . next hc =>
      split at h
      . obtain rfl := List.mem_singleton.mp h
        simpa using Ne.symm hc
      . next first pieces hcut =>
        rw [hcut] at ih
        obtain rfl | hpiece := List.mem_cons.mp h
        . have hfirst := ih List.mem_cons_self
          simp [Ne.symm hc, hfirst]
        . exact ih (List.mem_cons_of_mem _ hpiece)

end Text

namespace Config

open Text

def Ignored (line : List Char) : Prop :=
  ∃ body, Trims line body ∧ (body = [] ∨ body.head? = some '#')

def StartsSection (line : List Char) : Prop :=
  ∃ body, Trims line body ∧ body.head? = some '[' ∧ body.getLast? = some ']'

/--
`Unquotes raw value`: if the first and the last of two or more characters are double quotes, the value is what
is between them; else it is the text as it stands.
-/
inductive Unquotes : List Char → List Char → Prop where
  | quoted (value : List Char) : Unquotes ('"' :: (value ++ ['"'])) value
  | bare {raw : List Char} (h : ∀ value, raw ≠ '"' :: (value ++ ['"'])) : Unquotes raw raw

/--
A line gives a value to a key: it is not ignored and starts no section, and its first equals sign stands between
the two.
-/
structure Assigns (line : List Char) (key value : String) : Prop where
  not_ignored : ¬Ignored line
  not_startsSection : ¬StartsSection line
  parts : ∃ left right raw, Trims line (left ++ '=' :: right) ∧ '=' ∉ left ∧ Trims left key.toList ∧
    Trims right raw ∧ Unquotes raw value.toList

def InMachine (lines : List (List Char)) : Prop :=
  ∃ earlier line since, lines = earlier ++ line :: since ∧ Trims line "[machine]".toList ∧
    ∀ other ∈ since, ¬StartsSection other

def Decides (lines : List (List Char)) (key value : String) : Prop :=
  ∃ before line after, lines = before ++ line :: after ∧ InMachine before ∧ Assigns line key value ∧
    ∀ front later back other, after = front ++ later :: back → InMachine (before ++ line :: front) →
      ¬Assigns later key other

variable {line : List Char} {lines : List (List Char)} {key value name : String}

theorem exists_trims_iff {p : List Char → Prop} : (∃ body, Trims line body ∧ p body) ↔ p (trimList line) := by
  simp only [trims_iff, exists_eq_left']

theorem ignored_iff : Ignored line ↔ trimList line = [] ∨ (trimList line).head? = some '#' := by
  apply exists_trims_iff

theorem startsSection_iff : StartsSection line ↔ ∃ inner, trimList line = '[' :: (inner ++ [']']) := by
  unfold StartsSection
  rw [exists_trims_iff]
  constructor
  . intro ⟨hfirst, hlast⟩
    cases hbody : trimList line with
    | nil => simp [hbody] at hfirst
    | cons c body =>
      obtain ⟨inner, hinner⟩ := List.getLast?_eq_some_iff.mp hlast
      rw [hbody] at hfirst hinner
      obtain rfl : c = '[' := by simpa using hfirst
      cases inner with
      | nil => simp at hinner
      | cons d inner =>
        obtain ⟨_, rfl⟩ := List.cons.inj hinner
        exact ⟨inner, rfl⟩
  . intro ⟨inner, hinner⟩
    rw [hinner, ← List.cons_append]
    exact ⟨rfl, List.getLast?_concat⟩

theorem unquote_quoted (inner : List Char) : unquote ('"' :: (inner ++ ['"'])) = inner := by
  simp [unquote]

theorem unquote_of_ne {raw : List Char} (h : ∀ inner, raw ≠ '"' :: (inner ++ ['"'])) : unquote raw = raw := by
  unfold unquote
  split
  . split
    . next hlast =>
      obtain ⟨inner, rfl⟩ := List.getLast?_eq_some_iff.mp hlast
      exact absurd rfl (h inner)
    . rfl
  . rfl

theorem unquotes_iff {raw unquoted : List Char} : Unquotes raw unquoted ↔ unquote raw = unquoted := by
  constructor
  . intro h
    cases h with
    | quoted => exact unquote_quoted unquoted
    | bare h => exact unquote_of_ne h
  . intro h
    subst h
    by_cases hraw : ∃ inner, raw = '"' :: (inner ++ ['"'])
    . obtain ⟨inner, rfl⟩ := hraw
      rw [unquote_quoted]
      exact .quoted inner
    . rw [not_exists] at hraw
      rw [unquote_of_ne hraw]
      exact .bare hraw

namespace Entry

theorem ofAssignment_append {left : List Char} (hleft : '=' ∉ left) (right : List Char)
    : ofAssignment (left ++ '=' :: right)
        =
      .assignment (.ofList (trimList left)) (.ofList (unquote (trimList right))) := by
  have hne : ∀ c ∈ left, (c != '=') = true := by
    intro c hc
    simpa using ne_of_mem_of_not_mem hc hleft
  have hequals : ∀ c, ('=' :: right).head? = some c → (c != '=') = false := by simp
  obtain ⟨hkey, hvalue⟩ := span_of_head? hne hequals
  unfold ofAssignment
  rw [hkey, hvalue]

theorem ofAssignment_of_not_mem {cs : List Char} (h : '=' ∉ cs) : ofAssignment cs = .ignored := by
  have hne : ∀ c ∈ cs, (c != '=') = true := by
    intro c hc
    simpa using ne_of_mem_of_not_mem hc h
  unfold ofAssignment
  rw [← List.append_nil cs, (span_of_head? hne (by simp)).2]

theorem ofAssignment_eq_iff {cs : List Char}
    : ofAssignment cs = .assignment key value
        ↔
      ∃ left right raw, cs = left ++ '=' :: right ∧ '=' ∉ left ∧ Trims left key.toList ∧ Trims right raw ∧
        Unquotes raw value.toList := by
  constructor
  . intro h
    by_cases hmem : '=' ∈ cs
    . obtain ⟨left, right, rfl, hleft⟩ := List.eq_append_cons_of_mem hmem
      rw [ofAssignment_append hleft, Entry.assignment.injEq] at h
      obtain ⟨rfl, rfl⟩ := h
      refine ⟨left, right, trimList right, rfl, hleft, ?_, trims_trimList right, ?_⟩
      . rw [String.toList_ofList]
        exact trims_trimList left
      . rw [String.toList_ofList]
        exact unquotes_iff.mpr rfl
    . rw [ofAssignment_of_not_mem hmem] at h
      contradiction
  . intro ⟨left, right, raw, hcs, hleft, hkey, hraw, hvalue⟩
    rw [hcs, ofAssignment_append hleft, trims_iff.mp hkey, trims_iff.mp hraw, unquotes_iff.mp hvalue,
      String.ofList_toList, String.ofList_toList]

theorem ofLine_cases (line : List Char)
    : (Ignored line ∧ ofLine line = .ignored) ∨
      (∃ inner, trimList line = '[' :: (inner ++ [']']) ∧ ofLine line = .header (.ofList inner)) ∨
      (¬Ignored line ∧ ¬StartsSection line ∧ ofLine line = ofAssignment (trimList line)) := by
  rw [ignored_iff, startsSection_iff]
  unfold ofLine
  split
  . next hbody => exact .inl ⟨.inl hbody, rfl⟩
  . next hbody => exact .inl ⟨.inr (by rw [hbody]; rfl), rfl⟩
  . next rest hbody =>
    split
    . next hlast =>
      obtain ⟨inner, rfl⟩ := List.getLast?_eq_some_iff.mp hlast
      exact .inr (.inl ⟨inner, hbody, by rw [List.dropLast_concat]⟩)
    . next hlast =>
      refine .inr (.inr ⟨by simp [hbody], ?_, by rw [hbody]⟩)
      intro ⟨inner, hinner⟩
      rw [hbody] at hinner
      obtain ⟨_, rfl⟩ := List.cons.inj hinner
      exact hlast List.getLast?_concat
  . next hempty hcomment hbracket =>
    refine .inr (.inr ⟨?_, fun ⟨inner, hinner⟩ => hbracket _ hinner, rfl⟩)
    rintro (hbody | hbody)
    . exact hempty hbody
    . obtain ⟨rest, hrest⟩ := List.head?_eq_some_iff.mp hbody
      exact hcomment rest hrest

theorem ofAssignment_ne_header {cs : List Char} : ofAssignment cs ≠ .header name := by
  unfold ofAssignment
  split <;> simp

theorem ofLine_eq_header_iff : ofLine line = .header name ↔ Trims line ('[' :: (name.toList ++ [']'])) := by
  rw [trims_iff]
  constructor
  . intro h
    obtain ⟨_, hline⟩ | ⟨inner, hbody, hline⟩ | ⟨_, _, hline⟩ := ofLine_cases line
    . rw [hline] at h
      contradiction
    . rw [hline, Entry.header.injEq] at h
      rw [hbody, ← h, String.toList_ofList]
    . rw [hline] at h
      exact absurd h ofAssignment_ne_header
  . intro h
    unfold ofLine
    rw [h]
    simp

theorem startsSection_iff_ofLine : StartsSection line ↔ ∃ name, ofLine line = .header name := by
  simp only [startsSection_iff, ofLine_eq_header_iff, trims_iff]
  constructor
  . intro ⟨inner, hbody⟩
    exact ⟨.ofList inner, by rw [hbody, String.toList_ofList]⟩
  . intro ⟨name, hbody⟩
    exact ⟨name.toList, hbody⟩

theorem ofLine_eq_assignment_iff : ofLine line = .assignment key value ↔ Assigns line key value := by
  obtain ⟨hignored, hline⟩ | ⟨inner, hbody, hline⟩ | ⟨hignored, hsection, hline⟩ := ofLine_cases line
  . rw [hline]
    exact ⟨nofun, fun h => absurd hignored h.not_ignored⟩
  . rw [hline]
    exact ⟨nofun, fun h => absurd (startsSection_iff.mpr ⟨inner, hbody⟩) h.not_startsSection⟩
  . rw [hline, ofAssignment_eq_iff]
    constructor
    . intro ⟨left, right, raw, hbody, hparts⟩
      exact ⟨hignored, hsection, left, right, raw, trims_iff.mpr hbody, hparts⟩
    . intro ⟨_, _, left, right, raw, hbody, hparts⟩
      exact ⟨left, right, raw, trims_iff.mp hbody, hparts⟩

end Entry

theorem endsInMachine_map : EndsInMachine (lines.map Entry.ofLine) ↔ InMachine lines := by
  have hsince : ∀ since : List (List Char),
      (∀ name, .header name ∉ since.map Entry.ofLine) ↔ ∀ line ∈ since, ¬StartsSection line := by
    intro since
    simp only [Entry.startsSection_iff_ofLine, List.mem_map, not_exists, not_and]
    exact ⟨fun h line hline name => h name line hline, fun h name line hline => h line hline name⟩
  constructor
  . intro ⟨earlier, since, hlines, hnone⟩
    obtain ⟨earlier, rest, rfl, _, hrest⟩ := List.map_eq_append_iff.mp hlines
    obtain ⟨line, since, rfl, hline, rfl⟩ := List.map_eq_cons_iff.mp hrest
    exact ⟨earlier, line, since, rfl, Entry.ofLine_eq_header_iff.mp hline, (hsince since).mp hnone⟩
  . intro ⟨earlier, line, since, hlines, hline, hnone⟩
    have hheader : Entry.ofLine line = .header "machine" := Entry.ofLine_eq_header_iff.mpr hline
    refine ⟨earlier.map Entry.ofLine, since.map Entry.ofLine, ?_, (hsince since).mpr hnone⟩
    rw [hlines, List.map_append, List.map_cons, hheader]

theorem lastAssigned_map : LastAssigned (lines.map Entry.ofLine) key value ↔ Decides lines key value := by
  unfold LastAssigned Decides
  constructor
  . intro ⟨before, after, hlines, hbefore, hlast⟩
    obtain ⟨before, rest, rfl, rfl, hrest⟩ := List.map_eq_append_iff.mp hlines
    obtain ⟨line, after, rfl, hline, rfl⟩ := List.map_eq_cons_iff.mp hrest
    refine ⟨before, line, after, rfl, endsInMachine_map.mp hbefore, Entry.ofLine_eq_assignment_iff.mp hline, ?_⟩
    intro front later back other hafter hinside hlater
    apply hlast (front.map Entry.ofLine) (back.map Entry.ofLine) other
    . rw [hafter, List.map_append, List.map_cons, Entry.ofLine_eq_assignment_iff.mpr hlater]
    . rw [← hline, ← List.map_cons, ← List.map_append]
      exact endsInMachine_map.mpr hinside
  . intro ⟨before, line, after, hlines, hbefore, hline, hlast⟩
    have hassignment := Entry.ofLine_eq_assignment_iff.mpr hline
    refine ⟨before.map Entry.ofLine, after.map Entry.ofLine, ?_, endsInMachine_map.mpr hbefore, ?_⟩
    . rw [hlines, List.map_append, List.map_cons, hassignment]
    . intro front back other hafter hinside
      obtain ⟨front, rest, rfl, rfl, hrest⟩ := List.map_eq_append_iff.mp hafter
      obtain ⟨later, back, rfl, hlater, rfl⟩ := List.map_eq_cons_iff.mp hrest
      rw [← hassignment, ← List.map_cons, ← List.map_append] at hinside
      exact hlast front later back other rfl (endsInMachine_map.mp hinside)
        (Entry.ofLine_eq_assignment_iff.mp hlater)

theorem lastValue?_lines
    : lastValue? key (machineAssignments (lines.map Entry.ofLine)) = some value ↔ Decides lines key value := by
  rw [lastValue?_machineAssignments, lastAssigned_map]

theorem Decides.unique {other : String} (h : Decides lines key value) (hother : Decides lines key other)
    : value = other := by
  rw [← lastValue?_lines] at h hother
  exact Option.some.inj (h.symm.trans hother)

end Config

end Brainfuck
