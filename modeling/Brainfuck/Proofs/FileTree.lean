import Brainfuck.Files

/-!
This module contains what writing a file does to a tree: the path that was written names the new content, and
at every other place there is what was there before. A path finds its way through directories only, and the
place that is written is none, so the way to it is the same before and after.
-/

namespace Brainfuck

open Text (Bytes)

theorem exists_of_bind_eq_ok {ε α β : Type} {x : Except ε α} {f : α → Except ε β} {b : β}
    (h : x >>= f = .ok b) : ∃ a, x = .ok a ∧ f a = .ok b := by
  cases x with
  | error e => contradiction
  | ok a => exact ⟨a, rfl, h⟩

namespace FileTree

variable {tree : FileTree} {place names next last : List String} {part : String}

section

variable (tree) (node : FileNode)

theorem node?_insert_self (h : ¬place <+: tree.home) : (tree.insert place node).node? place = some node := by
  have hfiltered : (tree.entries.filter (·.1 != place)).find? (·.1 == place) = none := by
    rw [List.find?_eq_none]
    intro entry hentry
    simpa using (List.mem_filter.1 hentry).2
  unfold node? insert
  rw [if_neg (by simpa using h), List.find?_append, hfiltered]
  simp

theorem node?_insert_of_ne (h : names ≠ place) : (tree.insert place node).node? names = tree.node? names := by
  have hfiltered : (tree.entries.filter (·.1 != place)).find? (·.1 == names)
      = tree.entries.find? (·.1 == names) := by
    rw [List.find?_filter]
    congr 1
    funext entry
    by_cases hentry : entry.1 = names <;> simp [hentry, h]
  unfold node? insert
  rw [List.find?_append, hfiltered]
  simp [Ne.symm h]

end

theorem not_prefix_home (h : tree.node? place ≠ some .directory) : ¬place <+: tree.home := by
  intro hplace
  apply h
  unfold node?
  rw [if_pos (by simpa using hplace)]

theorem node?_of_enter (h : tree.enter names part = .ok next) : tree.node? names = some .directory := by
  unfold enter at h
  split at h
  . contradiction
  . contradiction
  . next hnode => exact hnode

theorem enter_insert (hplace : tree.node? place ≠ some .directory) (node : FileNode)
    (h : tree.enter names part = .ok next) (hnext : tree.node? next = some .directory)
    : (tree.insert place node).enter names part = .ok next := by
  have hnode {other : List String} (hother : tree.node? other = some .directory)
      : (tree.insert place node).node? other = some .directory := by
    have hne : other ≠ place := by
      intro heq
      exact hplace (heq ▸ hother)
    rw [node?_insert_of_ne tree node hne, hother]
  have hnames := node?_of_enter h
  unfold enter at h ⊢
  rw [hnames] at h
  rw [hnode hnames]
  dsimp only at h ⊢
  split at h
  . exact h
  . exact h
  . split at h
    . cases h
      rw [hnode hnext]
      rfl
    . contradiction

theorem node?_of_foldlM_enter {parts : List String} (h : parts.foldlM tree.enter names = .ok last)
    (hlast : tree.node? last = some .directory) : tree.node? names = some .directory := by
  cases parts with
  | nil =>
    cases h
    exact hlast
  | cons part parts =>
    obtain ⟨next, hnext, _⟩ := exists_of_bind_eq_ok h
    exact node?_of_enter hnext

/--
A way that ends at a directory is still there after a place is filled that is none.
-/
theorem foldlM_enter_insert (hplace : tree.node? place ≠ some .directory) (node : FileNode)
    {parts : List String} (h : parts.foldlM tree.enter names = .ok last)
    (hlast : tree.node? last = some .directory)
    : parts.foldlM (tree.insert place node).enter names = .ok last := by
  induction parts generalizing names with
  | nil => exact h
  | cons part parts ih =>
    obtain ⟨next, hnext, hparts⟩ := exists_of_bind_eq_ok h
    rw [List.foldlM_cons, enter_insert hplace node hnext (node?_of_foldlM_enter hparts hlast)]
    exact ih hparts

structure Admits (tree : FileTree) (text : String) (path : Path) (before parent : List String)
    (name : String) : Prop where
  spelled : Path.ofString text = .ok path
  parts : path.parts = before ++ [name]
  slashed : path.slashed = false
  dot : name ≠ "."
  dots : name ≠ ".."
  way : tree.walk path before = .ok parent
  directory : tree.node? parent = some .directory
  last : tree.node? (parent ++ [name]) ≠ some .directory

theorem exists_admits_of_target {text : String} (h : tree.target text = .ok place)
    : ∃ path before parent name, tree.Admits text path before parent name ∧ place = parent ++ [name] := by
  obtain ⟨path, hpath, h⟩ := exists_of_bind_eq_ok h
  split at h
  . contradiction
  . next name hname =>
    obtain ⟨before, hparts⟩ := List.getLast?_eq_some_iff.1 hname
    rw [hparts, List.dropLast_concat] at h
    obtain ⟨parent, hwalk, h⟩ := exists_of_bind_eq_ok h
    split at h
    . contradiction
    . contradiction
    . next hparent =>
      split at h
      . contradiction
      . next hplain =>
        simp only [Bool.or_eq_true, beq_iff_eq, not_or, Bool.not_eq_true] at hplain
        obtain ⟨⟨hslashed, hdot⟩, hdots⟩ := hplain
        split at h
        . contradiction
        . next hlast =>
          cases h
          exact ⟨path, before, parent, name, ⟨hpath, hparts, hslashed, hdot, hdots, hwalk, hparent, hlast⟩, rfl⟩

theorem read_of_walk {text : String} {path : Path} {content : Bytes} (hpath : Path.ofString text = .ok path)
    (hslashed : path.slashed = false) (hwalk : tree.walk path path.parts = .ok place)
    (hnode : tree.node? place = some (.file content)) : tree.read text = .ok content := by
  simp [read, hpath, hwalk, hnode, hslashed, bind, Except.bind]

theorem Admits.read_insert {text name : String} {path : Path} {before parent : List String}
    (h : tree.Admits text path before parent name) (content : Bytes)
    : (tree.insert (parent ++ [name]) (.file content)).read text = .ok content := by
  have hself := node?_insert_self tree (.file content) (not_prefix_home h.last)
  have hparent : (tree.insert (parent ++ [name]) (.file content)).node? parent = some .directory := by
    rw [node?_insert_of_ne tree _ (by simp), h.directory]
  have hwalk : (tree.insert (parent ++ [name]) (.file content)).walk path before = .ok parent :=
    foldlM_enter_insert h.last _ h.way h.directory
  have henter : (tree.insert (parent ++ [name]) (.file content)).enter parent name = .ok (parent ++ [name]) := by
    unfold enter
    rw [hparent]
    dsimp only
    split
    . exact absurd rfl h.dot
    . exact absurd rfl h.dots
    . rw [hself]
      rfl
  apply read_of_walk h.spelled h.slashed _ hself
  unfold walk at hwalk ⊢
  rw [h.parts, List.foldlM_append, hwalk]
  exact (congrArg (· >>= pure) henter).trans rfl

/--
A file was written under a path: the path names the content, and at no other place has anything changed.
-/
structure Written (before after : FileTree) (text : String) (content : Bytes) : Prop where
  read : after.read text = .ok content
  others : ∃ place, before.target text = .ok place ∧ after.node? place = some (.file content) ∧
    ∀ names, names ≠ place → after.node? names = before.node? names

theorem written_of_write {text : String} {content : Bytes} {after : FileTree}
    (h : tree.write text content = .ok after) : Written tree after text content := by
  obtain ⟨place, htarget, hafter⟩ := exists_of_bind_eq_ok h
  obtain ⟨path, before, parent, name, hadmits, rfl⟩ := exists_admits_of_target htarget
  cases hafter
  refine ⟨hadmits.read_insert content, parent ++ [name], htarget, ?_, ?_⟩
  . exact node?_insert_self tree _ (not_prefix_home hadmits.last)
  . intro names hne
    exact node?_insert_of_ne tree _ hne

end FileTree

end Brainfuck
