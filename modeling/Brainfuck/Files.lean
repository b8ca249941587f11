import Brainfuck.Text.Cut
import Brainfuck.Text.Line

/-!
Files and the ways in which reading and writing them fails, and a tree of files in memory with the
rules by which a path finds its way through it.
-/

namespace Brainfuck

open Text (Bytes)

inductive FileError where
  | missing
  | notDirectory
  | directory
  | nulInName
  | malformed
  | other (cause : String)
  deriving DecidableEq, Repr

def FileError.message : FileError → String
  | missing => "No such file or directory (os error 2)"
  | notDirectory => "Not a directory (os error 20)"
  | directory => "Is a directory (os error 21)"
  | nulInName => "file name contained an unexpected NUL byte"
  | malformed => "stream did not contain valid UTF-8"
  | other cause => cause

structure Path where
  absolute : Bool
  parts : List String
  slashed : Bool
  deriving DecidableEq, Repr

def Path.ofString (text : String) : Except FileError Path :=
  let cs := text.toList
  if cs.contains '\x00' then
    .error .nulInName
  else if cs.isEmpty then
    .error .missing
  else
    .ok {
      absolute := cs.head? == some '/'
      parts := ((Text.cut '/' cs).filter (! ·.isEmpty)).map String.ofList
      slashed := cs.getLast? == some '/' }

inductive FileNode where
  | file (content : Bytes)
  | directory
  deriving DecidableEq, Repr

structure FileTree where
  /--
  The names that lead to the working directory. If nothing is known about its place, it has a name that no
  path can spell.
  -/
  home : List String := [""]
  entries : List (List String × FileNode) := []
  deriving Repr

namespace FileTree

/--
What the names lead to. The working directory and the directories on the way to it are always there.
-/
def node? (tree : FileTree) (names : List String) : Option FileNode :=
  if names.isPrefixOf tree.home then
    some .directory
  else
    (tree.entries.find? (·.1 == names)).map (·.2)

def insert (tree : FileTree) (names : List String) (node : FileNode) : FileTree :=
  { tree with entries := tree.entries.filter (·.1 != names) ++ [(names, node)] }

def insertWithParents (tree : FileTree) (names : List String) (node : FileNode) : FileTree :=
  let parents := (List.range names.length).tail.map fun count => tree.home ++ names.take count
  (parents.foldl addDirectory tree).insert (tree.home ++ names) node
where
  addDirectory (tree : FileTree) (names : List String) : FileTree :=
    if (tree.node? names).isSome then tree else tree.insert names .directory

def enter (tree : FileTree) (names : List String) (part : String) : Except FileError (List String) :=
  match tree.node? names with
  | none => .error .missing
  | some (.file _) => .error .notDirectory
  | some .directory =>
    match part with
    | "." => .ok names
    | ".." => .ok names.dropLast
    | part =>
      if (tree.node? (names ++ [part])).isSome then .ok (names ++ [part]) else .error .missing

def walk (tree : FileTree) (path : Path) (parts : List String) : Except FileError (List String) :=
  parts.foldlM tree.enter (if path.absolute then [] else tree.home)

def read (tree : FileTree) (text : String) : Except FileError Bytes := do
  let path ← Path.ofString text
  match tree.node? (← tree.walk path path.parts) with
  | none => .error .missing
  | some .directory => .error .directory
  | some (.file content) => if path.slashed then .error .notDirectory else .ok content

/--
The place of the file that is written under a path. The file itself need not exist, but the directory does.
-/
def target (tree : FileTree) (text : String) : Except FileError (List String) := do
  let path ← Path.ofString text
  match path.parts.getLast? with
  | none => .error .directory
  | some name =>
    let parent ← tree.walk path path.parts.dropLast
    match tree.node? parent with
    | none => .error .missing
    | some (.file _) => .error .notDirectory
    | some .directory =>
      if path.slashed || name == "." || name == ".." then
        .error .directory
      else
        match tree.node? (parent ++ [name]) with
        | some .directory => .error .directory
        | _ => .ok (parent ++ [name])

def write (tree : FileTree) (text : String) (content : Bytes) : Except FileError FileTree := do
  return tree.insert (← tree.target text) (.file content)

def changesSince (tree before : FileTree) : List (String × Bytes) :=
  tree.entries.filterMap fun (names, node) =>
    match node with
    | .directory => none
    | .file content =>
      if before.node? names = some (.file content) || !tree.home.isPrefixOf names then
        none
      else
        some ("/".intercalate (names.drop tree.home.length), content)

end FileTree

end Brainfuck
