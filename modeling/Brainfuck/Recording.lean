import Brainfuck.Session

/-!
A world in memory for sessions: characters, records and texts are kept in the order in which they were
sent, and the answers to questions come from a source of any kind.
-/

namespace Brainfuck

structure Recording (σ : Type) where
  source : σ
  lines : List String := []
  printed : String := ""
  records : Array TraceRecord := #[]
  asked : Nat := 0
  written : String := ""

namespace Recording

variable {σ : Type}

def console (source : StateM σ (Option Char)) : Console (StateM (Recording σ)) where
  print c := modify fun r => { r with printed := r.printed.push c }
  trace record := modify fun r => { r with records := r.records.push record }
  ask := do
    let r ← get
    let (c, rest) := source.run r.source
    set { r with source := rest, asked := r.asked + 1 }
    return c

def session (source : StateM σ (Option Char)) : Session (StateM (Recording σ)) where
  console := console source
  nextLine := do
    let r ← get
    match r.lines with
    | [] => return none
    | line :: rest =>
      set { r with lines := rest }
      return some line
  write text := modify fun r => { r with written := r.written ++ text }

end Recording

def answersInOrder : StateM (List (Option Char)) (Option Char) := do
  match ← get with
  | [] => return none
  | answer :: rest =>
    set rest
    return answer

end Brainfuck
