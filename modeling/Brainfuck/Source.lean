import Brainfuck.Files
import Brainfuck.Snapshot

/-!
Program texts that come from files, and snapshots that go to files.
-/

namespace Brainfuck

inductive SourceError where
  | notFound (path : String)
  | unreadable (path : String) (error : FileError)
  deriving DecidableEq, Repr

namespace SourceError

def message : SourceError → String
  | notFound path => "file \"" ++ path ++ "\" does not exist."
  | unreadable path error => "failed to read \"" ++ path ++ "\": " ++ error.message

def ofFileError (path : String) : FileError → SourceError
  | .missing => .notFound path
  | error => .unreadable path error

end SourceError

def sourceText (path : String) (found : Except FileError Text.Bytes) : Except SourceError String :=
  match found with
  | .error error => .error (.ofFileError path error)
  | .ok content =>
    match Text.decode? content with
    | none => .error (.ofFileError path .malformed)
    | some text => .ok text

def Snapshot.failureMessage (path : String) (error : FileError) : String :=
  "failed to write dump to " ++ path ++ ": " ++ error.message

end Brainfuck
