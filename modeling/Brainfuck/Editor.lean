/-!
The line editor: keys, the line being typed, and the history of lines that were entered before.
-/

namespace Brainfuck

inductive Key where
  | char (c : Char)
  | enter
  | previous
  | next
  | cancel
  | close
  deriving DecidableEq, Repr

/--
The keys behind the characters that a terminal sends. The arrow keys up and down come as sequences, with
the number of a modifier, 3 or 5, in them.
-/
def Key.ofChars : List Char → List Key
  | [] => []
  | '\x1b' :: '[' :: '1' :: ';' :: '3' :: 'A' :: rest => .previous :: ofChars rest
  | '\x1b' :: '[' :: '1' :: ';' :: '5' :: 'A' :: rest => .previous :: ofChars rest
  | '\x1b' :: '[' :: '1' :: ';' :: '3' :: 'B' :: rest => .next :: ofChars rest
  | '\x1b' :: '[' :: '1' :: ';' :: '5' :: 'B' :: rest => .next :: ofChars rest
  | '\r' :: rest => .enter :: ofChars rest
  | '\x03' :: rest => .cancel :: ofChars rest
  | '\x04' :: rest => .close :: ofChars rest
  | c :: rest => .char c :: ofChars rest

structure Walk where
  /-- The text the walk started from. Only lines that start with it are visited. -/
  start : List Char
  older : List (List Char)
  current? : Option (List Char)
  newer : List (List Char)
  deriving DecidableEq, Repr

namespace Walk

def startingAt (history : List (List Char)) (start : List Char) : Walk where
  start := start
  older := history
  current? := none
  newer := []

def accepts (w : Walk) (line : List Char) : Bool :=
  w.start.isPrefixOf line && w.current? != some line

def back (w : Walk) : Walk :=
  match w.older.dropWhile (! w.accepts ·) with
  | [] => w
  | line :: older =>
    let skipped := w.older.takeWhile (! w.accepts ·)
    { w with older, current? := some line, newer := skipped.reverse ++ w.current?.toList ++ w.newer }

def forward (w : Walk) : Option Walk :=
  match w.newer.dropWhile (! w.accepts ·) with
  | [] => none
  | line :: newer =>
    let skipped := w.newer.takeWhile (! w.accepts ·)
    some { w with newer, current? := some line, older := skipped.reverse ++ w.current?.toList ++ w.older }

def text (w : Walk) : List Char :=
  w.current?.getD w.start

end Walk

structure Editor where
  history : List (List Char) := []
  text : List Char := []
  walk? : Option Walk := none
  deriving DecidableEq, Repr

namespace Editor

def capacity : Nat := 1000

/--
Keep a line that was entered, unless it is empty or the newest line again.
-/
def remember (history : List (List Char)) (line : List Char) : List (List Char) :=
  if line.isEmpty || history.head? = some line then history else (line :: history).take capacity

def currentWalk (e : Editor) : Walk :=
  e.walk?.getD (.startingAt e.history e.text)

inductive Outcome where
  | proceed (editor : Editor)
  | enter (line : List Char) (editor : Editor)
  | quit (editor : Editor)

def press (e : Editor) : Key → Outcome
  | .char c => .proceed { e with text := e.text ++ [c], walk? := none }
  | .enter => .enter e.text { history := remember e.history e.text }
  | .previous =>
    let walk := e.currentWalk.back
    .proceed { e with text := walk.text, walk? := some walk }
  | .next =>
    match e.currentWalk.forward with
    | some walk => .proceed { e with text := walk.text, walk? := some walk }
    | none => .proceed { e with text := e.currentWalk.start, walk? := none }
  | .cancel => .quit { history := e.history }
  | .close => if e.text.isEmpty then .quit { history := e.history } else .proceed e

def readLine (e : Editor) : List Key → Option String × Editor × List Key
  | [] => (none, e, [])
  | key :: keys =>
    match e.press key with
    | .proceed e => readLine e keys
    | .enter line e => (some (.ofList line), e, keys)
    | .quit e => (none, e, keys)

end Editor

end Brainfuck
