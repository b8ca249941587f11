/-!
The prompt for a character. A reader waits for a line of the user while the prompt waits for an event:
the line that the reader found, or an interrupt. An interrupted prompt leaves its reader behind, and the
line that this reader finds later answers the next prompt.
-/

namespace Brainfuck

inductive Prompt.Event where
  | line (c : Option Char)
  | interrupted
  deriving DecidableEq, Repr

structure Prompt where
  queue : List Prompt.Event := []
  pending : Bool := false
  /-- Whether there is a reader whose line has not been used. -/
  inFlight : Bool := false
  deriving DecidableEq, Repr

namespace Prompt

def text : String := "Input: "

def deliver (p : Prompt) (c : Option Char) : Prompt :=
  { p with queue := p.queue ++ [.line c] }

def interrupt (p : Prompt) : Bool × Prompt :=
  if p.pending then (true, { p with queue := p.queue ++ [.interrupted] }) else (false, p)

def takeEvent? (p : Prompt) : Option (Event × Prompt) :=
  match p.queue with
  | [] => none
  | event :: queue => some (event, { p with queue })

def useLine (p : Prompt) : Prompt :=
  { p with inFlight := false }

def startWaiting (p : Prompt) : Prompt :=
  { p with pending := true }

def stopWaiting (p : Prompt) : Prompt :=
  { p with pending := false }

def startReader (p : Prompt) : Prompt :=
  { p with inFlight := true }

/--
Before a prompt waits: drop the interrupts that nobody took, up to a line that arrived meanwhile. Such a
line is used, and its character is the answer.
-/
def drain (p : Prompt) : Option (Option Char) × Prompt :=
  match go p.queue with
  | (none, queue) => (none, { p with queue })
  | (some c, queue) => (some c, { p with queue }.useLine)
where
  go : List Event → Option (Option Char) × List Event
    | [] => (none, [])
    | .line c :: rest => (some c, rest)
    | .interrupted :: rest => go rest

def receive? (p : Prompt) : Option (Option Char × Prompt) :=
  match p.takeEvent? with
  | none => none
  | some (.line c, p) => some (c, p.stopWaiting.useLine)
  | some (.interrupted, p) => some (none, p.stopWaiting)

def hasReader (p : Prompt) : Bool :=
  p.inFlight && p.queue.all fun event => event = .interrupted

inductive Occurrence where
  | line (c : Option Char)
  | interrupt

def waitFor (p : Prompt) (occurrence : Occurrence) : Option Char × Prompt :=
  let p := p.startWaiting.startReader
  let p :=
    match occurrence with
    | .line c => p.deliver c
    | .interrupt => p.interrupt.2
  (p.receive?).getD (none, p)

end Prompt

structure FedPrompt where
  prompt : Prompt := {}
  fed : List (Option Char) := []

namespace FedPrompt

structure Reading where
  char : Option Char
  interrupted : Bool
  deriving DecidableEq, Repr

/--
Put a line in the queue. A reader that was left behind takes it at once.
-/
def feed (p : FedPrompt) (c : Option Char) : FedPrompt :=
  if p.prompt.hasReader then
    { p with prompt := p.prompt.deliver c }
  else
    { p with fed := p.fed ++ [c] }

def read (p : FedPrompt) : Reading × FedPrompt :=
  match p.prompt.drain with
  | (some char, prompt) => (⟨char, false⟩, { p with prompt })
  | (none, prompt) =>
    match p.fed with
    | c :: fed =>
      let (char, prompt) := prompt.waitFor (.line c)
      (⟨char, false⟩, { prompt, fed })
    | [] =>
      let (char, prompt) := prompt.waitFor .interrupt
      (⟨char, true⟩, { p with prompt })

end FedPrompt

end Brainfuck
