import TaskRunner.Host.Files
import TaskRunner.Shell.Command

/-!
# The state of a shell

What a shell holds between two commands, where its streams go, and how a command can stop it. A
command is a function on the state that ends in a value or stops what is around it.
-/
namespace TaskRunner

/-- What was printed. -/
structure Output where
  out : String
  err : String
deriving DecidableEq, Repr, Inhabited

namespace Output

def none : Output := ⟨"", ""⟩

def append (a b : Output) : Output := ⟨a.out ++ b.out, a.err ++ b.err⟩

end Output

/-- How a process ended. -/
inductive Ending where
  | exited (code : Nat)
  | killed (signal : Nat)
deriving DecidableEq, Repr

/-- The status that others see. -/
def Ending.status : Ending → Nat
  | .exited code => code
  | .killed signal => 128 + signal

namespace Shell

/-- Where a stream goes. -/
inductive Sink where
  | out
  | err
  /-- To be read by the shell itself, with the number of texts that it is reading already. -/
  | capture (n : Nat)
  | file (l : Location)
  /-- What is written is lost. -/
  | away
  /-- Nothing can be written. -/
  | input
deriving DecidableEq, Repr

/-- `line` is the line of the current command and `seen` the last one that was read. `substituted`
is the status of the last command inside of a word. `calls`, `loops` and `apart` count the
functions, the loops and the separate shells around the current command, and `doomed` is a
signal that the shell has got from one of those. -/
structure State where
  host : Host
  name : String
  args : List String
  vars : Bindings String
  functions : List (String × Command)
  status : Nat
  substituted : Nat
  line : Nat
  seen : Nat
  calls : Nat
  loops : Nat
  apart : Nat
  doomed : Option Nat
  streams : List (Nat × Sink)
  output : Output
  captures : List String

/-- The ways to leave a command before its end. -/
inductive Stop where
  | ending (e : Ending)
  /-- Out of as many loops. -/
  | leaving (loops : Nat)
  /-- On to the next round of the last of as many loops. -/
  | again (loops : Nat)
  /-- Out of a function. -/
  | returning
deriving DecidableEq, Repr

abbrev Exec := ExceptT Stop (StateM State)

def State.start (h : Host) (name : String) (args : List String) : State where
  host := h
  name := name
  args := args
  vars := h.env
  functions := []
  status := 0
  substituted := 0
  line := 1
  seen := 1
  calls := 0
  loops := 0
  apart := 0
  doomed := none
  streams := [(0, .input), (1, .out), (2, .err)]
  output := .none
  captures := []

/-- The number of the process, as far as a command can tell. -/
def processNumber : String := "1"

namespace State

def sink? (s : State) (stream : Nat) : Option Sink :=
  (s.streams.find? (·.1 == stream)).map (·.2)

def withSink (s : State) (stream : Nat) (sink : Option Sink) : State :=
  let others := s.streams.filter (·.1 != stream)
  { s with streams := (sink.toList.map fun k => (stream, k)) ++ others }

/-- Writes to a stream, if that can be done. -/
def write? (s : State) (stream : Nat) (text : String) : Option State :=
  match s.sink? stream with
  | some .out => some { s with output := ⟨s.output.out ++ text, s.output.err⟩ }
  | some .err => some { s with output := ⟨s.output.out, s.output.err ++ text⟩ }
  | some (.capture n) => some { s with captures := s.captures.modify n (· ++ text) }
  | some (.file l) => some { s with host := s.host.appendText l text }
  | some .away => some s
  | _ => if text = "" then some s else none

/-- What complaints begin with. -/
def place (s : State) : String := s.name ++ ": " ++ toString s.line ++ ": "

end State

namespace Exec

/-- Writes to a stream, and says whether that could be done. -/
def write (stream : Nat) (text : String) : Exec Bool := do
  match (← get).write? stream text with
  | some s =>
    set s
    return true
  | none => return false

def complain (message : String) : Exec Unit := do
  let _ ← write 2 ((← get).place ++ message ++ "\n")

def setStatus (n : Nat) : Exec Unit := modify fun s => { s with status := n }

/-- Ends the shell with a complaint. -/
def fail {α : Type} (message : String) : Exec α := do
  complain message
  throw (.ending (.exited 2))

def assign (name value : String) : Exec Unit :=
  modify fun s => { s with vars := s.vars.insert name value }

/-- Runs something apart: of what it does to the shell only what it wrote and its status stay. A
signal for the shell reaches it when the part is over. -/
def aside (act : Exec Unit) : Exec Unit := do
  let s ← get
  let (result, after) := (act.run { s with apart := s.apart + 1 }).run
  let status :=
    match result with
    | .error (.ending e) => e.status
    | _ => after.status
  set { s with
    host := after.host
    output := after.output
    captures := after.captures
    doomed := after.doomed
    status := status }
  match s.apart, after.doomed with
  | 0, some signal => throw (.ending (.killed signal))
  | _, _ => pure ()

/-- What something writes to its output, run apart. -/
def captured (act : Exec Unit) : Exec String := do
  let s ← get
  let n := s.captures.length
  set ({ s with captures := s.captures ++ [""] }.withSink 1 (some (.capture n)))
  aside act
  let after ← get
  set { after with captures := after.captures.take n, streams := s.streams }
  return (after.captures[n]?).getD ""

end Exec

end Shell

end TaskRunner
