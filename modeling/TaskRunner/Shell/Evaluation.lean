import TaskRunner.Shell.Builtin
import TaskRunner.Shell.Expansion
import TaskRunner.Shell.Reader

/-!
# Running commands

The lines of a text are read and run one after the other. A line that cannot be read ends the shell
before any of it is run. A command that the shell does not have is handed to `start`, which starts
other programs.

Loops and functions need a bound on the steps of a run. It is so large that only a script that would
not come to an end meets it.
-/
namespace TaskRunner.Shell

/-- Starts a program with arguments on a machine. -/
abbrev Start := Host → String → List String → Except HostError (Ending × Host × Output)

/-! ## Redirections -/

def openError (path : String) : Host.OpenError → String
  | .noDirectory => "cannot create " ++ path ++ ": Directory nonexistent"
  | .isDirectory => "cannot create " ++ path ++ ": Is a directory"

/-- Ends the shell because of a word that names no stream. -/
def badStream {α : Type} : Exec α := do
  modify fun s => { s with line := s.seen }
  Exec.fail "Syntax error: Bad fd number"

/-- A redirection with its word expanded. -/
structure Route where
  stream : Nat
  direction : Direction
  target : String
deriving DecidableEq, Repr

/-- The word of a duplicate is a digit or a dash. -/
def Route.isSound (r : Route) : Bool :=
  r.direction != .duplicate || r.target == "-" ||
    (r.target.length == 1 && r.target.toList.all Grammar.isDigit)

/-- Expands the words of redirections. -/
def routes (substitute : Nat → List Char → Exec String) : List Redirect → Exec (List Route)
  | [] => pure []
  | r :: rest => do
    let route : Route := ⟨r.stream, r.direction, ← expandText substitute r.target⟩
    if !route.isSound then badStream
    return route :: (← routes substitute rest)

/-- Where a redirection leads: a sink, or none for a stream that is closed. -/
def Route.sink (r : Route) : Exec (Except String (Option Sink)) := do
  let s ← get
  let opened (keep : Bool) : Exec (Except String (Option Sink)) := do
    match s.host.openToWrite ⟨r.target⟩ keep with
    | .ok (h, l) =>
      set { s with host := h }
      return .ok (some ((l.map Sink.file).getD .away))
    | .error e => return .error (openError r.target e)
  match r.direction with
  | .read =>
    match s.host.locate ⟨r.target⟩ with
    | .ok _ => return .ok (some .input)
    | .error _ => return .error ("cannot open " ++ r.target ++ ": No such file")
  | .write => opened false
  | .append => opened true
  | .readWrite => opened true
  | .duplicate =>
    if r.target = "-" then return .ok none
    match s.sink? (Number.ofDigits r.target.toList) with
    | some sink => return .ok (some sink)
    | none => return .error (r.target ++ ": Bad file descriptor")

/-- Redirects the streams in order, and says whether that could be done. A stream that is to become
another is closed first, so that nothing is heard of it if that was the one for complaints. -/
def followRoutes : List Route → Exec Bool
  | [] => pure true
  | r :: rest => do
    match ← r.sink with
    | .ok sink =>
      modify fun s => s.withSink r.stream sink
      followRoutes rest
    | .error message =>
      if r.direction = .duplicate then modify fun s => s.withSink r.stream none
      Exec.complain message
      return false

/-- Does something with redirected streams, unless they cannot be redirected. The streams are as
before afterwards, however it ends. -/
def redirecting (substitute : Nat → List Char → Exec String) (redirects : List Redirect)
    (act : Exec Unit) : Exec Bool := do
  let rs ← routes substitute redirects
  let streams := (← get).streams
  let restore : Exec Unit := modify fun s => { s with streams := streams }
  try
    let done ← followRoutes rs
    if done then act
    restore
    return done
  catch stop =>
    restore
    throw stop

/-! ## Programs -/

/-- What a shell says about a program that died of a signal, if anything. -/
def signalMessage? : Nat → Option String
  | 1 => some "Hangup"
  | 2 => none
  | 3 => some "Quit"
  | 4 => some "Illegal instruction"
  | 5 => some "Trace/breakpoint trap"
  | 6 => some "Aborted"
  | 7 => some "Bus error"
  | 8 => some "Floating point exception"
  | 9 => some "Killed"
  | 10 => some "User defined signal 1"
  | 11 => some "Segmentation fault"
  | 12 => some "User defined signal 2"
  | 13 => none
  | 14 => some "Alarm clock"
  | 15 => some "Terminated"
  | 16 => some "Stack fault"
  | 24 => some "CPU time limit exceeded"
  | 25 => some "File size limit exceeded"
  | 26 => some "Virtual timer expired"
  | 27 => some "Profiling timer expired"
  | 29 => some "I/O possible"
  | 30 => some "Power failure"
  | 31 => some "Bad system call"
  | n => some ("Real-time signal " ++ toString (n - 34))

/-- The environment of a program: the variables that the shell has got from its own, with their
values of now, and those that are assigned for this program only. -/
def programEnv (s : State) (assigned : List (String × String)) : Bindings String :=
  let own := s.host.env.entries.foldl (fun env e =>
    env.insert e.1 ((s.vars.get? e.1).getD e.2)) s.host.env
  assigned.foldl (fun env a => env.insert a.1 a.2) own

def runProgram (start : Start) (assigned : List (String × String)) (name : String)
    (args : List String) : Exec Nat := do
  let s ← get
  match start { s.host with env := programEnv s assigned } name args with
  | .ok (ending, h, output) =>
    set { s with host := { s.host with nodes := h.nodes } }
    let _ ← Exec.write 1 output.out
    let _ ← Exec.write 2 output.err
    match ending with
    | .killed n =>
      match signalMessage? n with
      | some message => let _ ← Exec.write 2 (message ++ "\n")
      | none => pure ()
    | .exited _ => pure ()
    return ending.status
  | .error e =>
    let (status, reason) :=
      match e with
      | .denied => (126, "Permission denied")
      | .notFound | .notDirectory => (127, if name = "" then "Permission denied" else "not found")
      | e => (126, e.message)
    Exec.complain (name ++ ": " ++ reason)
    return status

/-! ## Commands -/

/-- Runs one round of a loop, and says whether there may be another. -/
def oneRound (round : Exec Bool) : Exec Bool := do
  let loops := (← get).loops
  modify fun s => { s with loops := loops + 1 }
  let restore : Exec Unit := modify fun s => { s with loops := loops }
  try
    let go ← round
    restore
    return go
  catch stop =>
    restore
    match stop with
    | .leaving n => if n > 1 then throw (.leaving (n - 1)) else return false
    | .again n => if n > 1 then throw (.again (n - 1)) else return true
    | stop => throw stop

/-- Runs something for each value of a variable. -/
def forEach (name : String) (body : Exec Unit) : List String → Exec Unit
  | [] => pure ()
  | v :: rest => do
    Exec.assign name v
    let go ← oneRound do
      body
      return true
    if go then forEach name body rest

/-- How deep functions may call one another. -/
def callDepth : Nat := 1000

/-- Runs the body of a function with arguments of its own. -/
def callFunction (args : List String) (body : Exec Unit) : Exec Nat := do
  let s ← get
  if s.calls ≥ callDepth then
    Exec.fail ("Maximum function recursion depth (" ++ toString callDepth ++ ") reached")
  set { s with args := args, loops := 0, calls := s.calls + 1 }
  let restore : Exec Unit := modify fun t =>
    { t with args := s.args, loops := s.loops, calls := s.calls }
  try
    body
    restore
  catch stop =>
    restore
    match stop with
    | .returning => pure ()
    | stop => throw stop
  return (← get).status

/-- Assigns the expanded values in order, and gives them back. -/
def assignAll (substitute : Nat → List Char → Exec String) :
    List (String × Word) → Exec (List (String × String))
  | [] => pure []
  | (name, w) :: rest => do
    let value ← expandText substitute w
    Exec.assign name value
    return (name, value) :: (← assignAll substitute rest)

/-- The output of the commands in a text, without the line ends behind it. -/
def substitution (run : Command → Exec Unit) (line : Nat) (source : List Char) : Exec String := do
  match readText line source with
  | .error e => Exec.fail e.message
  | .ok c =>
    let status := (← get).status
    let text ← Exec.captured (run c)
    modify fun s => { s with substituted := s.status, status := status }
    return String.ofList (text.toList.reverse.dropWhile (· == '\n')).reverse

/-- Runs a simple command. `run` runs the commands in its words and the bodies of functions. -/
def runSimple (start : Start) (run : Command → Exec Unit) (line : Nat)
    (assigns : List (String × Word)) (words : List Word) (redirects : List Redirect) :
    Exec Unit := do
  let substitute := substitution run
  modify fun s => { s with line := line, substituted := 0 }
  let fields := (← words.mapM (expandFields substitute)).flatten
  match fields with
  | [] =>
    let done ← redirecting substitute redirects do
      let _ ← assignAll substitute assigns
      Exec.setStatus (← get).substituted
    if !done then Exec.setStatus 2
  | name :: args =>
    match Builtin.special? name with
    | some act =>
      let done ← redirecting substitute redirects do
        let _ ← assignAll substitute assigns
        Exec.setStatus (← act args)
      if !done then throw (.ending (.exited 2))
    | none =>
      let done ← redirecting substitute redirects do
        let vars := (← get).vars
        let assigned ← assignAll substitute assigns
        let function := (← get).functions.find? (·.1 == name)
        let status ←
          match function, Builtin.regular? name with
          | some (_, body), _ => callFunction args (run body)
          | none, some act => act args
          | none, none => runProgram start assigned name args
        if !assigns.isEmpty then modify fun s => { s with vars := vars }
        Exec.setStatus status
      if !done then Exec.setStatus 2

mutual

/-- Runs a command in at most `n` steps one inside the other. -/
def runCommand (start : Start) : Nat → Command → Exec Unit
  | 0, _ => throw (.ending (.exited 2))
  | n + 1, c => do
    let run := runCommand start n
    let succeeded : Exec Bool := do return (← get).status == 0
    match c with
    | .nothing => Exec.setStatus 0
    | .simple line assigns words redirects => runSimple start run line assigns words redirects
    | .pipeline parts =>
      let status := (← get).status
      for part in parts.dropLast do
        let _ ← Exec.captured (run part)
        Exec.setStatus status
      Exec.aside (run (parts.getLast?.getD .nothing))
    | .negation c =>
      run c
      Exec.setStatus (if ← succeeded then 1 else 0)
    | .both a b =>
      run a
      if ← succeeded then run b
    | .either a b =>
      run a
      if !(← succeeded) then run b
    | .sequence a b =>
      run a
      run b
    | .background c =>
      Exec.aside (run c)
      Exec.setStatus 0
    | .apart c => Exec.aside (run c)
    | .choice condition yes no =>
      run condition
      if ← succeeded then run yes else run no
    | .loop success condition body => runLoop start n success condition body 0
    | .each line name words body =>
      modify fun s => { s with line := line }
      let values ←
        match words with
        | some ws => do pure (← ws.mapM (expandFields (substitution run))).flatten
        | none => do pure (← get).args
      Exec.setStatus 0
      forEach name (run body) values
    | .select line subject cases =>
      modify fun s => { s with line := line }
      let text ← expandText (substitution run) subject
      let mut chosen : Option Command := none
      for (patterns, body) in cases do
        if chosen.isNone then
          let fits ← patterns.mapM (expandPattern (substitution run))
          if fits.any (·.fits text.toList) then chosen := some body
      run (chosen.getD .nothing)
    | .define name body =>
      modify fun s => { s with functions := (name, body) :: s.functions, status := 0 }
    | .redirected line c redirects =>
      modify fun s => { s with line := line }
      let done ← redirecting (substitution run) redirects (run c)
      if !done then Exec.setStatus 2
termination_by structural n => n

/-- Repeats a loop. `last` is the status of its last round. -/
def runLoop (start : Start) : Nat → Bool → Command → Command → Nat → Exec Unit
  | 0, _, _, _, _ => throw (.ending (.exited 2))
  | n + 1, success, condition, body, last => do
    let go ← oneRound do
      runCommand start n condition
      if ((← get).status == 0) != success then
        Exec.setStatus last
        return false
      runCommand start n body
      return true
    if go then runLoop start n success condition body (← get).status
termination_by structural n => n

end

/-- The bound on the steps of a run. -/
def patience : Nat := 100000

/-- Runs what is left of a text of the given length line by line, at most `n` lines of it. -/
def runLines (start : Start) (length : Nat) : Nat → Tokens → Exec Unit
  | 0, _ => pure ()
  | n + 1, ts =>
    match readLine length ts with
    | .error r => do
      modify fun s => { s with line := r.line }
      Exec.fail r.message
    | .ok (c, rest) => do
      modify fun s => { s with seen := (rest.head?.map (·.1)).getD s.seen }
      match c with
      | .nothing => pure ()
      | c => runCommand start patience c
      match rest with
      | (_, .lineEnd) :: rest => runLines start length n rest
      | _ => pure ()

/-- Runs a text on a machine, with the name and the arguments that its parameters stand for. -/
def run (start : Start) (h : Host) (name : String) (args : List String) (text : String) :
    Ending × Host × Output :=
  let ts := tokens 1 text.toList
  let (result, s) := ((runLines start text.length ts.length ts).run (.start h name args)).run
  let ending :=
    match result with
    | .error (.ending e) => e
    | _ => .exited s.status
  (ending, s.host, s.output)

end TaskRunner.Shell
