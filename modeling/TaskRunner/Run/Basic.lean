import TaskRunner.Registry.Basic
import TaskRunner.Template.Basic

/-!
# Running a target

The steps of a target are taken in order. Each command is rendered from the arguments of the run and
the variables in sight at that point, and handed to a runner. The runner is any function that gives
a status or an error, and may carry a state of its own from one command to the next. Its errors are
passed on as they are.
-/
namespace TaskRunner

/-- What a command is handed to. -/
inductive Interpreter where
  | shell
  | python
deriving DecidableEq, Repr

def Interpreter.label : Interpreter → String
  | .shell => "Shell"
  | .python => "Python"

/-- A command that was handed to the runner. -/
structure Call where
  via : Interpreter
  command : String
deriving DecidableEq, Repr

/-- Why a run ended without a status. -/
inductive RunError where
  | unknownTarget (name : String)
  | template (e : TemplateError)
  | spawn (command reason : String)
deriving DecidableEq, Repr

def RunError.message : RunError → String
  | .unknownTarget name => "Invalid target name: " ++ name
  | .template e => e.message
  | .spawn command reason => "failed to run `" ++ command ++ "`: " ++ reason

/-- Runs one command. -/
abbrev Runner (σ : Type) := Interpreter → String → σ → Except RunError Int × σ

/-- Starts one command and waits for its status. An error is the reason why it cannot be started. -/
abbrev Starter (σ : Type) := Interpreter → String → σ → Except String Int × σ

/-- Runs commands by starting them. One that cannot be started is named in the error. -/
def Starter.runner {σ : Type} (start : Starter σ) : Runner σ := fun via command state =>
  match start via command state with
  | (.ok status, state) => (.ok status, state)
  | (.error reason, state) => (.error (.spawn command reason), state)

/-- What is worth a line in the log. -/
inductive Event where
  | running (call : Call)
  | status (n : Int)
  | yielding (n : Int)
  | exit (n : Int)
deriving DecidableEq, Repr

def Event.level : Event → String
  | .running _ => "DEBUG"
  | .status _ => "DEBUG"
  | .yielding _ => "INFO"
  | .exit _ => "INFO"

/-- The line of an event in the log of a run of the named target. -/
def Event.message (target : String) : Event → String
  | .running call => target ++ ": running `" ++ call.command ++ "` (" ++ call.via.label ++ ")"
  | .status n => target ++ ": exit status " ++ toString n
  | .yielding n => target ++ ": yielding with status " ++ toString n
  | .exit n => target ++ ": exit " ++ toString n

/-- All that can be seen of a run, and the runner's state after it. -/
structure Run (σ : Type) where
  calls : List Call
  events : List Event
  result : Except RunError Int
  state : σ

namespace Run

variable {σ : Type}

/-- A run that has nothing more to do. -/
def finished (result : Except RunError Int) (events : List Event) (state : σ) : Run σ :=
  ⟨[], events, result, state⟩

/-- The run `r`, with a call before it. -/
def afterCall (call : Call) (events : List Event) (r : Run σ) : Run σ :=
  { r with calls := call :: r.calls, events := events ++ r.events }

end Run

/-- The context of a command: the arguments of the run and the variables in sight. -/
def Scope.context (args : List String) (scope : Scope) : Context := ⟨args, scope.map Value.render⟩

/-- The status of an `exit` step. -/
def exitStatus (code : Option Int) (status : Int) : Int :=
  match code with
  | some c => if 0 ≤ c then c else status
  | none => status

variable {σ : Type}

/-- Renders a command, hands it over, and goes on with its status and the runner's new state. -/
def runCommand (runner : Runner σ) (ctx : Context) (via : Interpreter) (template : String)
    (state : σ) (next : Int → σ → Run σ) : Run σ :=
  match Template.render ctx template with
  | .error e => .finished (.error (.template e)) [] state
  | .ok command =>
    let call : Call := ⟨via, command⟩
    match runner via command state with
    | (.error e, state) => .afterCall call [.running call] (.finished (.error e) [] state)
    | (.ok status, state) => .afterCall call [.running call, .status status] (next status state)

/-- Takes the steps of a target, from the scope, the last status and the runner's state so far. -/
def runSteps (runner : Runner σ) (args : List String) : List Step → Scope → Int → σ → Run σ
  | [], _, status, state => .finished (.ok status) [] state
  | .set name value :: rest, scope, status, state =>
    runSteps runner args rest (scope.insert name value) status state
  | .run template :: rest, scope, _, state =>
    runCommand runner (Scope.context args scope) .shell template state fun status state =>
      runSteps runner args rest scope status state
  | .python template :: rest, scope, _, state =>
    runCommand runner (Scope.context args scope) .python template state fun status state =>
      runSteps runner args rest scope status state
  | .exit code :: _, _, status, state =>
    .finished (.ok (exitStatus code status)) [.exit (exitStatus code status)] state
  | .yield :: rest, scope, status, state =>
    if 0 < status then .finished (.ok status) [.yielding status] state
    else runSteps runner args rest scope status state

/-- Runs a target with the given arguments. The status is zero before the first command. -/
def Target.run (runner : Runner σ) (args : List String) (t : Target) (state : σ) : Run σ :=
  runSteps runner args t.steps t.globals 0 state

/-- Runs the target of that name, if there is one. -/
def Registry.dispatch (runner : Runner σ) (r : Registry) (name : String) (args : List String)
    (state : σ) : Run σ :=
  match r.get? name with
  | some t => t.run runner args state
  | none => .finished (.error (.unknownTarget name)) [] state

/-- A runner that gives the replies of a list, one to each command, and status zero after that. -/
def Runner.scripted : Runner (List (Except String Int)) :=
  Starter.runner fun _ _ replies =>
    match replies with
    | [] => (.ok 0, [])
    | reply :: rest => (reply, rest)

end TaskRunner
