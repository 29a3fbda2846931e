import TaskRunner.Expr.Evaluation
import TaskRunner.Script.Basic

/-!
# Targets and their registry

A target that is ready to run: its assignments are evaluated, and it has the variables that were
assigned at the top level before it. The registry keeps targets in the order of the script, with no
two of one name.
-/
namespace TaskRunner

inductive Step where
  /-- Gives a variable a value for the steps that follow. -/
  | set (name : String) (value : Value)
  /-- A command for the shell. -/
  | run (template : String)
  /-- A line of Python. -/
  | python (template : String)
  /-- Ends the run, with the last status if there is no code or it is negative. -/
  | exit (code : Option Int)
  /-- Ends the run if the last command failed. -/
  | yield
deriving DecidableEq, Repr

structure Target where
  name : String
  help : Option String
  args : List ArgDecl
  globals : Scope
  steps : List Step
deriving DecidableEq, Repr

def Step.command? : Step → Option String
  | .run template => some template
  | _ => none

def Step.python? : Step → Option String
  | .python template => some template
  | _ => none

/-- The templates of the commands for the shell, in order. -/
def Target.commands (t : Target) : List String := t.steps.filterMap Step.command?

/-- The templates of the lines of Python, in order. -/
def Target.pythonLines (t : Target) : List String := t.steps.filterMap Step.python?

/-- Why a script that could be read cannot be loaded. -/
inductive LoadError where
  | evaluation (line : Nat) (fault : EvalError)
  | exitCode (line : Nat) (value : String)
  | duplicateTarget (name : String)
deriving DecidableEq, Repr

def LoadError.message : LoadError → String
  | .evaluation line fault => "line " ++ toString line ++ ": " ++ fault.message
  | .exitCode line value =>
    "line " ++ toString line ++ ": exit code must be a number, got \"" ++ value ++ "\""
  | .duplicateTarget name => "target '" ++ name ++ "' is already registered"

structure Registry where
  help : Option String
  targets : List Target
deriving DecidableEq, Repr

namespace Registry

def empty (help : Option String) : Registry := ⟨help, []⟩

def get? (r : Registry) (name : String) : Option Target := r.targets.find? (·.name == name)

/-- Adds a target after the others, if its name is free. The answer comes with the registry that is
there afterwards, also if it is an error. -/
def add (r : Registry) (t : Target) : Except LoadError Unit × Registry :=
  if (r.get? t.name).isSome then (.error (.duplicateTarget t.name), r)
  else (.ok (), { r with targets := r.targets ++ [t] })

/-- The registry with one more target, for callers that give up at an error. -/
def register (r : Registry) (t : Target) : Except LoadError Registry :=
  match r.add t with
  | (.ok _, r) => .ok r
  | (.error e, _) => .error e

theorem register_eq (r : Registry) (t : Target) :
    r.register t = if (r.get? t.name).isSome then .error (.duplicateTarget t.name)
      else .ok { r with targets := r.targets ++ [t] } := by
  unfold register add
  cases (r.get? t.name).isSome <;> rfl

/-- The targets in ascending order of name. -/
def sorted (r : Registry) : List Target :=
  r.targets.mergeSort fun a b => decide (a.name ≤ b.name)

end Registry

end TaskRunner
