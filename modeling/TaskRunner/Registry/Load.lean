import TaskRunner.Registry.Basic

/-!
# Loading a script

The items of a script are taken in order. An assignment at the top level is evaluated among those
before it. A target takes a copy of what is assigned so far, and its own assignments are evaluated
on top of that.
-/
namespace TaskRunner

/-- Evaluates an expression that stands on the given line. -/
def Expr.evalAt (scope : Scope) (line : Nat) (e : Expr) : Except LoadError Value :=
  match e.eval scope with
  | .ok v => .ok v
  | .error fault => .error (.evaluation line fault)

/-- The exit code that a value stands for. -/
def Value.exitCode (line : Nat) : Value → Except LoadError Int
  | .number x => .ok x.truncate
  | .text s => .error (.exitCode line s)

/-- The step of a statement, if it has one, and the scope after it. -/
def Statement.compile (scope : Scope) : Statement → Except LoadError (Scope × Option Step)
  | .comment _ => .ok (scope, none)
  | .arg _ => .ok (scope, none)
  | .assign a =>
    match a.value.evalAt scope a.line with
    | .ok v => .ok (scope.insert a.name v, some (.set a.name v))
    | .error e => .error e
  | .command template _ => .ok (scope, some (.run template))
  | .python template _ => .ok (scope, some (.python template))
  | .exit none _ => .ok (scope, some (.exit none))
  | .exit (some code) line =>
    match code.evalAt scope line with
    | .error e => .error e
    | .ok v =>
      match v.exitCode line with
      | .ok n => .ok (scope, some (.exit (some n)))
      | .error e => .error e
  | .yield => .ok (scope, some .yield)

/-- The steps of a body, from the scope before it. -/
def compileBody (scope : Scope) : List Statement → Except LoadError (List Step)
  | [] => .ok []
  | s :: rest =>
    match s.compile scope with
    | .error e => .error e
    | .ok (scope, step) =>
      match compileBody scope rest with
      | .error e => .error e
      | .ok steps => .ok (step.toList ++ steps)

def TargetDecl.compile (globals : Scope) (t : TargetDecl) : Except LoadError Target :=
  match compileBody globals t.body with
  | .ok steps => .ok ⟨t.name, t.help, t.args, globals, steps⟩
  | .error e => .error e

namespace Registry

/-- Takes one item of a script into the registry and the scope built so far. -/
def addItem : Registry × Scope → Item → Except LoadError (Registry × Scope)
  | (r, globals), .comment _ => .ok (r, globals)
  | (r, globals), .assign a =>
    match a.value.evalAt globals a.line with
    | .ok v => .ok (r, globals.insert a.name v)
    | .error e => .error e
  | (r, globals), .target t =>
    match t.compile globals with
    | .error e => .error e
    | .ok target =>
      match r.register target with
      | .ok r => .ok (r, globals)
      | .error e => .error e

/-- The registry of a script. -/
def load (script : Script) : Except LoadError Registry :=
  match script.items.foldlM addItem (empty script.help, .empty) with
  | .ok (r, _) => .ok r
  | .error e => .error e

end Registry

end TaskRunner
