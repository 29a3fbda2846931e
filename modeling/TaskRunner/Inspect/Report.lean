import TaskRunner.Inspect.Json
import TaskRunner.Registry.Basic
import TaskRunner.Text.Blank

/-!
# The targets as JSON

Help texts are trimmed, targets stand in the order of the script, and the variables of a target are
those assigned at the top level before it. A target without lines of Python has no field for them.
-/
namespace TaskRunner

def Value.toJson : Value → Json
  | .number x => .number x
  | .text s => .string s

namespace Inspect

def optional (s : Option String) : Json :=
  match s with
  | some text => .string text
  | none => .null

def help (s : Option String) : Json := optional (s.map Text.trimmed)

def strings (ss : List String) : Json := .array (ss.map Json.string)

def argument (a : ArgDecl) : Json :=
  .object [("name", .string a.name), ("required", .bool a.required), ("help", help a.help)]

def pythonField (lines : List String) : List (String × Json) :=
  if lines.isEmpty then [] else [("python", strings lines)]

def target (t : Target) : Json :=
  .object ([("name", .string t.name), ("help", help t.help),
      ("args", .array (t.args.map argument)), ("commands", strings t.commands)] ++
    pythonField t.pythonLines ++
    [("variables", .object (t.globals.entries.map fun e => (e.1, e.2.toJson)))])

end Inspect

def Registry.report (r : Registry) : Json :=
  .object [("help", Inspect.help r.help), ("targets", .array (r.targets.map Inspect.target))]

/-- The report on a registry as text. -/
def Registry.inspect (r : Registry) : String := r.report.pretty

end TaskRunner
