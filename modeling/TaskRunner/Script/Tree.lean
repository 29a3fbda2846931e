import TaskRunner.Script.Basic

/-!
# The tree of a script

One line for the script, one for each item, and one for each statement of a target, drawn as a tree:

    ROOT [HAS_HELP]
    ├─ASSIGN: my_value = 42
    └─TARGET [HAS_HELP]: build
      └─SCRIPT: echo $my_value
-/
namespace TaskRunner

namespace Tree

def helpMark : Option String → String
  | some _ => " [HAS_HELP]"
  | none => ""

/-- The lines of one level. `row` gets the branch that stands before an entry and the indent of
what stands below it; the last entry has a closed branch and nothing to the left of its own rows. -/
def rows {α : Type} (row : String → String → α → List String) : List α → List String
  | [] => []
  | [a] => row "└─" "  " a
  | a :: rest => row "├─" "│ " a ++ rows row rest

end Tree

def Assignment.label (a : Assignment) : String :=
  "ASSIGN: " ++ a.name ++ " = " ++ a.value.toText

def ArgDecl.label (a : ArgDecl) : String :=
  (if a.required then "ARG_REQ" else "ARG_OPT") ++ Tree.helpMark a.help ++ ": " ++ a.name

def Statement.label : Statement → String
  | .comment text => "COMMENT: " ++ text
  | .assign a => a.label
  | .arg a => a.label
  | .command template _ => "SCRIPT: " ++ template
  | .python template _ => "SCRIPT_PY: " ++ template
  | .exit (some code) _ => "EXIT: " ++ code.toText
  | .exit none _ => "EXIT"
  | .yield => "YIELD"

def TargetDecl.label (t : TargetDecl) : String :=
  "TARGET" ++ Tree.helpMark t.help ++ ": " ++ t.name

def Item.rows (branch indent : String) : Item → List String
  | .comment text => [branch ++ "COMMENT: " ++ text]
  | .assign a => [branch ++ a.label]
  | .target t =>
    (branch ++ t.label) :: Tree.rows (fun b _ s => [indent ++ b ++ s.label]) t.body

/-- The lines of the tree. A line may itself hold line ends, if a text in it does. -/
def Script.rows (s : Script) : List String :=
  ("ROOT" ++ Tree.helpMark s.help) :: Tree.rows Item.rows s.items

def Script.tree (s : Script) : String := String.join (s.rows.map (· ++ "\n"))

end TaskRunner
