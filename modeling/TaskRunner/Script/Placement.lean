import TaskRunner.Diagnostic.Basic
import TaskRunner.Grammar.Phrase

/-!
# Phrases in their places

Phrases become a script if each stands where it may: commands, arguments, `exit` and `yield` inside
a target, targets outside of one, one help block for the script and one for each target, and no two
targets, or arguments of a target, of one name. Phrases are taken in the order of the script, and
the first one out of place is reported.
-/
namespace TaskRunner

open Grammar

/-- Why a phrase cannot stand where it does. -/
inductive Misplacement where
  | commandOutside
  | argumentOutside
  | exitOutside
  | targetInside (outer : String)
  | secondHelp
  | secondTarget (name : String)
  | secondArgument (arg target : String)
deriving DecidableEq, Repr

namespace Misplacement

def message : Misplacement → String
  | .commandOutside => "Commands must belong to a target"
  | .argumentOutside => "Arguments can only be declared inside a target"
  | .exitOutside => "`exit` and `yield` are only allowed inside a target"
  | .targetInside outer => "Target '" ++ outer ++ "' cannot contain another target"
  | .secondHelp => "Help block has already been defined for the current scope."
  | .secondTarget name => "Target '" ++ name ++ "' is already defined"
  | .secondArgument arg target =>
    "Argument '" ++ arg ++ "' is already declared for '" ++ target ++ "'"

def hint? : Misplacement → Option String
  | .commandOutside =>
    some "Use `name: command`, or put `$ command` inside `name \x7b ... \x7d`."
  | .targetInside _ =>
    some "Close the enclosing target with `\x7d` before defining the next one."
  | _ => none

end Misplacement

/-- Line of the phrase that starts where `rest` is what is left of the script. -/
def lineOf (source rest : List Char) : Nat := 1 + (source.count '\n' - rest.count '\n')

/-- A misplacement and the line of the phrase. -/
abbrev PlacedError := Nat × Misplacement

theorem any_name_iff {α : Type} {name : α → String} {xs : List α} {n : String} :
    xs.any (name · == n) = true ↔ n ∈ xs.map name := by
  simp [List.any_eq_true]

namespace TargetDecl

def push (t : TargetDecl) (s : Statement) : TargetDecl := { t with body := t.body ++ [s] }

theorem args_push (t : TargetDecl) (s : Statement) : (t.push s).args = t.args ++ s.arg?.toList := by
  cases h : s.arg? <;> simp [args, push, h]

/-- Adds a phrase, standing on the given line, to a target's body. -/
def accept (t : TargetDecl) (line : Nat) : Phrase → Except PlacedError TargetDecl
  | .comment text => .ok (t.push (.comment text))
  | .help text =>
    if t.help.isSome then .error (line, .secondHelp) else .ok { t with help := some text }
  | .assign name value => .ok (t.push (.assign ⟨name, value, line⟩))
  | .command text => .ok (t.push (.command text line))
  | .python text => .ok (t.push (.python text line))
  | .arg a =>
    if t.args.any (·.name == a.name) then .error (line, .secondArgument a.name t.name)
    else .ok (t.push (.arg a))
  | .exit code => .ok (t.push (.exit code line))
  | .yield => .ok (t.push .yield)
  | .oneLine _ _ => .error (line, .targetInside t.name)
  | .block _ _ => .error (line, .targetInside t.name)

/-- A target with a body in braces. -/
def ofPhrases (source : List Char) (name : String) (line : Nat) (body : List Placed) :
    Except PlacedError TargetDecl :=
  body.foldlM (fun t p => t.accept (lineOf source p.1) p.2) ⟨name, none, [], line⟩

/-- A target with one command. -/
def ofCommand (name : String) (line : Nat) (command : String) : TargetDecl :=
  ⟨name, none, [.command command line], line⟩

end TargetDecl

def Item.target? : Item → Option TargetDecl
  | .target t => some t
  | _ => none

namespace Script

def empty : Script := ⟨none, []⟩

/-- The targets, in order. -/
def targets (s : Script) : List TargetDecl := s.items.filterMap Item.target?

def push (s : Script) (item : Item) : Script := { s with items := s.items ++ [item] }

theorem targets_push (s : Script) (item : Item) :
    (s.push item).targets = s.targets ++ item.target?.toList := by
  cases h : item.target? <;> simp [targets, push, h]

def addTarget (s : Script) (t : TargetDecl) : Except PlacedError Script :=
  if s.targets.any (·.name == t.name) then .error (t.line, .secondTarget t.name)
  else .ok (s.push (.target t))

/-- Adds a phrase, standing on the given line, to the top level of a script. -/
def accept (source : List Char) (s : Script) (line : Nat) : Phrase → Except PlacedError Script
  | .comment text => .ok (s.push (.comment text))
  | .help text =>
    if s.help.isSome then .error (line, .secondHelp) else .ok { s with help := some text }
  | .assign name value => .ok (s.push (.assign ⟨name, value, line⟩))
  | .oneLine name command => s.addTarget (TargetDecl.ofCommand name line command)
  | .block name body =>
    match TargetDecl.ofPhrases source name line body with
    | .ok t => s.addTarget t
    | .error e => .error e
  | .command _ => .error (line, .commandOutside)
  | .python _ => .error (line, .commandOutside)
  | .arg _ => .error (line, .argumentOutside)
  | .exit _ => .error (line, .exitOutside)
  | .yield => .error (line, .exitOutside)

def ofPhrases (source : List Char) (phrases : List Placed) : Except PlacedError Script :=
  phrases.foldlM (fun s p => s.accept source (lineOf source p.1) p.2) empty

end Script

namespace Diagnostic

def misplaced (source : String) (e : PlacedError) : Diagnostic :=
  { atLine e.2.message e.1 source with hint := e.2.hint? }

end Diagnostic

end TaskRunner
