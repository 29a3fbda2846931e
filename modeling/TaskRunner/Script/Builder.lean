import TaskRunner.Grammar.ParseTree
import TaskRunner.Number.Parse
import TaskRunner.Script.Placement

/-!
# From parse trees to a script

A script is built from the trees of its phrases, one after the other, and a target from the trees of
its body. Each is looked at for its kind, and then for its text and the trees inside of it. A tree
may be out of place, or may lack a part or have one that nothing can be made of. The first error
ends it.
-/
namespace TaskRunner

open Grammar

/-- Why nothing can be built from a tree. -/
inductive BuildError where
  | misplaced (m : Misplacement)
  | missingValue
  | invalidNumber (text : String)
  | unexpected (text : String)
deriving DecidableEq, Repr

namespace BuildError

def message : BuildError → String
  | .misplaced m => m.message
  | .missingValue => "Missing value in assignment"
  | .invalidNumber text => "Invalid number '" ++ text ++ "'"
  | .unexpected text => "Unexpected '" ++ text ++ "' in expression"

def hint? : BuildError → Option String
  | .misplaced m => m.hint?
  | _ => none

end BuildError

/-- An error and the line of the tree that it is about. -/
abbrev Refusal := Nat × BuildError

/-- A phrase out of place is refused. -/
def PlacedError.refusal (e : PlacedError) : Refusal := (e.1, .misplaced e.2)

/-- The operator of a symbol. What is none of the others is a plus sign. -/
def BinOp.ofSymbol : List Char → BinOp
  | ['-'] => .sub
  | ['*'] => .mul
  | ['/'] => .div
  | ['%'] => .rem
  | _ => .add

namespace Grammar.ParseTree

def line (source : List Char) (t : ParseTree) : Nat := lineOf source t.start

def refuse {α : Type} (source : List Char) (t : ParseTree) (e : BuildError) : Except Refusal α :=
  .error (t.line source, e)

/-- What stands between the quotes of a string, and what it stands for. -/
def quoted (t : ParseTree) : String := String.ofList (Token.unescape t.inside)

mutual

/-- The expression of a tree. -/
def expr (source : List Char) : ParseTree → Except Refusal Expr
  | .node kind start rest inner =>
    let t : ParseTree := .node kind start rest inner
    match kind with
    | .expression => operation source inner
    | .term => operation source inner
    | .factor => signed source false none inner
    | .number =>
      match Number.parse? t.chars with
      | some x => .ok (.number x)
      | none => t.refuse source (.invalidNumber t.text)
    | .string => .ok (.text t.quoted)
    | .identifier => .ok (.var t.text)
    | _ => t.refuse source (.unexpected t.text)

/-- Operands with operators between them. With no operand there is nothing to say. -/
def operation (source : List Char) : List ParseTree → Except Refusal Expr
  | [] => .ok (.text "")
  | first :: rest =>
    match first.expr source with
    | .ok left => operations source left rest
    | .error e => .error e

/-- Operators and operands in turn, applied from the left. -/
def operations (source : List Char) (left : Expr) : List ParseTree → Except Refusal Expr
  | op :: operand :: rest =>
    match operand.expr source with
    | .ok right => operations source (.binary (.ofSymbol op.chars) left right) rest
    | .error e => .error e
  | _ => .ok left

/-- Minus signs and operands, of which the last one counts. -/
def signed (source : List Char) (negate : Bool) (value : Option Expr) :
    List ParseTree → Except Refusal Expr
  | [] =>
    let value := value.getD (.text "")
    .ok (if negate then .negate value else value)
  | part :: rest =>
    if part.kind = .minus then signed source true value rest
    else
      match part.expr source with
      | .ok e => signed source negate (some e) rest
      | .error e => .error e

end

/-- A comment without its mark. -/
def commentText (t : ParseTree) : String :=
  match t.chars with
  | '#' :: s => String.ofList s
  | s => String.ofList s

/-- The text of a help block, less its last line feed. -/
def helpText (t : ParseTree) : String :=
  match t.inner.find? fun p => p.kind = .helpText with
  | some p => String.ofList (Token.dropLastLineFeed p.chars)
  | none => ""

/-- A command without the blanks around it. -/
def commandText (t : ParseTree) : String := String.ofList (Text.trim t.inside)

/-- A declared argument. -/
def argDecl (t : ParseTree) : ArgDecl :=
  ⟨String.ofList t.inside, t.kind = .requiredArg, t.inner[1]?.map quoted⟩

def assignment (source : List Char) (t : ParseTree) : Except Refusal Assignment :=
  match t.inner[1]? with
  | none => t.refuse source .missingValue
  | some value =>
    match value.expr source with
    | .ok e => .ok ⟨String.ofList t.inside, e, t.line source⟩
    | .error e => .error e

/-- The code of an `exit`, if there is one. -/
def exitCode (source : List Char) (t : ParseTree) : Except Refusal (Option Expr) :=
  match t.inner.find? fun p => p.kind = .expression with
  | none => .ok none
  | some code =>
    match code.expr source with
    | .ok e => .ok (some e)
    | .error e => .error e

end Grammar.ParseTree

namespace TargetDecl

/-- Adds the phrase of a tree to a target's body. -/
def add (source : List Char) (t : TargetDecl) (p : ParseTree) : Except Refusal TargetDecl :=
  match p.kind with
  | .comment => .ok (t.push (.comment p.commentText))
  | .helpBlock =>
    if t.help.isSome then p.refuse source (.misplaced .secondHelp)
    else .ok { t with help := some p.helpText }
  | .assignment =>
    match p.assignment source with
    | .ok a => .ok (t.push (.assign a))
    | .error e => .error e
  | .commandLine => .ok (t.push (.command p.commandText (p.line source)))
  | .pythonLine => .ok (t.push (.python p.commandText (p.line source)))
  | .requiredArg | .optionalArg =>
    let a := p.argDecl
    if t.args.any (·.name == a.name) then
      p.refuse source (.misplaced (.secondArgument a.name t.name))
    else .ok (t.push (.arg a))
  | .exit =>
    match p.exitCode source with
    | .ok code => .ok (t.push (.exit code (p.line source)))
    | .error e => .error e
  | .yield => .ok (t.push .yield)
  | .targetLine | .targetBlock => p.refuse source (.misplaced (.targetInside t.name))
  | _ => .ok t

/-- The target of a tree. -/
def ofTree (source : List Char) (p : ParseTree) : Except Refusal TargetDecl :=
  let name := String.ofList p.inside
  match p.inner[1]? with
  | none => .ok ⟨name, none, [], p.line source⟩
  | some rest =>
    if p.kind = .targetLine then
      .ok (ofCommand name (p.line source) (String.ofList (Text.trim rest.chars)))
    else rest.inner.foldlM (add source) ⟨name, none, [], p.line source⟩

end TargetDecl

namespace Script

/-- Adds the phrase of a tree to the top level of a script. -/
def add (source : List Char) (s : Script) (p : ParseTree) : Except Refusal Script :=
  match p.kind with
  | .comment => .ok (s.push (.comment p.commentText))
  | .helpBlock =>
    if s.help.isSome then p.refuse source (.misplaced .secondHelp)
    else .ok { s with help := some p.helpText }
  | .assignment =>
    match p.assignment source with
    | .ok a => .ok (s.push (.assign a))
    | .error e => .error e
  | .targetLine | .targetBlock =>
    match TargetDecl.ofTree source p with
    | .ok t => (s.addTarget t).mapError PlacedError.refusal
    | .error e => .error e
  | .commandLine | .pythonLine => p.refuse source (.misplaced .commandOutside)
  | .requiredArg | .optionalArg => p.refuse source (.misplaced .argumentOutside)
  | .exit | .yield => p.refuse source (.misplaced .exitOutside)
  | _ => .ok s

/-- The script of the tree of its body. -/
def ofTree (source : List Char) (body : ParseTree) : Except Refusal Script :=
  body.inner.foldlM (add source) empty

end Script

namespace Diagnostic

def refused (source : String) (e : Refusal) : Diagnostic :=
  { atLine e.2.message e.1 source with hint := e.2.hint? }

end Diagnostic

end TaskRunner
