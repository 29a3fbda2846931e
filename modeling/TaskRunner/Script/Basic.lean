import TaskRunner.Expr.Basic

/-!
# Scripts

A script holds comments, assignments and targets, in the order in which they are written, and may
have a help text. A target has a body of statements and may have a help text of its own. Lines are
counted from one; they are kept where a later stage may have to name them in a message.
-/
namespace TaskRunner

structure Assignment where
  name : String
  value : Expr
  line : Nat
deriving DecidableEq, Repr

/-- A declared argument. It documents the target: values still arrive by position. -/
structure ArgDecl where
  name : String
  required : Bool
  help : Option String
deriving DecidableEq, Repr

/-- What a target's body may hold. -/
inductive Statement where
  | comment (text : String)
  | assign (a : Assignment)
  | arg (a : ArgDecl)
  | command (template : String) (line : Nat)
  | python (template : String) (line : Nat)
  | exit (code : Option Expr) (line : Nat)
  | yield
deriving DecidableEq, Repr

structure TargetDecl where
  name : String
  help : Option String
  body : List Statement
  line : Nat
deriving DecidableEq, Repr

/-- What the top level of a script may hold. -/
inductive Item where
  | comment (text : String)
  | assign (a : Assignment)
  | target (t : TargetDecl)
deriving DecidableEq, Repr

structure Script where
  help : Option String
  items : List Item
deriving DecidableEq, Repr

def Statement.arg? : Statement → Option ArgDecl
  | .arg a => some a
  | _ => none

/-- The declared arguments, in order. -/
def TargetDecl.args (t : TargetDecl) : List ArgDecl := t.body.filterMap Statement.arg?

end TaskRunner
