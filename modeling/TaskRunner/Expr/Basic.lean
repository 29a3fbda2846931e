import TaskRunner.Number.Decimal
import TaskRunner.Text.Quoted

/-!
# Expressions

The right hand side of an assignment and the code of an `exit`. `Expr.toText` writes an expression
with every binary operation in parentheses, so the text shows how it was read.
-/
namespace TaskRunner

inductive BinOp where
  | add | sub | mul | div | rem
deriving DecidableEq, Repr

def BinOp.symbol : BinOp → Char
  | .add => '+'
  | .sub => '-'
  | .mul => '*'
  | .div => '/'
  | .rem => '%'

inductive Expr where
  | number (x : Number)
  | text (s : String)
  | var (name : String)
  | negate (e : Expr)
  | binary (op : BinOp) (left right : Expr)
deriving DecidableEq, Repr

namespace Expr

def shown : Expr → List Char
  | .number x => x.fixed
  | .text s => Text.quote s.toList
  | .var name => name.toList
  | .negate e => '-' :: e.shown
  | .binary op l r => '(' :: l.shown ++ [' ', op.symbol, ' '] ++ r.shown ++ [')']

def toText (e : Expr) : String := String.ofList e.shown

end Expr

end TaskRunner
