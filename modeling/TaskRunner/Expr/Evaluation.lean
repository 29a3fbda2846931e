import TaskRunner.Bindings
import TaskRunner.Expr.Basic
import TaskRunner.Number.Arithmetic
import TaskRunner.Value

/-!
# Evaluation

Numbers take all five operators and the minus sign. `+` joins texts as soon as one side is a text,
with a number written as commands see it. The left operand is evaluated first, so its fault wins.
-/
namespace TaskRunner

/-- Why an expression has no value. -/
inductive EvalError where
  | unknownVariable (name : String)
  | textOperand (symbol : Char)
deriving DecidableEq, Repr

def EvalError.message : EvalError → String
  | .unknownVariable name => "unknown variable '" ++ name ++ "'"
  | .textOperand symbol =>
    "operator '" ++ String.singleton symbol ++ "' cannot be applied to text"

/-- The variables in sight of an expression or a command. -/
abbrev Scope := Bindings Value

def BinOp.onNumbers : BinOp → Number → Number → Number
  | .add => Number.add
  | .sub => Number.sub
  | .mul => Number.mul
  | .div => Number.div
  | .rem => Number.rem

def BinOp.apply : BinOp → Value → Value → Except EvalError Value
  | op, .number x, .number y => .ok (.number (op.onNumbers x y))
  | .add, v, w => .ok (.text (v.render ++ w.render))
  | op, _, _ => .error (.textOperand op.symbol)

def Value.negate : Value → Except EvalError Value
  | .number x => .ok (.number x.neg)
  | .text _ => .error (.textOperand '-')

def Expr.eval (scope : Scope) : Expr → Except EvalError Value
  | .number x => .ok (.number x)
  | .text s => .ok (.text s)
  | .var name =>
    match scope.get? name with
    | some v => .ok v
    | none => .error (.unknownVariable name)
  | .negate e =>
    match e.eval scope with
    | .ok v => v.negate
    | .error fault => .error fault
  | .binary op l r =>
    match l.eval scope with
    | .error fault => .error fault
    | .ok v =>
      match r.eval scope with
      | .error fault => .error fault
      | .ok w => op.apply v w

end TaskRunner
