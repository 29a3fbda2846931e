import TaskRunner.Expr.Basic
import TaskRunner.Grammar.Token

/-!
# Expressions of a script

Sums of products of factors, each level associating to the left. A factor is a number, a string, a
name or an expression in parentheses, and may have one minus sign before it. The depth bounds how
many parentheses may be open at once; the length of the text is always enough.
-/
namespace TaskRunner.Grammar

namespace Parser

/-- A word for each operator. -/
def operator (choices : List (Char × BinOp)) : Parser BinOp :=
  silent fun s =>
    match s with
    | [] => none
    | c :: rest => (choices.find? fun x => x.1 == c).map fun x => (x.2, rest)

def sumOperator : Parser BinOp := named .sumOperator (operator [('+', .add), ('-', .sub)])

def productOperator : Parser BinOp :=
  named .productOperator (operator [('*', .mul), ('/', .div), ('%', .rem)])

/-- Operators and operands to the right of a first operand. -/
def operands (op : Parser BinOp) (operand : Parser Expr) : Parser (List (BinOp × Expr)) :=
  many do
    gap
    let o ← op
    gap
    let e ← operand
    pure (o, e)

/-- Operations of one level, taken from the left. -/
def chain (first : Expr) (rest : List (BinOp × Expr)) : Expr :=
  rest.foldl (fun l x => .binary x.1 l x.2) first

def parenthesised (inner : Parser Expr) : Parser Expr := do
  word ['(']
  gap
  let e ← inner
  gap
  word [')']
  pure e

def primary (inner : Parser Expr) : Parser Expr :=
  firstOf [Expr.number <$> number, Expr.text <$> string, Expr.var <$> identifier,
    parenthesised inner]

def factor (inner : Parser Expr) : Parser Expr :=
  named .factor do
    let minus ← optional (named .minus (word ['-']))
    gap
    let e ← primary inner
    pure (if minus.isSome then .negate e else e)

def term (inner : Parser Expr) : Parser Expr :=
  named .term do
    let first ← factor inner
    gap
    let rest ← operands productOperator (factor inner)
    pure (chain first rest)

def sum (inner : Parser Expr) : Parser Expr :=
  named .expression do
    let first ← term inner
    gap
    let rest ← operands sumOperator (term inner)
    pure (chain first rest)

/-- An expression with fewer than `depth` parentheses open at once. -/
def expression : Nat → Parser Expr
  | 0 => fail
  | depth + 1 => sum (delay fun _ => expression depth)

end Parser

end TaskRunner.Grammar
