import TaskRunner.Bindings
import TaskRunner.Grammar.Token
import TaskRunner.Number.Decimal

/-!
# Formulas of the shell

What stands in `$((...))` is a formula over whole numbers of 64 bits, with the operators of the
usual ranks, variables and assignments. It is read as a whole before it is worked out, and a part
that does not matter, such as the other branch of a choice, is not worked out.
-/
namespace TaskRunner.Shell

inductive FormulaToken where
  | number (n : Int)
  | name (s : String)
  | symbol (s : String)
deriving DecidableEq, Repr

inductive BinaryOp where
  | bitOr | bitXor | bitAnd | eq | ne | lt | le | gt | ge | shiftLeft | shiftRight
  | add | sub | mul | div | rem
deriving DecidableEq, Repr

inductive UnaryOp where
  | plus | minus | not | complement
deriving DecidableEq, Repr

inductive Formula where
  | number (n : Int)
  | variable (name : String)
  | unary (op : UnaryOp) (a : Formula)
  | binary (op : BinaryOp) (a b : Formula)
  | both (a b : Formula)
  | either (a b : Formula)
  | choice (condition yes no : Formula)
  | assign (name : String) (op : Option BinaryOp) (a : Formula)
deriving Repr

inductive FormulaError where
  | noOperand
  | noEnd
  | noClosing
  | noColon
  | divisionByZero
  | badNumber (text : String)
deriving DecidableEq, Repr

def FormulaError.message (source : String) : FormulaError → String
  | .badNumber text => "Illegal number: " ++ text
  | e =>
    let reason :=
      match e with
      | .noOperand => "expecting primary"
      | .noEnd => "expecting EOF"
      | .noClosing => "expecting ')'"
      | .noColon => "expecting ':'"
      | _ => "division by zero"
    "arithmetic expression: " ++ reason ++ ": \"" ++ source ++ "\""

namespace Formula

/-- The whole numbers of 64 bits. -/
def wrap (n : Int) : Int := Int.bmod n UInt64.size

def largest : Int := Int64.maxValue.toInt

/-! ## Tokens -/

def hexDigit? (c : Char) : Option Nat :=
  if Grammar.isDigit c then some (c.toNat - '0'.toNat)
  else if 'a' ≤ c ∧ c ≤ 'f' then some (c.toNat - 'a'.toNat + 10)
  else if 'A' ≤ c ∧ c ≤ 'F' then some (c.toNat - 'A'.toNat + 10)
  else none

def isOctal (c : Char) : Bool := '0' ≤ c && c ≤ '7'

def ofDigitsIn (base : Nat) (ds : List Char) : Int :=
  min largest (ds.foldl (fun n d => n * base + (hexDigit? d).getD 0) 0 : Nat)

/-- A number: sixteen is `16`, `0x10` or `020`. One that is too large is the largest. -/
def numeral (s : List Char) : Int × List Char :=
  match s with
  | '0' :: x :: d :: rest =>
    if (x = 'x' ∨ x = 'X') ∧ (hexDigit? d).isSome then
      let isHex (c : Char) : Bool := (hexDigit? c).isSome
      (ofDigitsIn 16 ((d :: rest).takeWhile isHex), (d :: rest).dropWhile isHex)
    else (ofDigitsIn 8 (s.takeWhile isOctal), s.dropWhile isOctal)
  | '0' :: _ => (ofDigitsIn 8 (s.takeWhile isOctal), s.dropWhile isOctal)
  | _ => (ofDigitsIn 10 (s.takeWhile Grammar.isDigit), s.dropWhile Grammar.isDigit)

/-- Symbols of several characters, longest first. -/
def longSymbols : List String :=
  ["<<=", ">>=", "&&", "||", "<<", ">>", "<=", ">=", "==", "!=", "+=", "-=", "*=", "/=", "%=", "&=",
   "|=", "^="]

def tokens : Nat → List Char → List FormulaToken
  | 0, _ => []
  | _ + 1, [] => []
  | n + 1, c :: s =>
    if c = ' ' ∨ c = '\t' ∨ c = '\n' then tokens n s
    else if Grammar.isDigit c then
      let (value, rest) := numeral (c :: s)
      .number value :: tokens n rest
    else if Grammar.isLetter c ∨ c = '_' then
      .name (String.ofList (c :: s.takeWhile Grammar.isNameChar)) ::
        tokens n (s.dropWhile Grammar.isNameChar)
    else
      match longSymbols.find? fun l => l.toList.isPrefixOf (c :: s) with
      | some l => .symbol l :: tokens n ((c :: s).drop l.length)
      | none => .symbol (String.singleton c) :: tokens n s

/-! ## Reading -/

/-- The operators between two operands and their ranks, of which the highest binds closest. -/
def binary? : String → Option (BinaryOp × Nat)
  | "|" => some (.bitOr, 1)
  | "^" => some (.bitXor, 2)
  | "&" => some (.bitAnd, 3)
  | "==" => some (.eq, 4)
  | "!=" => some (.ne, 4)
  | "<" => some (.lt, 5)
  | "<=" => some (.le, 5)
  | ">" => some (.gt, 5)
  | ">=" => some (.ge, 5)
  | "<<" => some (.shiftLeft, 6)
  | ">>" => some (.shiftRight, 6)
  | "+" => some (.add, 7)
  | "-" => some (.sub, 7)
  | "*" => some (.mul, 8)
  | "/" => some (.div, 8)
  | "%" => some (.rem, 8)
  | _ => none

def unary? : String → Option UnaryOp
  | "+" => some .plus
  | "-" => some .minus
  | "!" => some .not
  | "~" => some .complement
  | _ => none

/-- What an assignment does with the old value first, if anything. -/
def assign? : String → Option (Option BinaryOp)
  | "=" => some none
  | "+=" => some (some .add)
  | "-=" => some (some .sub)
  | "*=" => some (some .mul)
  | "/=" => some (some .div)
  | "%=" => some (some .rem)
  | "<<=" => some (some .shiftLeft)
  | ">>=" => some (some .shiftRight)
  | "&=" => some (some .bitAnd)
  | "|=" => some (some .bitOr)
  | "^=" => some (some .bitXor)
  | _ => none

mutual

def assignment : Nat → List FormulaToken → Except FormulaError (Formula × List FormulaToken)
  | 0, _ => .error .noOperand
  | n + 1, ts =>
    match ts with
    | .name x :: .symbol s :: rest =>
      match assign? s with
      | some op => do
        let (a, rest) ← assignment n rest
        return (.assign x op a, rest)
      | none => conditional n ts
    | _ => conditional n ts
termination_by structural n => n

def conditional : Nat → List FormulaToken → Except FormulaError (Formula × List FormulaToken)
  | 0, _ => .error .noOperand
  | n + 1, ts => do
    let (a, ts) ← disjunction n ts
    match ts with
    | .symbol "?" :: ts =>
      let (b, ts) ← assignment n ts
      match ts with
      | .symbol ":" :: ts =>
        let (c, ts) ← conditional n ts
        return (.choice a b c, ts)
      | _ => throw .noColon
    | _ => return (a, ts)
termination_by structural n => n

def disjunction : Nat → List FormulaToken → Except FormulaError (Formula × List FormulaToken)
  | 0, _ => .error .noOperand
  | n + 1, ts => do
    let (a, ts) ← conjunction n ts
    match ts with
    | .symbol "||" :: ts =>
      let (b, ts) ← disjunction n ts
      return (.either a b, ts)
    | _ => return (a, ts)
termination_by structural n => n

def conjunction : Nat → List FormulaToken → Except FormulaError (Formula × List FormulaToken)
  | 0, _ => .error .noOperand
  | n + 1, ts => do
    let (a, ts) ← operand n ts
    let (a, ts) ← operations n 1 a ts
    match ts with
    | .symbol "&&" :: ts =>
      let (b, ts) ← conjunction n ts
      return (.both a b, ts)
    | _ => return (a, ts)
termination_by structural n => n

/-- Goes on from an operand with the operators of at least the given rank. -/
def operations : Nat → Nat → Formula → List FormulaToken →
    Except FormulaError (Formula × List FormulaToken)
  | 0, _, _, _ => .error .noOperand
  | n + 1, least, a, ts =>
    match ts with
    | .symbol s :: rest =>
      match binary? s with
      | some (op, rank) =>
        if least ≤ rank then do
          let (b, rest) ← operand n rest
          let (b, rest) ← operations n (rank + 1) b rest
          operations n least (.binary op a b) rest
        else .ok (a, ts)
      | none => .ok (a, ts)
    | _ => .ok (a, ts)
termination_by structural n => n

def operand : Nat → List FormulaToken → Except FormulaError (Formula × List FormulaToken)
  | 0, _ => .error .noOperand
  | n + 1, ts =>
    match ts with
    | .number v :: rest => .ok (.number v, rest)
    | .name x :: rest => .ok (.variable x, rest)
    | .symbol "(" :: rest => do
      let (a, rest) ← assignment n rest
      match rest with
      | .symbol ")" :: rest => return (a, rest)
      | _ => throw .noClosing
    | .symbol s :: rest =>
      match unary? s with
      | some op => do
        let (a, rest) ← operand n rest
        return (.unary op a, rest)
      | none => .error .noOperand
    | [] => .error .noOperand
termination_by structural n => n

end

def read (text : List Char) : Except FormulaError Formula := do
  let ts := tokens text.length text
  let (a, rest) ← assignment (8 * (ts.length + 1)) ts
  if rest.isEmpty then return a else throw .noEnd

/-! ## Working out -/

def ofTruth (b : Bool) : Int := if b then 1 else 0

def bits (n : Int) : Nat := (n % UInt64.size).toNat

def applyBinary (op : BinaryOp) (a b : Int) : Except FormulaError Int :=
  match op with
  | .bitOr => .ok (wrap (bits a ||| bits b : Nat))
  | .bitXor => .ok (wrap (bits a ^^^ bits b : Nat))
  | .bitAnd => .ok (wrap (bits a &&& bits b : Nat))
  | .eq => .ok (ofTruth (a == b))
  | .ne => .ok (ofTruth (a != b))
  | .lt => .ok (ofTruth (a < b))
  | .le => .ok (ofTruth (a ≤ b))
  | .gt => .ok (ofTruth (b < a))
  | .ge => .ok (ofTruth (b ≤ a))
  | .shiftLeft => .ok (wrap (a * (1 <<< (bits b % 64) : Nat)))
  | .shiftRight => .ok (Int.fdiv a (1 <<< (bits b % 64) : Nat))
  | .add => .ok (wrap (a + b))
  | .sub => .ok (wrap (a - b))
  | .mul => .ok (wrap (a * b))
  | .div => if b = 0 then .error .divisionByZero else .ok (wrap (Int.tdiv a b))
  | .rem => if b = 0 then .error .divisionByZero else .ok (wrap (Int.tmod a b))

def applyUnary (op : UnaryOp) (a : Int) : Int :=
  match op with
  | .plus => a
  | .minus => wrap (-a)
  | .not => ofTruth (a == 0)
  | .complement => -a - 1

/-- The number that a variable holds. None at all is zero. -/
def ofText (text : String) : Except FormulaError Int :=
  let s := text.toList.dropWhile fun c => c == ' ' || ('\t' ≤ c && c ≤ '\r')
  if text = "" then .ok 0
  else
    let (negative, digits) :=
      match s with
      | '-' :: ds => (true, ds)
      | '+' :: ds => (false, ds)
      | ds => (false, ds)
    if !(digits.head?.any Grammar.isDigit) then .error (.badNumber text)
    else
      let (n, rest) := numeral digits
      if rest.all fun c => c == ' ' || ('\t' ≤ c && c ≤ '\r') then
        .ok (if negative then -n else n)
      else .error (.badNumber text)

/-- The value, and the variables after its assignments. -/
def value (vars : Bindings String) : Formula → Except FormulaError (Int × Bindings String)
  | .number n => .ok (n, vars)
  | .variable x => do return (← ofText ((vars.get? x).getD ""), vars)
  | .unary op a => do
    let (n, vars) ← value vars a
    return (applyUnary op n, vars)
  | .binary op a b => do
    let (x, vars) ← value vars a
    let (y, vars) ← value vars b
    return (← applyBinary op x y, vars)
  | .both a b => do
    let (x, vars) ← value vars a
    if x = 0 then return (0, vars)
    let (y, vars) ← value vars b
    return (ofTruth (y != 0), vars)
  | .either a b => do
    let (x, vars) ← value vars a
    if x ≠ 0 then return (1, vars)
    let (y, vars) ← value vars b
    return (ofTruth (y != 0), vars)
  | .choice c a b => do
    let (x, vars) ← value vars c
    if x ≠ 0 then value vars a else value vars b
  | .assign x op a => do
    let (n, vars) ← value vars a
    let n ←
      match op with
      | none => pure n
      | some op => applyBinary op (← ofText ((vars.get? x).getD "")) n
    return (n, vars.insert x (toString n))

end Formula

end TaskRunner.Shell
