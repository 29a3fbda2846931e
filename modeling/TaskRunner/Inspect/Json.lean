import TaskRunner.Number.Shortest

/-!
# JSON

A JSON value whose objects keep the order of their fields, and its text with two blanks of indent
to a level. Numbers have the fewest digits that read back, with a point in plain notation; a number
that JSON has no word for is `null`.
-/
namespace TaskRunner

inductive Json where
  | null
  | bool (b : Bool)
  | number (x : Number)
  | string (s : String)
  | array (elements : List Json)
  | object (fields : List (String × Json))
deriving Repr

namespace Json

/-! ## Numbers -/

/-- Plain notation is used while the weight of the first digit is from `10 ^ -5` to `10 ^ 15`. -/
def isPlain (weight : Int) : Bool := -5 ≤ weight && weight ≤ 15

/-- Plain notation of the digits, the first of which has weight `10 ^ weight`. -/
def plain (ds : List Char) (weight : Int) : List Char :=
  if weight < 0 then '0' :: '.' :: List.replicate (-weight - 1).toNat '0' ++ ds
  else
    let whole := weight.toNat + 1
    if ds.length ≤ whole then ds ++ List.replicate (whole - ds.length) '0' ++ ['.', '0']
    else ds.take whole ++ '.' :: ds.drop whole

/-- Notation with an exponent. The sign of the exponent is always written. -/
def scientific (ds : List Char) (weight : Int) : List Char :=
  let coefficient :=
    match ds with
    | d :: e :: rest => d :: '.' :: e :: rest
    | short => short
  let sign := if weight < 0 then '-' else '+'
  coefficient ++ 'e' :: sign :: Nat.toDigits 10 weight.natAbs

def magnitude (mantissa : Nat) (exponent : Int) : List Char :=
  if mantissa = 0 then ['0', '.', '0']
  else
    let d := Number.shortest mantissa exponent
    let ds := Number.digits d.coefficient
    let weight := d.power + ds.length - 1
    if isPlain weight then plain ds weight else scientific ds weight

def numberText (x : Number) : List Char :=
  match x.view with
  | .finite negative m e => (if negative then ['-'] else []) ++ magnitude m e
  | _ => ['n', 'u', 'l', 'l']

/-! ## Strings -/

def hexDigit (n : Nat) : Char := Nat.digitChar (n % 16)

def escapeChar (c : Char) : List Char :=
  if c = '"' then ['\\', '"']
  else if c = '\\' then ['\\', '\\']
  else if c = '\x08' then ['\\', 'b']
  else if c = '\x0c' then ['\\', 'f']
  else if c = '\n' then ['\\', 'n']
  else if c = '\r' then ['\\', 'r']
  else if c = '\t' then ['\\', 't']
  else if c.toNat < 0x20 then
    ['\\', 'u', '0', '0', hexDigit (c.toNat / 16), hexDigit c.toNat]
  else [c]

def stringText (s : List Char) : List Char := '"' :: s.flatMap escapeChar ++ ['"']

/-! ## Layout -/

def newLine (level : Nat) : List Char := '\n' :: List.replicate (2 * level) ' '

mutual

/-- The text of a value that stands at the given level. -/
def layout (level : Nat) : Json → List Char
  | .null => ['n', 'u', 'l', 'l']
  | .bool true => ['t', 'r', 'u', 'e']
  | .bool false => ['f', 'a', 'l', 's', 'e']
  | .number x => numberText x
  | .string s => stringText s.toList
  | .array [] => ['[', ']']
  | .array (e :: rest) =>
    '[' :: newLine (level + 1) ++ layout (level + 1) e ++ layoutElements (level + 1) rest ++
      newLine level ++ [']']
  | .object [] => ['\x7b', '\x7d']
  | .object ((name, v) :: rest) =>
    '\x7b' :: newLine (level + 1) ++ stringText name.toList ++ ':' :: ' ' :: layout (level + 1) v ++
      layoutFields (level + 1) rest ++ newLine level ++ ['\x7d']

/-- Elements after the first. -/
def layoutElements (level : Nat) : List Json → List Char
  | [] => []
  | e :: rest => ',' :: newLine level ++ layout level e ++ layoutElements level rest

/-- Fields after the first. -/
def layoutFields (level : Nat) : List (String × Json) → List Char
  | [] => []
  | (name, v) :: rest =>
    ',' :: newLine level ++ stringText name.toList ++ ':' :: ' ' :: layout level v ++
      layoutFields level rest

end

def pretty (j : Json) : String := String.ofList (layout 0 j)

end Json

end TaskRunner
