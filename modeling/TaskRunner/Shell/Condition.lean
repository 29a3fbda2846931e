import TaskRunner.Grammar.Token
import TaskRunner.Host.Files
import TaskRunner.Number.Decimal

/-!
# Conditions

The words of `test` are a condition on texts, numbers and files. Conditions are joined by `-a`,
which binds closer, and `-o`, turned around by `!` and grouped by brackets. Up to four words have
readings of their own: a comparison in the middle of three words counts before all else.

A condition is read from left to right. What is left of the words begins with the last one that was
used, which is the one to blame if another word follows that does not belong there.
-/
namespace TaskRunner.Shell

/-- What a word can be in a condition. -/
inductive TestWord where
  | unary
  | binary
  | not
  | both
  | either
  | opening
  | closing
deriving DecidableEq, Repr

inductive ConditionError where
  | unexpected (word : String)
  | noArgument (operator : String)
  | notClosed
  | badNumber (text : String)
deriving DecidableEq, Repr

def ConditionError.message : ConditionError → String
  | .unexpected "" => "unexpected operator"
  | .unexpected word => word ++ ": unexpected operator"
  | .noArgument operator => operator ++ ": argument expected"
  | .notClosed => "closing paren expected"
  | .badNumber text => "Illegal number: " ++ text

namespace Condition

def unaries : List String :=
  ["-r", "-w", "-x", "-e", "-f", "-d", "-c", "-b", "-p", "-u", "-g", "-k", "-s", "-t", "-z", "-n",
   "-h", "-O", "-G", "-L", "-S"]

def binaries : List String :=
  ["=", "!=", "<", ">", "-eq", "-ne", "-ge", "-gt", "-le", "-lt", "-nt", "-ot", "-ef"]

def kind? (w : String) : Option TestWord :=
  if unaries.contains w then some .unary
  else if binaries.contains w then some .binary
  else
    match w with
    | "!" => some .not
    | "-a" => some .both
    | "-o" => some .either
    | "(" => some .opening
    | ")" => some .closing
    | _ => none

/-- Whether an operator is a text like any other, by the words behind it: it is the last one, or it
stands before a comparison. -/
def isOperand : List String → Bool
  | [] => true
  | [_] => false
  | next :: _ => kind? next = some .binary

/-- What the first word is where it stands. -/
def role : List String → Option TestWord
  | [] => none
  | w :: rest =>
    match kind? w with
    | some .unary => if isOperand rest then none else some .unary
    | some .opening => if rest.isEmpty then none else some .opening
    | k => k

/-! ## Numbers and files -/

def isSpace (c : Char) : Bool := c == ' ' || ('\t' ≤ c && c ≤ '\r')

/-- A whole number of 64 bits with an optional sign and blanks around it. -/
def integer (text : String) : Except ConditionError Int :=
  let s := (text.toList.dropWhile isSpace).reverse.dropWhile isSpace |>.reverse
  let (negative, digits) :=
    match s with
    | '-' :: ds => (true, ds)
    | '+' :: ds => (false, ds)
    | ds => (false, ds)
  let n : Int := Number.ofDigits digits
  let n := if negative then -n else n
  if !digits.isEmpty && digits.all Grammar.isDigit && Int64.minValue.toInt ≤ n &&
      n ≤ Int64.maxValue.toInt then
    .ok n
  else .error (.badNumber text)

/-- A condition on a text or on the file that it names. Every file that is there can be read and
written. -/
def unary (h : Host) (operator text : String) : Except ConditionError Bool :=
  let node : Option Node :=
    match h.locate ⟨text⟩ with
    | .ok (_, n) => some n
    | .error _ => none
  match operator with
  | "-z" => .ok (text == "")
  | "-n" => .ok (text != "")
  | "-t" => (integer text).map fun _ => false
  | "-f" => .ok (h.isFile ⟨text⟩)
  | "-d" => .ok (h.isDirectory ⟨text⟩)
  | "-c" =>
    match node with
    | some .sink => .ok true
    | _ => .ok false
  | "-s" =>
    match node with
    | some (.file contents _) => .ok (contents.size != 0)
    | some .sink => .ok false
    | n => .ok n.isSome
  | "-x" =>
    match node with
    | some (.file _ executable) => .ok executable
    | some .sink => .ok false
    | n => .ok n.isSome
  | _ => .ok (["-e", "-r", "-w", "-O", "-G"].contains operator && node.isSome)

/-- A comparison. All files are equally old. -/
def binary (h : Host) (a operator b : String) : Except ConditionError Bool :=
  let numbers (holds : Int → Int → Bool) : Except ConditionError Bool := do
    return holds (← integer a) (← integer b)
  match operator with
  | "=" => .ok (a == b)
  | "!=" => .ok (a != b)
  | "<" => .ok (a < b)
  | ">" => .ok (b < a)
  | "-eq" => numbers fun x y => x == y
  | "-ne" => numbers fun x y => x != y
  | "-ge" => numbers fun x y => y ≤ x
  | "-gt" => numbers fun x y => y < x
  | "-le" => numbers fun x y => x ≤ y
  | "-lt" => numbers fun x y => x < y
  | "-ef" =>
    match h.locate ⟨a⟩, h.locate ⟨b⟩ with
    | .ok (l, _), .ok (m, _) => .ok (l == m)
    | _, _ => .ok false
  | _ => .ok false

/-! ## Conditions -/

/-- What a condition comes to, and the words from the last used one on. -/
abbrev Reading := Except ConditionError (Bool × List String)

mutual

/-- Conditions joined by `-o`. `k` is what the first word is taken for. -/
def either (h : Host) : Nat → Option TestWord → List String → Reading
  | 0, _, ws => .ok (false, ws)
  | n + 1, k, ws => do
    let (a, ws) ← both h n k ws
    if role ws.tail = some .either then
      let rest := ws.drop 2
      let (b, ws) ← either h n (role rest) rest
      return (a || b, ws)
    else return (a, ws)
termination_by structural n => n

/-- Conditions joined by `-a`. -/
def both (h : Host) : Nat → Option TestWord → List String → Reading
  | 0, _, ws => .ok (false, ws)
  | n + 1, k, ws => do
    let (a, ws) ← negated h n k ws
    if role ws.tail = some .both then
      let rest := ws.drop 2
      let (b, ws) ← both h n (role rest) rest
      return (a && b, ws)
    else return (a, ws)
termination_by structural n => n

def negated (h : Host) : Nat → Option TestWord → List String → Reading
  | 0, _, ws => .ok (false, ws)
  | n + 1, k, ws =>
    if k ≠ some .not then single h n k ws
    else if ws.tail.isEmpty then .ok (true, ws)
    else do
      let (a, ws) ← negated h n (role ws.tail) ws.tail
      return (!a, ws)
termination_by structural n => n

def single (h : Host) : Nat → Option TestWord → List String → Reading
  | 0, _, ws => .ok (false, ws)
  | n + 1, k, ws =>
    match k, ws with
    | _, [] => .ok (false, [])
    | some .opening, _ :: rest =>
      if role rest = some .closing then .ok (false, rest)
      else do
        let (a, ws) ← either h n (role rest) rest
        if role ws.tail = some .closing then return (a, ws.tail) else throw .notClosed
    | some .unary, operator :: rest =>
      match rest with
      | [] => .error (.noArgument operator)
      | w :: _ => do return (← unary h operator w, rest)
    | _, a :: rest =>
      match role rest, rest with
      | some .binary, operator :: b :: more => do return (← binary h a operator b, b :: more)
      | some .binary, operator :: [] => .error (.noArgument operator)
      | _, _ => .ok (a != "", ws)
termination_by structural n => n

end

/-- Whether the words hold as a condition of any length, with the first taken for `k`. -/
def whole (h : Host) (k : Option TestWord) (ws : List String) : Except ConditionError Bool := do
  let (a, left) ← either h (8 * (ws.length + 1)) k ws
  match left with
  | w :: _ :: _ => throw (.unexpected w)
  | _ => return a

/-- Whether a condition holds, or what is wrong with it. -/
def holds (h : Host) : List String → Except ConditionError Bool
  | [] => .ok false
  | [a, b, c] =>
    if kind? b = some .binary then whole h none [a, b, c]
    else if a = "(" ∧ c = ")" then whole h (role [b]) [b]
    else if a = "!" then (whole h (role [b, c]) [b, c]).map (!·)
    else whole h (role [a, b, c]) [a, b, c]
  | [a, b, c, d] =>
    if a = "(" ∧ d = ")" then whole h (role [b, c]) [b, c]
    else if a = "!" then (holds h [b, c, d]).map (!·)
    else whole h (role [a, b, c, d]) [a, b, c, d]
  | ws => whole h (role ws) ws

end Condition

end TaskRunner.Shell
