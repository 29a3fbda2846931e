import TaskRunner.Bindings
import TaskRunner.Grammar.Token
import TaskRunner.Value

/-!
# What a placeholder stands for

A placeholder holds a key, and `Context.resolve` gives the text of a key: an argument by its index
from zero, all arguments, their count, a range of them, or a variable. What is not there is empty.
-/
namespace TaskRunner

/-- The arguments of a run and the text of each variable. -/
structure Context where
  args : List String
  vars : Bindings String
deriving DecidableEq, Repr

namespace Context

def ofArgs (args : List String) : Context := ⟨args, .empty⟩

def set (c : Context) (name text : String) : Context := { c with vars := c.vars.insert name text }

def setValue (c : Context) (name : String) (value : Value) : Context := c.set name value.render

def var? (c : Context) (name : String) : Option String := c.vars.get? name

end Context

namespace Key

/-- Looks for a colon with a digit right before it. `run` holds the digits just read, the last one
first. -/
def boundsAfter (run : List Char) : List Char → Option (List Char × List Char)
  | [] => none
  | c :: s =>
    if Grammar.isDigit c then boundsAfter (c :: run) s
    else if c = ':' ∧ run ≠ [] then some (run.reverse, s.takeWhile Grammar.isDigit)
    else boundsAfter [] s

/-- The first run of digits in the key with a colon right behind it, and the digits that follow the
colon, of which there may be none. -/
def bounds? (key : List Char) : Option (List Char × List Char) := boundsAfter [] key

/-- An index is an integer of 64 bits. -/
def index? (n : Nat) : Option UInt64 := if n < UInt64.size then some (UInt64.ofNat n) else none

/-- A bound of a range is an integer of 64 bits, one of which is for the sign. -/
def bound? (n : Nat) : Option Int64 := if 2 * n < UInt64.size then some (Int64.ofNat n) else none

/-- The last index of a range among `count` arguments. If it is left out it is that of the last
argument, or `-1` if there are none. -/
def last? (count : Nat) (high : List Char) : Option Int64 :=
  if high.isEmpty then (bound? count).map (· - 1) else bound? (Number.ofDigits high)

/-- First and last index of a range among `count` arguments. A key whose first index is not below its
last one names no range. -/
def range? (count : Nat) (key : List Char) : Option (UInt64 × UInt64) :=
  match bounds? key with
  | none => none
  | some (low, high) =>
    match bound? (Number.ofDigits low), last? count high with
    | some first, some last =>
      if last ≤ first ∨ first < 0 then none else some (first.toUInt64, last.toUInt64)
    | _, _ => none

end Key

namespace Context

def joinArgs (args : List String) : String := " ".intercalate args

/-- The arguments from `first` to before `stop`, if there are that many. -/
def slice? (args : List String) (first stop : Nat) : Option (List String) :=
  if first ≤ stop ∧ stop ≤ args.length then some ((args.take stop).drop first) else none

/-- Where a range that runs to `last` stops. -/
def stopAfter (count : Nat) (last : UInt64) : UInt64 := min (last + 1) (UInt64.ofNat count)

/-- The text of a key. A key of digits only is an index, and the empty key is index zero. -/
def resolve (c : Context) (key : List Char) : String :=
  if key.all Grammar.isDigit then
    match Key.index? (Number.ofDigits key) with
    | some i => (c.args[i.toNat]?).getD ""
    | none => ""
  else if key = ['@'] then joinArgs c.args
  else if key = ['#'] then toString c.args.length
  else
    match Key.range? c.args.length key with
    | some (first, last) =>
      match slice? c.args first.toNat (stopAfter c.args.length last).toNat with
      | some part => joinArgs part
      | none => ""
    | none => (c.var? (String.ofList key)).getD ""

end Context

end TaskRunner
