/-!
# Constructs and how far reading got

A construct is a part of a script that a reader may be looking for. While a script is read,
`Furthest` remembers the furthest place at which a construct was looked for in vain, and which
constructs those were. It is what a message about an unreadable script is made of.
-/
namespace TaskRunner.Grammar

/-- The parts of a script, in the order in which a message lists them. -/
inductive Construct where
  | endOfInput
  | blank
  | script
  | body
  | line
  | item
  | comment
  | helpBlock
  | helpText
  | nameChar
  | identifier
  | exitKeyword
  | yieldKeyword
  | targetBlock
  | targetLine
  | commandLine
  | pythonLine
  | commandText
  | requiredArg
  | optionalArg
  | assignment
  | exit
  | yield
  | expression
  | term
  | factor
  | primary
  | sumOperator
  | productOperator
  | minus
  | number
  | string
  | stringText
  | escape
deriving DecidableEq, Repr

def Construct.all : List Construct :=
  [.endOfInput, .blank, .script, .body, .line, .item, .comment, .helpBlock, .helpText, .nameChar,
   .identifier, .exitKeyword, .yieldKeyword, .targetBlock, .targetLine, .commandLine, .pythonLine,
   .commandText, .requiredArg, .optionalArg, .assignment, .exit, .yield, .expression, .term,
   .factor, .primary, .sumOperator, .productOperator, .minus, .number, .string, .stringText,
   .escape]

/-- The constructs of a list in the order of `Construct.all`, each once. -/
def Construct.inOrder (cs : List Construct) : List Construct :=
  Construct.all.filter fun c => cs.contains c

/-- The furthest place reached, by the number of characters left there, and what was looked for
at that place without success. -/
structure Furthest where
  left : Nat
  expected : List Construct
deriving DecidableEq, Repr

namespace Furthest

/-- Before anything was tried on a text of that length. -/
def start (length : Nat) : Furthest := ⟨length, []⟩

/-- How many constructs are on record for the place with `left` characters to go. -/
def countAt (m : Furthest) (left : Nat) : Nat := if left = m.left then m.expected.length else 0

/-- The construct `c` was looked for with `left` characters to go, and is not there. `before` is the
record from when the search for it began, `after` the record from when it ended. If exactly one part
of `c` was missed at that very place, the part stays on record and `c` is not added. Otherwise `c`
takes the place of all parts missed there, unless some part was read further than that. -/
def miss (before after : Furthest) (left : Nat) (c : Construct) : Furthest :=
  if after.countAt left = before.countAt left + 1 then after
  else if left = after.left then
    { after with expected := after.expected.take (before.countAt left) ++ [c] }
  else if left < after.left then ⟨left, [c]⟩
  else after

end Furthest

end TaskRunner.Grammar
