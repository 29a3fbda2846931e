import TaskRunner.Diagnostic.Basic
import TaskRunner.Grammar.Construct

/-!
# Messages about what was expected

An unreadable script is reported at the place that reading could not get past. The message names the
constructs that were looked for there, as far as they have a name a user would know, and the hint
follows from those constructs and from the line.
-/
namespace TaskRunner

open Grammar

namespace Grammar

/-- The name of a construct in messages. -/
def Construct.label? : Construct → Option String
  | .identifier => some "identifier"
  | .helpBlock => some "help block (`@@@`)"
  | .targetBlock => some "target block (`name \x7b ... \x7d`)"
  | .targetLine => some "target (`name: command`)"
  | .commandLine => some "command line (`$ command`)"
  | .assignment => some "variable assignment"
  | .exit => some "`exit`"
  | .yield => some "`yield`"
  | .expression => some "expression"
  | .number => some "number"
  | .string => some "quoted string"
  | .sumOperator => some "operator"
  | .productOperator => some "operator"
  | .comment => some "comment"
  | _ => none

end Grammar

namespace Expectation

/-- Drops an entry that equals the one before it. -/
def dropRepeats : List String → List String
  | a :: b :: rest => if a = b then dropRepeats (b :: rest) else a :: dropRepeats (b :: rest)
  | short => short

/-- `a`, `a or b`, `a, b or c`. -/
def alternatives : List String → String
  | [] => ""
  | [a] => a
  | [a, b] => a ++ " or " ++ b
  | a :: rest => a ++ ", " ++ alternatives rest

def message (expected : List Construct) : String :=
  match dropRepeats (expected.filterMap Construct.label?) with
  | [] => "unexpected token"
  | labels => "expected " ++ alternatives labels

/-- Whether a line begins with a quote, or has one without a partner where a string may stand. -/
def looksUnclosed (expected : List Construct) (line : List Char) : Bool :=
  line.head? == some '"' || (expected.contains .string && line.count '"' % 2 == 1)

/-- Advice on an unreadable line, if there is any. -/
def hint? (expected : List Construct) (sourceLine : Option String) : Option String :=
  let line := Text.trim (sourceLine.getD "").toList
  if looksUnclosed expected line then
    some "Strings must be closed with `\"`; only `\\\\` and `\\\"` are escapes."
  else if expected.contains .expression || expected.contains .number then
    some "Assignments look like `name = 42`, `name = \"text\"` or `name = other + 1`."
  else if "@@@".toList.isPrefixOf line then
    some "Help blocks open with `@@@` alone on a line and close with a second `@@@`."
  else if expected.contains .identifier || expected.contains .targetLine then
    some ("Targets look like `name: command` or `name \x7b $ command \x7d`; " ++
      "names start with a letter and contain letters, digits or `_`.")
  else none

end Expectation

namespace Diagnostic

/-- What a text is unreadable for: something expected is missing, or a reason of its own. -/
inductive Cause where
  | missing (expected : List Construct)
  | other (message : String)
deriving DecidableEq, Repr

def Cause.message : Cause → String
  | .missing expected => Expectation.message expected
  | .other message => message

def Cause.hint? (sourceLine : Option String) : Cause → Option String
  | .missing expected => Expectation.hint? expected sourceLine
  | .other _ => none

/-- Line and column of the end of a stretch of text. Right after a line feed it is the place after
that line feed on its own line. -/
def endPlace (before : List Char) : Nat × Nat :=
  if Text.column before = 1 then
    (Text.lineNumber before.dropLast, Text.column before.dropLast + 1)
  else (Text.lineNumber before, Text.column before)

/-- About the place after `before`, or about the stretch from there to the place after `until?`.
Only a stretch within one line is underlined as a whole. -/
def atPlace (source : String) (before : List Char) (until? : Option (List Char)) (cause : Cause) :
    Diagnostic :=
  let line := Text.lineNumber before
  let sourceLine := sourceLineAt source line
  let columnEnd := until?.bind fun stop =>
    if (endPlace stop).1 = line then some (endPlace stop).2 else none
  { message := cause.message, line, column := Text.column before, columnEnd, sourceLine,
    filename := none, hint := cause.hint? sourceLine }

/-- About a script that could be read up to `m` only. -/
def unreadable (source : String) (m : Furthest) : Diagnostic :=
  let text := source.toList
  atPlace source (text.take (text.length - m.left)) none (.missing (Construct.inOrder m.expected))

end Diagnostic

end TaskRunner
