import TaskRunner.Number.Decimal

/-!
# Values

What an assignment gives a name: a number or a text. `Value.render` is the text that stands for a
value in a command.
-/
namespace TaskRunner

inductive Value where
  | number (x : Number)
  | text (s : String)
deriving DecidableEq, Repr

def Value.render : Value → String
  | .number x => x.format
  | .text s => s

end TaskRunner
