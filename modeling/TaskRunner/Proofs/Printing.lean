import TaskRunner.Proofs.Spelling
import TaskRunner.Script.Reader

/-!
# Scripts written out

`Script.print` writes a script: the help block first, then one statement to a line, and a target as
a block. `Script.Printable` is what it takes for that text to be read back as the same script, and
`Script.located` is the script with the lines on which its statements stand in the text.
-/
namespace TaskRunner

open Grammar
open Text (StopsAt)

namespace Expr

/-- An expression that has to be put in parentheses to be an operand. -/
def isCompound : Expr → Bool
  | .negate _ => true
  | .binary _ _ _ => true
  | _ => false

/-- A text in parentheses, or as it is. -/
def bracket (compound : Bool) (t : List Char) : List Char :=
  if compound then '(' :: (t ++ [')']) else t

def print : Expr → List Char
  | .number x => x.fixed
  | .text s => '"' :: (Token.escape s.toList ++ ['"'])
  | .var name => name.toList
  | .negate e => '-' :: bracket e.isCompound e.print
  | .binary op l r =>
    bracket l.isCompound l.print ++ ' ' :: op.symbol :: ' ' :: bracket r.isCompound r.print

/-- Variables are names, and numbers are written as a number token that reads back. -/
def Printable : Expr → Prop
  | .number x => Token.number x.fixed = some (x, [])
  | .text _ => True
  | .var name => Token.IsName name
  | .negate e => e.Printable
  | .binary _ l r => l.Printable ∧ r.Printable

def decidePrintable : (e : Expr) → Decidable e.Printable
  | .number x => inferInstanceAs (Decidable (Token.number x.fixed = some (x, [])))
  | .text _ => .isTrue trivial
  | .var name => inferInstanceAs (Decidable (Token.IsName name))
  | .negate e => e.decidePrintable
  | .binary _ l r => @instDecidableAnd _ _ l.decidePrintable r.decidePrintable

instance : DecidablePred Printable := decidePrintable

end Expr

/-! ## Statements, targets and scripts -/

/-- Lines with a line feed behind each. -/
def printLines (lines : List (List Char)) : List Char := lines.flatMap (· ++ ['\n'])

/-- The help block of a scope, if it has one. -/
def helpLines : Option String → List (List Char)
  | none => []
  | some text => [['@', '@', '@', '\n'] ++ text.toList ++ ['\n', '@', '@', '@']]

def Assignment.print (a : Assignment) : List Char :=
  a.name.toList ++ ' ' :: '=' :: ' ' :: a.value.print

/-- The help of an argument, in quotes. -/
def quotedHelp : Option String → List Char
  | none => []
  | some help => ' ' :: '"' :: (Token.escape help.toList ++ ['"'])

def ArgDecl.print (a : ArgDecl) : List Char :=
  if a.required then '<' :: (a.name.toList ++ '>' :: quotedHelp a.help)
  else '[' :: (a.name.toList ++ ']' :: quotedHelp a.help)

def Statement.print : Statement → List Char
  | .comment text => '#' :: text.toList
  | .assign a => a.print
  | .arg a => a.print
  | .command template _ => '$' :: ' ' :: template.toList
  | .python template _ => '>' :: '>' :: '>' :: ' ' :: template.toList
  | .exit none _ => ['e', 'x', 'i', 't']
  | .exit (some e) _ => 'e' :: 'x' :: 'i' :: 't' :: ' ' :: e.print
  | .yield => ['y', 'i', 'e', 'l', 'd']

/-- The lines between the braces of a target. -/
def TargetDecl.lines (t : TargetDecl) : List (List Char) :=
  helpLines t.help ++ t.body.map Statement.print

def TargetDecl.print (t : TargetDecl) : List Char :=
  t.name.toList ++ ' ' :: '\x7b' :: '\n' :: (printLines t.lines ++ ['\x7d'])

def Item.print : Item → List Char
  | .comment text => '#' :: text.toList
  | .assign a => a.print
  | .target t => t.print

def Script.lines (s : Script) : List (List Char) := helpLines s.help ++ s.items.map Item.print

def Script.print (s : Script) : List Char := printLines s.lines

/-! ## What can be written out -/

/-- A name that an assignment or a target may have. -/
def IsOwnName (s : String) : Prop := Token.IsName s ∧ s ≠ "exit" ∧ s ≠ "yield"

/-- A text on one line. -/
def OneLine (s : String) : Prop := ∀ c ∈ s.toList, isLineEnd c = false

/-- A text on one line with no blank at either end. -/
def IsTemplate (s : String) : Prop :=
  OneLine s ∧ StopsAt Text.isBlank s.toList ∧ StopsAt Text.isBlank s.toList.reverse

/-- A help text that does not close its own block. -/
def IsHelp (help : Option String) : Prop :=
  ∀ text ∈ help, ¬ ['@', '@', '@'] <:+: text.toList

instance (s : String) : Decidable (IsOwnName s) :=
  inferInstanceAs (Decidable (Token.IsName s ∧ s ≠ "exit" ∧ s ≠ "yield"))

instance (s : String) : Decidable (OneLine s) :=
  decidable_of_iff (s.toList.all (fun c => !isLineEnd c) = true) (by simp [OneLine])

instance (s : String) : Decidable (IsTemplate s) :=
  inferInstanceAs (Decidable (OneLine s ∧ StopsAt Text.isBlank s.toList ∧
    StopsAt Text.isBlank s.toList.reverse))

instance (help : Option String) : Decidable (IsHelp help) :=
  inferInstanceAs (Decidable (∀ text ∈ help, ¬ ['@', '@', '@'] <:+: text.toList))

def Assignment.Printable (a : Assignment) : Prop := IsOwnName a.name ∧ a.value.Printable

instance (a : Assignment) : Decidable a.Printable :=
  inferInstanceAs (Decidable (IsOwnName a.name ∧ a.value.Printable))

def Statement.Printable : Statement → Prop
  | .comment text => OneLine text
  | .assign a => a.Printable
  | .arg a => Token.IsName a.name
  | .command template _ => IsTemplate template
  | .python template _ => IsTemplate template
  | .exit code _ => ∀ e ∈ code, e.Printable
  | .yield => True

instance : DecidablePred Statement.Printable
  | .comment text => inferInstanceAs (Decidable (OneLine text))
  | .assign a => inferInstanceAs (Decidable a.Printable)
  | .arg a => inferInstanceAs (Decidable (Token.IsName a.name))
  | .command template _ => inferInstanceAs (Decidable (IsTemplate template))
  | .python template _ => inferInstanceAs (Decidable (IsTemplate template))
  | .exit code _ => inferInstanceAs (Decidable (∀ e ∈ code, e.Printable))
  | .yield => .isTrue trivial

structure TargetDecl.Printable (t : TargetDecl) : Prop where
  name : IsOwnName t.name
  help : IsHelp t.help
  body : ∀ s ∈ t.body, s.Printable
  args : (t.args.map ArgDecl.name).Nodup

instance (t : TargetDecl) : Decidable t.Printable :=
  decidable_of_iff (IsOwnName t.name ∧ IsHelp t.help ∧ (∀ s ∈ t.body, s.Printable) ∧
      (t.args.map ArgDecl.name).Nodup)
    ⟨fun ⟨name, help, body, args⟩ => ⟨name, help, body, args⟩,
      fun h => ⟨h.name, h.help, h.body, h.args⟩⟩

def Item.Printable : Item → Prop
  | .comment text => OneLine text
  | .assign a => a.Printable
  | .target t => t.Printable

instance : DecidablePred Item.Printable
  | .comment text => inferInstanceAs (Decidable (OneLine text))
  | .assign a => inferInstanceAs (Decidable a.Printable)
  | .target t => inferInstanceAs (Decidable t.Printable)

structure Script.Printable (s : Script) : Prop where
  help : IsHelp s.help
  items : ∀ item ∈ s.items, item.Printable
  targets : (s.targets.map TargetDecl.name).Nodup

instance (s : Script) : Decidable s.Printable :=
  decidable_of_iff (IsHelp s.help ∧ (∀ item ∈ s.items, item.Printable) ∧
      (s.targets.map TargetDecl.name).Nodup)
    ⟨fun ⟨help, items, targets⟩ => ⟨help, items, targets⟩, fun h => ⟨h.help, h.items, h.targets⟩⟩

/-! ## The lines of the statements -/

def Statement.onLine (line : Nat) : Statement → Statement
  | .assign a => .assign { a with line := line }
  | .command template _ => .command template line
  | .python template _ => .python template line
  | .exit code _ => .exit code line
  | s => s

/-- The statements of a body that is printed behind the text `before`. -/
def locateBody (before : List Char) : List Statement → List Statement
  | [] => []
  | s :: rest =>
    s.onLine (Text.lineNumber before) :: locateBody (before ++ (s.print ++ ['\n'])) rest

/-- A target that is printed behind the text `before`. -/
def TargetDecl.locate (before : List Char) (t : TargetDecl) : TargetDecl :=
  { t with
    line := Text.lineNumber before
    body := locateBody (before ++ (t.name.toList ++ ' ' :: '\x7b' :: '\n' ::
      printLines (helpLines t.help))) t.body }

def Item.locate (before : List Char) : Item → Item
  | .comment text => .comment text
  | .assign a => .assign { a with line := Text.lineNumber before }
  | .target t => .target (t.locate before)

def locateItems (before : List Char) : List Item → List Item
  | [] => []
  | item :: rest => item.locate before :: locateItems (before ++ (item.print ++ ['\n'])) rest

/-- The script as it is printed: every statement with the line that it stands on. -/
def Script.located (s : Script) : Script :=
  { s with items := locateItems (printLines (helpLines s.help)) s.items }

end TaskRunner
