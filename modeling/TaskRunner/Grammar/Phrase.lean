import TaskRunner.Grammar.Expression
import TaskRunner.Script.Basic
import TaskRunner.Text.Blank

/-!
# Phrases

A phrase is a statement as it is written, wherever it stands. The grammar takes any phrase anywhere,
also where it is out of place, so that what is out of place can be named in the message. With each
phrase goes the text from its first character on, which says where it stands.

The rules are those of the parse trees, but each gives what it stands for at once, without a tree in
between. What can be said of a script is mostly said of its phrases.
-/
namespace TaskRunner.Grammar

inductive Phrase where
  | comment (text : String)
  | help (text : String)
  | assign (name : String) (value : Expr)
  | oneLine (name : String) (command : String)
  | block (name : String) (body : List (List Char × Phrase))
  | command (text : String)
  | python (text : String)
  | arg (a : ArgDecl)
  | exit (code : Option Expr)
  | yield
deriving Repr

/-- A phrase and the text from its start to the end of the script. -/
abbrev Placed := List Char × Phrase

namespace Parser

/-- A command is the rest of the line without the blanks around it. -/
def commandText : Parser String := do
  gap
  let text ← restOfLine
  pure (String.ofList (Text.trim text))

def helpBlock : Parser Phrase := named .helpBlock (Phrase.help <$> silent Token.helpBlock)

def commandLine : Parser Phrase :=
  named .commandLine do
    word ['$']
    Phrase.command <$> commandText

def pythonLine : Parser Phrase :=
  named .pythonLine do
    word ['>', '>', '>']
    Phrase.python <$> commandText

/-- A name between two brackets, and an optional help text. -/
def declaration (opening closing : Char) (required : Bool) : Parser Phrase := do
  word [opening]
  gap
  let name ← identifier
  gap
  word [closing]
  gap
  let help ← optional string
  pure (.arg ⟨name, required, help⟩)

def requiredArg : Parser Phrase := named .requiredArg (declaration '<' '>' true)

def optionalArg : Parser Phrase := named .optionalArg (declaration '[' ']' false)

def exit (expr : Parser Expr) : Parser Phrase :=
  named .exit do
    named .exitKeyword (silent (Token.keyword ['e', 'x', 'i', 't']))
    gap
    Phrase.exit <$> optional expr

def yield : Parser Phrase :=
  named .yield do
    named .yieldKeyword (silent (Token.keyword ['y', 'i', 'e', 'l', 'd']))
    pure .yield

/-- A target with a body in braces. The opening brace may stand on a later line than the name. -/
def targetBlock (body : Parser (List Placed)) : Parser Phrase :=
  named .targetBlock do
    let name ← identifier
    gap
    let _ ← many (gap >>= fun _ => lineEnd)
    gap
    word ['\x7b']
    gap
    let phrases ← body
    gap
    word ['\x7d']
    pure (.block name phrases)

def targetLine : Parser Phrase :=
  named .targetLine do
    let name ← identifier
    gap
    word [':']
    Phrase.oneLine name <$> commandText

def assignment (expr : Parser Expr) : Parser Phrase :=
  named .assignment do
    let name ← identifier
    gap
    word ['=']
    gap
    Phrase.assign name <$> expr

/-- Any phrase but a comment. -/
def item (expr : Parser Expr) (body : Parser (List Placed)) : Parser Phrase :=
  firstOf [helpBlock, commandLine, pythonLine, requiredArg, optionalArg, exit expr, yield,
    targetBlock body, targetLine, assignment expr]

/-- A phrase together with the place where it starts. -/
def placed (p : Parser Phrase) : Parser Placed := do
  let text ← here
  let phrase ← p
  pure (text, phrase)

/-- A phrase with an optional comment after it, or a comment. -/
def line (expr : Parser Expr) (body : Parser (List Placed)) : Parser (List Placed) :=
  orElse
    (do
      let phrase ← placed (item expr body)
      gap
      let note ← optional (placed (Phrase.comment <$> comment))
      pure (phrase :: note.toList))
    (do
      let note ← placed (Phrase.comment <$> comment)
      pure [note])

/-- The end of a line, and the next line, which may be empty. -/
def nextLine (expr : Parser Expr) (body : Parser (List Placed)) : Parser (Option (List Placed)) := do
  gap
  lineEnd
  gap
  optional (line expr body)

/-- Lines with line ends between them, each of which may be empty. -/
def lines (expr : Parser Expr) (body : Parser (List Placed)) : Parser (List Placed) :=
  named .body do
    gap
    let first ← optional (line expr body)
    let rest ← many (nextLine expr body)
    pure ((first :: rest).flatMap (·.getD []))

/-- The body of a target or of the script, with fewer than `depth` braces open at once. -/
def body : Nat → Parser (List Placed)
  | 0 => fail
  | depth + 1 => lines (delay fun _ => expression (depth + 1)) (delay fun _ => body depth)

def script (depth : Nat) : Parser (List Placed) :=
  named .script do
    gap
    let phrases ← body depth
    gap
    endOfInput
    pure phrases

end Parser

/-- The phrases of a text, or nothing if it is not a script. A text has no more brackets than
characters. -/
def phrases? (s : List Char) : Option (List Placed) :=
  ((Parser.script (s.length + 1)).run s).map Prod.fst

end TaskRunner.Grammar
