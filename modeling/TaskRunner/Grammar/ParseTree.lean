import TaskRunner.Grammar.Token

/-!
# Parse trees

A parse tree says which constructs were read off a text, and where. It holds no values: what a
construct stands for is told from its kind, its text and the trees inside of it. The rules below are
those of the grammar, one for each construct that leaves a tree. Blanks, line ends, brackets and
other fixed words leave none, and neither do the rules that only choose between others.
-/
namespace TaskRunner.Grammar

/-- A construct that was read: the text from its first character on, the text behind it, and the
constructs inside of it, in order. -/
inductive ParseTree where
  | node (kind : Construct) (start rest : List Char) (inner : List ParseTree)

namespace ParseTree

def kind : ParseTree → Construct
  | .node kind _ _ _ => kind

/-- The text from the first character of the construct to the end of the script. -/
def start : ParseTree → List Char
  | .node _ start _ _ => start

def inner : ParseTree → List ParseTree
  | .node _ _ _ inner => inner

/-- The characters that were read. -/
def chars : ParseTree → List Char
  | .node _ start rest _ => start.take (start.length - rest.length)

def text (t : ParseTree) : String := String.ofList t.chars

/-- The characters of the first construct inside. -/
def inside (t : ParseTree) : List Char := (t.inner.head?.map chars).getD []

end ParseTree

namespace Trees

open TaskRunner.Grammar.Parser

variable {α : Type}

/-- The tree of a construct, without a record of where it was not found. -/
def mark (c : Construct) (p : Parser (List ParseTree)) : Parser (List ParseTree) := do
  let start ← here
  let inner ← p
  let rest ← here
  pure [.node c start rest inner]

/-- The tree of a construct. -/
def tree (c : Construct) (p : Parser (List ParseTree)) : Parser (List ParseTree) :=
  named c (mark c p)

/-- What is read leaves no tree. -/
def bare (p : Parser α) : Parser (List ParseTree) := do
  let _ ← p
  pure []

/-- A construct with no other inside. -/
def leaf (c : Construct) (p : Parser α) : Parser (List ParseTree) := tree c (bare p)

/-! ## Tokens -/

def identifier : Parser (List ParseTree) := leaf .identifier (silent Token.name)

def number : Parser (List ParseTree) := leaf .number (silent Token.number)

/-- A string in double quotes. Its inside is a tree of its own. -/
def string : Parser (List ParseTree) :=
  tree .string do
    word ['"']
    let inside ← mark .stringText (bare (silent fun s => some (Token.stringText s)))
    word ['"']
    pure inside

def comment : Parser (List ParseTree) := leaf .comment (silent Token.comment)

def commandText : Parser (List ParseTree) := do
  gap
  leaf .commandText (silent fun s => some (Token.restOfLine s))

/-! ## Expressions -/

def sumOperator : Parser (List ParseTree) := leaf .sumOperator (firstOf [word ['+'], word ['-']])

def productOperator : Parser (List ParseTree) :=
  leaf .productOperator (firstOf [word ['*'], word ['/'], word ['%']])

/-- An operator and the operand behind it. -/
def operation (op operand : Parser (List ParseTree)) : Parser (List ParseTree) := do
  gap
  let o ← op
  gap
  let e ← operand
  pure (o ++ e)

/-- Operands with operators between them, in turn. -/
def level (c : Construct) (op operand : Parser (List ParseTree)) : Parser (List ParseTree) :=
  tree c do
    let first ← operand
    gap
    let rest ← many (operation op operand)
    pure (first ++ rest.flatten)

def parenthesised (inner : Parser (List ParseTree)) : Parser (List ParseTree) := do
  word ['(']
  gap
  let e ← inner
  gap
  word [')']
  pure e

def primary (inner : Parser (List ParseTree)) : Parser (List ParseTree) :=
  firstOf [number, string, identifier, parenthesised inner]

def factor (inner : Parser (List ParseTree)) : Parser (List ParseTree) :=
  tree .factor do
    let minus ← optional (leaf .minus (word ['-']))
    gap
    let e ← primary inner
    pure (minus.getD [] ++ e)

def term (inner : Parser (List ParseTree)) : Parser (List ParseTree) :=
  level .term productOperator (factor inner)

def sum (inner : Parser (List ParseTree)) : Parser (List ParseTree) :=
  level .expression sumOperator (term inner)

/-- An expression with fewer than `depth` parentheses open at once. -/
def expression : Nat → Parser (List ParseTree)
  | 0 => fail
  | depth + 1 => sum (delay fun _ => expression depth)

/-! ## Phrases -/

/-- `@@@` alone on a line, the help text, which is a tree of its own, and a second `@@@`. -/
def helpBlock : Parser (List ParseTree) :=
  tree .helpBlock do
    word ['@', '@', '@']
    gap
    lineEnd
    let text ← mark .helpText (bare (silent fun s => some (Token.helpText s)))
    word ['@', '@', '@']
    pure text

def commandLine : Parser (List ParseTree) :=
  tree .commandLine do
    word ['$']
    commandText

def pythonLine : Parser (List ParseTree) :=
  tree .pythonLine do
    word ['>', '>', '>']
    commandText

/-- A name between two brackets, and an optional help text. -/
def declaration (c : Construct) (opening closing : Char) : Parser (List ParseTree) :=
  tree c do
    word [opening]
    gap
    let name ← identifier
    gap
    word [closing]
    gap
    let help ← optional string
    pure (name ++ help.getD [])

def exit (expr : Parser (List ParseTree)) : Parser (List ParseTree) :=
  tree .exit do
    let keyword ← leaf .exitKeyword (silent (Token.keyword ['e', 'x', 'i', 't']))
    gap
    let code ← optional expr
    pure (keyword ++ code.getD [])

def yield : Parser (List ParseTree) :=
  tree .yield (leaf .yieldKeyword (silent (Token.keyword ['y', 'i', 'e', 'l', 'd'])))

/-- A target with a body in braces. The opening brace may stand on a later line than the name. -/
def targetBlock (body : Parser (List ParseTree)) : Parser (List ParseTree) :=
  tree .targetBlock do
    let name ← identifier
    gap
    let _ ← many (gap >>= fun _ => lineEnd)
    gap
    word ['\x7b']
    gap
    let trees ← body
    gap
    word ['\x7d']
    pure (name ++ trees)

def targetLine : Parser (List ParseTree) :=
  tree .targetLine do
    let name ← identifier
    gap
    word [':']
    let text ← commandText
    pure (name ++ text)

def assignment (expr : Parser (List ParseTree)) : Parser (List ParseTree) :=
  tree .assignment do
    let name ← identifier
    gap
    word ['=']
    gap
    let value ← expr
    pure (name ++ value)

/-- Any phrase but a comment. -/
def item (expr body : Parser (List ParseTree)) : Parser (List ParseTree) :=
  firstOf [helpBlock, commandLine, pythonLine, declaration .requiredArg '<' '>',
    declaration .optionalArg '[' ']', exit expr, yield, targetBlock body, targetLine,
    assignment expr]

/-- A phrase with an optional comment after it, or a comment. -/
def line (expr body : Parser (List ParseTree)) : Parser (List ParseTree) :=
  orElse
    (do
      let phrase ← item expr body
      gap
      let note ← optional comment
      pure (phrase ++ note.getD []))
    comment

/-- The end of a line, and the next line, which may be empty. -/
def nextLine (expr body : Parser (List ParseTree)) : Parser (Option (List ParseTree)) := do
  gap
  lineEnd
  gap
  optional (line expr body)

/-- Lines with line ends between them, each of which may be empty. -/
def lines (expr body : Parser (List ParseTree)) : Parser (List ParseTree) :=
  tree .body do
    gap
    let first ← optional (line expr body)
    let rest ← many (nextLine expr body)
    pure ((first :: rest).flatMap (·.getD []))

/-- The body of a target or of the script, with fewer than `depth` braces open at once. -/
def body : Nat → Parser (List ParseTree)
  | 0 => fail
  | depth + 1 => lines (delay fun _ => expression (depth + 1)) (delay fun _ => body depth)

def script (depth : Nat) : Parser (List ParseTree) :=
  tree .script do
    gap
    let trees ← body depth
    gap
    let last ← leaf .endOfInput (silent fun s => if s.isEmpty then some ((), []) else none)
    pure (trees ++ last)

end Trees

/-- The parse trees of a text, or nothing if it is not a script. A text has no more brackets than
characters. -/
def trees? (s : List Char) : Option (List ParseTree) :=
  ((Trees.script (s.length + 1)).run s).map Prod.fst

/-- How far a text could be read as a script. -/
def furthest (s : List Char) : Furthest :=
  ((Trees.script (s.length + 1)).watch (.ofText s) (.start s.length)).2

end TaskRunner.Grammar
