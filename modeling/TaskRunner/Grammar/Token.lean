import TaskRunner.Grammar.Parser
import TaskRunner.Number.Decimal

/-!
# Tokens

The parts of a script that are read without blanks in between: names, numbers, quoted strings,
comments, commands and help blocks. Each takes its characters off the front of the text.
-/
namespace TaskRunner.Grammar

/-- A blank that may stand between any two parts of a line. -/
def isGap (c : Char) : Bool := c == ' ' || c == '\t'

def isLineEnd (c : Char) : Bool := c == '\n' || c == '\r'

def isLetter (c : Char) : Bool := ('a' ≤ c && c ≤ 'z') || ('A' ≤ c && c ≤ 'Z')

def isDigit (c : Char) : Bool := '0' ≤ c && c ≤ '9'

/-- A character of a name after its first, which is a letter. -/
def isNameChar (c : Char) : Bool := isLetter c || isDigit c || c == '_'

namespace Token

/-- A line feed, a carriage return, or both in the order in which they end a line. -/
def lineEnd : List Char → Option (Unit × List Char)
  | '\n' :: s => some ((), s)
  | '\r' :: '\n' :: s => some ((), s)
  | '\r' :: s => some ((), s)
  | _ => none

def name : List Char → Option (String × List Char)
  | c :: s =>
    if isLetter c then
      some (String.ofList (c :: s.takeWhile isNameChar), s.dropWhile isNameChar)
    else none
  | [] => none

/-- A reserved word. A longer name that starts with it is something else. -/
def keyword (w : List Char) (s : List Char) : Option (Unit × List Char) :=
  if w.isPrefixOf s then
    match s.drop w.length with
    | [] => some ((), [])
    | c :: rest => if isNameChar c then none else some ((), c :: rest)
  else none

/-- The characters up to the end of the line. -/
def restOfLine (s : List Char) : List Char × List Char :=
  (s.takeWhile fun c => !isLineEnd c, s.dropWhile fun c => !isLineEnd c)

/-- `#` and the rest of the line, which is the text of the comment. -/
def comment : List Char → Option (String × List Char)
  | '#' :: s =>
    let (text, rest) := restOfLine s
    some (String.ofList text, rest)
  | _ => none

/-- Digits with an optional point and fraction, or a point and at least one digit. -/
def number (s : List Char) : Option (Number × List Char) :=
  match s.takeWhile isDigit, s.dropWhile isDigit with
  | [], '.' :: rest =>
    match rest.takeWhile isDigit with
    | [] => none
    | fraction => some (Number.ofDecimal [] fraction, rest.dropWhile isDigit)
  | [], _ => none
  | whole, '.' :: rest =>
    some (Number.ofDecimal whole (rest.takeWhile isDigit), rest.dropWhile isDigit)
  | whole, rest => some (Number.ofDecimal whole [], rest)

/-- The inside of a quoted string as it is written, as far as it goes. A backslash stands before a
quote or a backslash; before anything else it ends the inside, and so does a bare quote. -/
def stringText : List Char → List Char × List Char
  | '\\' :: '"' :: s => let (t, r) := stringText s; ('\\' :: '"' :: t, r)
  | '\\' :: '\\' :: s => let (t, r) := stringText s; ('\\' :: '\\' :: t, r)
  | [] => ([], [])
  | c :: s =>
    if c = '"' ∨ c = '\\' then ([], c :: s)
    else let (t, r) := stringText s; (c :: t, r)

/-- What the inside of a quoted string stands for. A backslash gives way to the character behind it,
whichever that is, and one at the very end to nothing. -/
def unescape : List Char → List Char
  | [] => []
  | ['\\'] => []
  | '\\' :: c :: s => c :: unescape s
  | c :: s => c :: unescape s

/-- A text in double quotes. It may run over several lines. -/
def string : List Char → Option (String × List Char)
  | '"' :: s =>
    match stringText s with
    | (inside, '"' :: rest) => some (String.ofList (unescape inside), rest)
    | _ => none
  | _ => none

/-- The text before the next `@@@`, or all of it if there is none. -/
def helpText : List Char → List Char × List Char
  | [] => ([], [])
  | '@' :: '@' :: '@' :: s => ([], '@' :: '@' :: '@' :: s)
  | c :: s => let (t, r) := helpText s; (c :: t, r)

/-- A help text loses its last line feed, wherever that stands in it. -/
def dropLastLineFeed (text : List Char) : List Char := (text.reverse.erase '\n').reverse

/-- `@@@` alone on a line, the help text, and a second `@@@`. -/
def helpBlock : List Char → Option (String × List Char)
  | '@' :: '@' :: '@' :: s =>
    match lineEnd (s.dropWhile isGap) with
    | none => none
    | some (_, s) =>
      match helpText s with
      | (text, '@' :: '@' :: '@' :: rest) => some (String.ofList (dropLastLineFeed text), rest)
      | _ => none
  | _ => none

end Token

namespace Parser

/-- Skips the blanks at the front of the text. -/
def gap : Parser Unit := silent fun s => some ((), s.dropWhile isGap)

def lineEnd : Parser Unit := silent Token.lineEnd

def identifier : Parser String := named .identifier (silent Token.name)

def number : Parser Number := named .number (silent Token.number)

def string : Parser String := named .string (silent Token.string)

def comment : Parser String := named .comment (silent Token.comment)

def restOfLine : Parser (List Char) :=
  named .commandText (silent fun s => some (Token.restOfLine s))

def endOfInput : Parser Unit :=
  named .endOfInput (silent fun s => if s.isEmpty then some ((), []) else none)

end Parser

end TaskRunner.Grammar
