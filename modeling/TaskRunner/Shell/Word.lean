import TaskRunner.Grammar.Token

/-!
# Words of the shell

The text of a script is cut into words and operators by a machine that takes one character at a
time, so that every text is cut up and no character is looked at twice. A word is a row of letters
and of pieces that are replaced when it is used: parameters, the output of commands, and formulas.
What is inside of double quotes is marked, because it is not split and stands for itself.

What stands in brackets behind a dollar sign is taken over as it is written. The machine only keeps
account of the brackets and quotes that are open in it, to find its end.
-/
namespace TaskRunner.Shell

inductive Piece where
  | letter (quoted : Bool) (c : Char)
  /-- A pair of quotes with nothing in it. -/
  | quotes
  /-- A parameter such as `$1` or `$name`, without the dollar sign, or what stands in `${...}`. -/
  | param (quoted : Bool) (source : List Char)
  /-- What stands in `$(...)`, with the number of its first line, or between backquotes if `back` says
  so. -/
  | command (quoted back : Bool) (line : Nat) (source : List Char)
  /-- What stands in `$((...))`. -/
  | formula (quoted : Bool) (source : List Char)
deriving DecidableEq, Repr

abbrev Word := List Piece

inductive Operator where
  | semicolon
  | caseEnd
  | background
  | andIf
  | orIf
  | bar
  | opening
  | closing
deriving DecidableEq, Repr

def Operator.text : Operator → String
  | .semicolon => ";"
  | .caseEnd => ";;"
  | .background => "&"
  | .andIf => "&&"
  | .orIf => "||"
  | .bar => "|"
  | .opening => "("
  | .closing => ")"

/-- What a redirection does with the word behind it. -/
inductive Direction where
  | read
  | write
  | append
  | readWrite
  /-- The word is the number of another stream. -/
  | duplicate
deriving DecidableEq, Repr

/-- What is still open at the end of a text. -/
inductive Fault where
  | quote
  | parameter
  | command
  | backquotes
  | formula
deriving DecidableEq, Repr

def Fault.message : Fault → String
  | .quote => "Unterminated quoted string"
  | .parameter => "Missing '\x7d'"
  | .command => "end of file unexpected (expecting \")\")"
  | .backquotes => "EOF in backquote substitution"
  | .formula => "Missing '))'"

inductive Token where
  | word (w : Word)
  | lineEnd
  | operator (o : Operator)
  | redirect (stream : Nat) (d : Direction)
  | fault (f : Fault)
  | finish
deriving DecidableEq, Repr

/-- A token and the number of the line in which it ends. -/
abbrev Tokens := List (Nat × Token)

inductive Bracket where
  | round
  | curly
  | single
  | double
  | back
deriving DecidableEq, Repr

def singleQuote : Char := '\x27'

def backQuote : Char := '\x60'

/-- The brackets that are open after one more character. `last` is the character before it. A single
quote means nothing in curly brackets that stand in double quotes. -/
def bracketsAfter (quoted : Bool) (last : Option Char) (brackets : List Bracket) (c : Char) :
    List Bracket :=
  let opened : List Bracket :=
    if c = backQuote then [.back]
    else if last = some '$' ∧ c = '(' then [.round]
    else if last = some '$' ∧ c = '\x7b' then [.curly]
    else []
  let quote : List Bracket :=
    if c = '"' then [.double] else if c = singleQuote then [.single] else []
  match brackets with
  | [] => []
  | .single :: outer => if c = singleQuote then outer else brackets
  | .back :: outer => if c = backQuote then outer else brackets
  | .double :: outer => if c = '"' then outer else opened ++ brackets
  | .round :: outer =>
    if c = ')' then outer
    else if c = '(' then .round :: brackets
    else quote ++ opened ++ brackets
  | .curly :: outer =>
    let inQuotes := outer.head? = some .double ∨ (outer = [] ∧ quoted)
    if c = '\x7d' then outer
    else if c = singleQuote ∧ inQuotes then brackets
    else quote ++ opened ++ brackets

/-- What stands in brackets while it is read, in reverse, with the number of its first line. -/
structure Nested where
  line : Nat
  kind : Bracket
  quoted : Bool
  brackets : List Bracket
  escaped : Bool
  read : List Char
deriving DecidableEq, Repr

namespace Nested

def start (line : Nat) (kind : Bracket) (quoted : Bool) : Nested :=
  ⟨line, kind, quoted, [kind], false, []⟩

def step (n : Nested) (c : Char) : Nested :=
  if n.escaped then { n with escaped := false, read := c :: n.read }
  else if c = '\\' ∧ n.brackets.head? ≠ some .single then
    { n with escaped := true, read := c :: n.read }
  else
    { n with
      brackets := bracketsAfter n.quoted n.read.head? n.brackets c
      read := c :: n.read }

/-- Whether the first bracket closes with the last character. `depth` counts the open ones. -/
def isWrapped (depth : Nat) : List Char → Bool
  | [] => false
  | '(' :: s => isWrapped (depth + 1) s
  | [')'] => depth == 1
  | ')' :: s => depth != 1 && isWrapped (depth - 1) s
  | _ :: s => depth != 0 && isWrapped depth s

/-- Between backquotes a backslash in front of a backslash, a dollar sign or a backquote goes away,
and in front of a double quote if they stand in double quotes. -/
def withoutEscapes (quoted : Bool) : List Char → List Char
  | '\\' :: c :: s =>
    if c = '\\' ∨ c = '$' ∨ c = backQuote ∨ (quoted ∧ c = '"') then c :: withoutEscapes quoted s
    else '\\' :: c :: withoutEscapes quoted s
  | c :: s => c :: withoutEscapes quoted s
  | [] => []

/-- The piece, once the last bracket is closed. -/
def finish (n : Nested) : Except Fault Piece :=
  let source := n.read.tail.reverse
  match n.kind with
  | .round =>
    if source.head? ≠ some '(' then .ok (.command n.quoted false n.line source)
    else if isWrapped 0 source then .ok (.formula n.quoted source.tail.dropLast)
    else .error .formula
  | .back => .ok (.command n.quoted true 1 (withoutEscapes n.quoted source))
  | _ => .ok (.param n.quoted source)

/-- What is missing if the text ends here: the innermost bracket or quote. -/
def fault (n : Nested) : Fault :=
  match n.brackets.head?.getD n.kind with
  | .round =>
    if n.brackets.length ≤ 2 ∧ n.kind = .round ∧ n.read.getLast? = some '(' then .formula
    else .command
  | .back => .backquotes
  | .curly =>
    if n.brackets.tail.head? = some .double ∨ (n.brackets.length ≤ 1 ∧ n.quoted) then .quote
    else .parameter
  | .single | .double => .quote

end Nested

/-- What the machine is in the middle of. -/
inductive Mode where
  | plain
  | escaped
  | single
  /-- Right behind an opening double quote. -/
  | opened
  | double
  | doubleEscaped
  | dollar (quoted : Bool)
  | name (quoted : Bool) (read : List Char)
  | nested (n : Nested)
  | comment
  /-- Behind a character that may be the first of an operator, with a stream given before it. -/
  | operator (stream : Option Nat) (first : Char)
  | failed
deriving DecidableEq, Repr

/-- The state of the machine. The pieces of the current word and the tokens are in reverse. `whole`
says that the text is one word, in which blanks and operators are letters, and whether that word is
in double quotes. -/
structure Scanner where
  whole : Option Bool
  mode : Mode
  line : Nat
  word : Option (List Piece)
  tokens : Tokens
deriving DecidableEq, Repr

/-- The token of one or two characters. -/
def operatorToken (stream : Option Nat) : List Char → Option Token
  | [';'] => some (.operator .semicolon)
  | [';', ';'] => some (.operator .caseEnd)
  | ['&'] => some (.operator .background)
  | ['&', '&'] => some (.operator .andIf)
  | ['|'] => some (.operator .bar)
  | ['|', '|'] => some (.operator .orIf)
  | ['<'] => some (.redirect (stream.getD 0) .read)
  | ['<', '&'] => some (.redirect (stream.getD 0) .duplicate)
  | ['<', '>'] => some (.redirect (stream.getD 0) .readWrite)
  | ['>'] => some (.redirect (stream.getD 1) .write)
  | ['>', '|'] => some (.redirect (stream.getD 1) .write)
  | ['>', '>'] => some (.redirect (stream.getD 1) .append)
  | ['>', '&'] => some (.redirect (stream.getD 1) .duplicate)
  | _ => none

namespace Scanner

def push (s : Scanner) (p : Piece) : Scanner := { s with word := some (p :: s.word.getD []) }

def emitAt (s : Scanner) (line : Nat) (t : Token) : Scanner :=
  { s with tokens := (line, t) :: s.tokens }

def emit (s : Scanner) (t : Token) : Scanner := s.emitAt s.line t

def enter (s : Scanner) (m : Mode) : Scanner := { s with mode := m }

/-- Ends the current word, if there is one. -/
def flush (s : Scanner) : Scanner :=
  match s.word with
  | none => s
  | some w => { s with word := none }.emit (.word w.reverse)

def fail (s : Scanner) (f : Fault) : Scanner := (s.emit (.fault f)).enter .failed

/-- Begins a redirection. A word of one digit right before it is the number of its stream. -/
def beforeRedirect (s : Scanner) (c : Char) : Scanner :=
  match s.word with
  | some [.letter false d] =>
    if Grammar.isDigit d then
      { s with word := none, mode := .operator (some (d.toNat - '0'.toNat)) c }
    else s.flush.enter (.operator none c)
  | _ => s.flush.enter (.operator none c)

/-- A character outside of quotes. -/
def plainStep (s : Scanner) (c : Char) : Scanner :=
  let s := s.enter .plain
  if c = singleQuote then (s.push .quotes).enter .single
  else if c = '"' then s.enter .opened
  else if c = '\\' then s.enter .escaped
  else if c = '$' then s.enter (.dollar false)
  else if c = backQuote then s.enter (.nested (.start s.line .back false))
  else if s.whole.isSome then s.push (.letter false c)
  else if c = ' ' ∨ c = '\t' then s.flush
  else if c = '\n' then s.flush.emitAt (s.line + 1) .lineEnd
  else if c = ';' ∨ c = '&' ∨ c = '|' then s.flush.enter (.operator none c)
  else if c = '<' ∨ c = '>' then s.beforeRedirect c
  else if c = '(' then s.flush.emit (.operator .opening)
  else if c = ')' then s.flush.emit (.operator .closing)
  else if c = '#' ∧ s.word = none then s.enter .comment
  else s.push (.letter false c)

/-- A character inside double quotes. A word that is in quotes as a whole does not end at one. -/
def doubleStep (s : Scanner) (c : Char) : Scanner :=
  let s := s.enter .double
  if c = '"' then (if s.whole = some true then s else s.enter .plain)
  else if c = '\\' then s.enter .doubleEscaped
  else if c = '$' then s.enter (.dollar true)
  else if c = backQuote then s.enter (.nested (.start s.line .back true))
  else s.push (.letter true c)

def outerStep (quoted : Bool) (s : Scanner) (c : Char) : Scanner :=
  if quoted then s.doubleStep c else s.plainStep c

def outerMode (quoted : Bool) : Mode := if quoted then .double else .plain

/-- Parameters of one character that is not a letter. -/
def isSpecial (c : Char) : Bool := Grammar.isDigit c || "@*#?$!-".toList.contains c

def nestedStep (s : Scanner) (n : Nested) : Scanner :=
  if !n.brackets.isEmpty then s.enter (.nested n)
  else
    match n.finish with
    | .ok piece => (s.push piece).enter (outerMode n.quoted)
    | .error f => s.fail f

/-- Takes one character, with the line count not yet moved past it. -/
def take (s : Scanner) (c : Char) : Scanner :=
  match s.mode with
  | .plain => s.plainStep c
  | .escaped => if c = '\n' then s.enter .plain else (s.push (.letter true c)).enter .plain
  | .single => if c = singleQuote then s.enter .plain else s.push (.letter true c)
  | .opened => if c = '"' then (s.push .quotes).enter .plain else s.doubleStep c
  | .double => s.doubleStep c
  | .doubleEscaped =>
    if c = '\n' then s.enter .double
    else if c = '$' ∨ c = '"' ∨ c = '\\' ∨ c = backQuote then
      (s.push (.letter true c)).enter .double
    else ((s.push (.letter true '\\')).push (.letter true c)).enter .double
  | .dollar quoted =>
    if Grammar.isLetter c || c == '_' then s.enter (.name quoted [c])
    else if isSpecial c then (s.push (.param quoted [c])).enter (outerMode quoted)
    else if c = '\x7b' then s.enter (.nested (.start s.line .curly quoted))
    else if c = '(' then s.enter (.nested (.start s.line .round quoted))
    else (s.push (.letter quoted '$')).outerStep quoted c
  | .name quoted read =>
    if Grammar.isNameChar c then s.enter (.name quoted (c :: read))
    else (s.push (.param quoted read.reverse)).outerStep quoted c
  | .nested n => s.nestedStep (n.step c)
  | .comment => if c = '\n' then s.plainStep c else s
  | .operator stream first =>
    match operatorToken stream [first, c] with
    | some t => (s.emit t).enter .plain
    | none => (s.emit ((operatorToken stream [first]).getD .finish)).plainStep c
  | .failed => s

def step (s : Scanner) (c : Char) : Scanner :=
  let s := s.take c
  if c = '\n' then { s with line := s.line + 1 } else s

/-- Ends what the machine is in the middle of, at the end of the text. -/
def close (s : Scanner) : Scanner :=
  match s.mode with
  | .plain | .comment | .failed => s
  | .escaped => s.push (.letter true '\\')
  | .dollar false => s.push (.letter false '$')
  | .name false read => s.push (.param false read.reverse)
  | .operator stream first => s.emit ((operatorToken stream [first]).getD .finish)
  | .nested n => s.fail n.fault
  | .dollar true => if s.whole = some true then s.push (.letter true '$') else s.fail .quote
  | .name true read =>
    if s.whole = some true then s.push (.param true read.reverse) else s.fail .quote
  | .doubleEscaped => if s.whole = some true then s.push (.letter true '\\') else s.fail .quote
  | .double => if s.whole = some true then s else s.fail .quote
  | .single | .opened => s.fail .quote

end Scanner

/-- The tokens of a text whose first line has the given number. The last one says that it ends. -/
def tokens (line : Nat) (text : List Char) : Tokens :=
  let s := (text.foldl Scanner.step ⟨none, .plain, line, none, []⟩).close
  (s.flush.emit .finish).tokens.reverse

/-- A text as a single word, in double quotes or not. -/
def wordOf (quoted : Bool) (text : List Char) : Word :=
  let start : Scanner := ⟨some quoted, Scanner.outerMode quoted, 1, none, []⟩
  ((text.foldl Scanner.step start).close.word.getD []).reverse

end TaskRunner.Shell
