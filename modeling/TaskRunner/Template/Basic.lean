import TaskRunner.Template.Context

/-!
# Command templates

A template is copied, except for what follows a `$`:

* `$$` gives `$`,
* `$(key)` gives the text of the key,
* `$key` gives the text of the key, which ends before the first character that is not a letter, a
  digit, `_` or `@`. That character is copied, even if it is a `$`.

A key that the template ends in counts, and a bracket need not be closed at the end. Only a `$` as
the very last character is an error. `Template.scan` goes over the characters once, from left to
right, and looks at most one character ahead.
-/
namespace TaskRunner

/-- Why a template cannot be rendered. -/
inductive TemplateError where
  | unterminatedMarker
deriving DecidableEq, Repr

def TemplateError.message : TemplateError → String
  | .unterminatedMarker => "Unexpected '$' at end of line"

namespace Template

/-- A character of a key without brackets. -/
def isBareChar (c : Char) : Bool := Grammar.isNameChar c || c == '@'

/-- What the scan is in the middle of: plain text, a key without brackets, or a key in brackets. -/
inductive Mode where
  | literal
  | bare
  | bracketed
deriving DecidableEq, Repr

/-- Scans the rest of a template. `token` is the key read so far and `output` the text given so far.
At the end of the template a key that was begun counts, unless it is empty. -/
def scan (ctx : Context) : Mode → String → String → List Char → Except TemplateError String
  | _, token, output, [] =>
    .ok (if token.isEmpty then output else output ++ ctx.resolve token.toList)
  | .literal, token, output, c :: rest =>
    if c ≠ '$' then scan ctx .literal token (output.push c) rest
    else
      match rest with
      | [] => .error .unterminatedMarker
      | '$' :: rest => scan ctx .literal token (output.push '$') rest
      | '(' :: rest => scan ctx .bracketed token output rest
      -- the next character is the first of the key, or ends an empty key
      | c :: rest => scan ctx .bare token output (c :: rest)
  | .bracketed, token, output, c :: rest =>
    if c = ')' then scan ctx .literal "" (output ++ ctx.resolve token.toList) rest
    else scan ctx .bracketed (token.push c) output rest
  | .bare, token, output, c :: rest =>
    if isBareChar c then scan ctx .bare (token.push c) output rest
    else scan ctx .literal "" ((output ++ ctx.resolve token.toList).push c) rest

/-- The command that a template gives in a context. -/
def render (ctx : Context) (template : String) : Except TemplateError String :=
  scan ctx .literal "" "" template.toList

end Template

end TaskRunner
