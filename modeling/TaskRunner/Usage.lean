import TaskRunner.Registry.Basic
import TaskRunner.Text.Blank
import TaskRunner.Text.Lines

/-!
# Usage text

How to call the program, the help text of the script, and every target with its arguments and its
help text in columns. Column widths are taken in bytes, while padding is done in characters.
-/
namespace TaskRunner

namespace Usage

/-- The colours of a terminal. -/
inductive Colour where
  | green | yellow | blue | grey | red | reset
deriving DecidableEq, Repr

def Colour.code : Colour → String
  | .green => "\x1b[32m"
  | .yellow => "\x1b[33m"
  | .blue => "\x1b[34m"
  | .grey => "\x1b[90m"
  | .red => "\x1b[91m"
  | .reset => "\x1b[0m"

/-- The escape sequence of a colour, or nothing if the output is to be plain. -/
def paint (coloured : Bool) (c : Colour) : String := if coloured then c.code else ""

/-- What stands in place of a help text that was not given. -/
def noHelp : String := "<No help defined>"

def helpOr (help : Option String) : String := (help.map Text.trimmed).getD noHelp

def padLeft (width : Nat) (s : String) : String :=
  String.ofList (List.replicate (width - s.length) ' ') ++ s

def byteWidth (names : List String) : Nat := (names.map (·.utf8ByteSize)).foldl max 0

def textLines (s : String) : List String := (Text.lines s.toList).map String.ofList

/-- Further lines of a text, in the column after a name of that width. -/
def tabbed (width : Nat) (lines : List String) : String :=
  String.join (lines.map fun l => "  " ++ padLeft width "" ++ "  " ++ Text.trimmed l ++ "\n")

/-- A text that goes on in the current line. -/
def tabbedInline (width : Nat) (text : String) : String :=
  match textLines text with
  | [] => "\n"
  | first :: rest =>
    let head := Text.trimmed first
    (if head.isEmpty then "\n" else "  " ++ head ++ "\n") ++ tabbed width rest

def bracketed (a : ArgDecl) : String :=
  if a.required then "<" ++ a.name ++ ">" else "[" ++ a.name ++ "]"

/-- The name of an argument and its help text. -/
def argument (coloured : Bool) (width argWidth : Nat) (a : ArgDecl) : String :=
  paint coloured .grey ++ padLeft (width + argWidth + 4) a.name ++ paint coloured .reset ++
    tabbedInline (width + argWidth + 2) (helpOr a.help)

def target (coloured : Bool) (width : Nat) (t : Target) : String :=
  let name := paint coloured .blue ++ "  " ++ padLeft width t.name ++ paint coloured .reset
  if t.args.isEmpty then name ++ tabbedInline width (helpOr t.help)
  else
    let marks := t.args.map fun a =>
      paint coloured .grey ++ " " ++ bracketed a ++ paint coloured .reset
    let argWidth := byteWidth (t.args.map (·.name))
    name ++ String.join marks ++ "\n" ++ tabbed width (textLines (helpOr t.help)) ++
      String.join (t.args.map (argument coloured width argWidth))

def heading (coloured : Bool) : String :=
  paint coloured .green ++ "Usage: " ++ paint coloured .yellow ++ "doit " ++ paint coloured .blue ++
    "<target> " ++ paint coloured .grey ++ "[args...]" ++ paint coloured .reset ++ "\n"

/-- The help text of the script, if there is anything in it. -/
def scriptHelp (help : Option String) : String :=
  match help with
  | none => ""
  | some text => String.join ((textLines (Text.trimmed text)).map fun l => "       " ++ l ++ "\n")

end Usage

/-- The whole usage text. -/
def Registry.usage (coloured : Bool) (r : Registry) : String :=
  let width := Usage.byteWidth (r.targets.map (·.name))
  Usage.heading coloured ++ Usage.scriptHelp r.help ++ "\n" ++ Usage.paint coloured .green ++
    "TARGETS" ++ Usage.paint coloured .reset ++ "\n" ++
    String.join (r.sorted.map (Usage.target coloured width))

/-- What is said about a target that the script does not have. -/
def Usage.invalidTarget (coloured : Bool) (name : String) : String :=
  let p := paint coloured
  p .red ++ "Invalid target name: " ++ p .yellow ++ name ++ p .reset ++ "\n" ++
    p .green ++ "Usage: " ++ p .blue ++ "doit <target> [args...]" ++ p .reset ++ "\n"

end TaskRunner
