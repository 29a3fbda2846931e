import TaskRunner.Text.Blank
import TaskRunner.Text.Lines

/-!
# Diagnostics

What is said about a script that cannot be read: a message, a place, the line of the script that it
is about with the place underlined, and sometimes a hint.
-/
namespace TaskRunner

structure Diagnostic where
  message : String
  line : Nat
  column : Nat
  /-- One past the last column to underline. -/
  columnEnd : Option Nat
  sourceLine : Option String
  filename : Option String
  hint : Option String
deriving DecidableEq, Repr

namespace Diagnostic

/-- The given line of a script, counted from one. Line zero stands for the first. -/
def sourceLineAt (source : String) (line : Nat) : Option String :=
  ((Text.lines source.toList)[line - 1]?).map String.ofList

/-- About a whole line: its text without the blanks around it is underlined. Columns are counted
in bytes. -/
def atLine (message : String) (line : Nat) (source : String) : Diagnostic :=
  let text := (sourceLineAt source line).map String.toList
  let column := (text.map fun l => Text.byteLength l - Text.byteLength (Text.trimStart l) + 1).getD 1
  let columnEnd := (text.map fun l => Text.byteLength (Text.trimEnd l) + 1).filter (column < ·)
  { message, line, column, columnEnd, sourceLine := text.map String.ofList,
    filename := none, hint := none }

def withHint (d : Diagnostic) (hint : String) : Diagnostic := { d with hint := some hint }

def withFilename (d : Diagnostic) (filename : Option String) : Diagnostic :=
  { d with filename }

/-! ## Text -/

def spaces (n : Nat) : String := String.ofList (List.replicate n ' ')

/-- Carets from `column` up to `columnEnd`, at least one of them. -/
def underline (column : Nat) (columnEnd : Option Nat) : String :=
  let width := (columnEnd.map fun stop => max 1 (stop - column)).getD 1
  spaces (column - 1) ++ String.ofList (List.replicate width '^')

def place (d : Diagnostic) : String :=
  (d.filename.map (· ++ ":")).getD "" ++ toString d.line ++ ":" ++ toString d.column

/-- The source line with its number, between a bare margin and the underline. -/
def excerpt (d : Diagnostic) : String :=
  match d.sourceLine with
  | none => ""
  | some text =>
    let number := toString d.line
    let margin := "   " ++ spaces number.length ++ " |"
    margin ++ "\n   " ++ number ++ " | " ++ text ++ "\n" ++
      margin ++ " " ++ underline d.column d.columnEnd ++ "\n"

def render (d : Diagnostic) : String :=
  "error: " ++ d.message ++ "\n  --> " ++ d.place ++ "\n" ++ d.excerpt ++
    (d.hint.map ("\n   = hint: " ++ ·)).getD ""

end Diagnostic

end TaskRunner
