import TaskRunner.Shell.Word

/-!
# Commands of the shell

A script is a tree of commands. A simple command has words, of which the first names what is run;
the others join commands, choose between them or repeat them.
-/
namespace TaskRunner.Shell

structure Redirect where
  stream : Nat
  direction : Direction
  target : Word
deriving DecidableEq, Repr

inductive Command where
  | nothing
  /-- Assignments, words and redirections, with the number of the line. -/
  | simple (line : Nat) (assigns : List (String × Word)) (words : List Word)
      (redirects : List Redirect)
  /-- Each command writes to the next. -/
  | pipeline (parts : List Command)
  | negation (c : Command)
  /-- The second one is run if the first succeeds. -/
  | both (first second : Command)
  /-- The second one is run if the first fails. -/
  | either (first second : Command)
  | sequence (first second : Command)
  | background (c : Command)
  /-- Run apart: what it assigns is not seen outside. -/
  | apart (c : Command)
  | choice (condition yes no : Command)
  /-- Repeated as long as the condition succeeds or fails, as `success` says. -/
  | loop (success : Bool) (condition body : Command)
  /-- Run for each of the words, or for each argument if no words are given. -/
  | each (line : Nat) (name : String) (words : Option (List Word)) (body : Command)
  | select (line : Nat) (subject : Word) (cases : List (List Word × Command))
  | define (name : String) (body : Command)
  | redirected (line : Nat) (c : Command) (redirects : List Redirect)
deriving Repr, Inhabited

/-- The letters of a word in which nothing is quoted and nothing is replaced. -/
def literal? : Word → Option (List Char)
  | [] => some []
  | .letter false c :: w => (literal? w).map (c :: ·)
  | _ => none

def keywords : List String :=
  ["!", "\x7b", "\x7d", "if", "then", "elif", "else", "fi", "do", "done", "while", "until", "for",
   "case", "esac", "in"]

/-- The word as a keyword, if it is one. -/
def keyword? (w : Word) : Option String :=
  match literal? w with
  | some cs => if keywords.contains (String.ofList cs) then some (String.ofList cs) else none
  | none => none

def isName : List Char → Bool
  | [] => false
  | c :: s => (Grammar.isLetter c || c == '_') && s.all Grammar.isNameChar

/-- Splits a word of the form `name=value`. -/
def assignment? (w : Word) : Option (String × Word) :=
  let isOther (p : Piece) : Bool :=
    match p with
    | .letter false c => c != '='
    | _ => false
  match literal? (w.takeWhile isOther), w.dropWhile isOther with
  | some name, .letter false '=' :: value =>
    if isName name then some (String.ofList name, value) else none
  | _, _ => none

end TaskRunner.Shell
