/-!
# Lines and places

A line ends at a line feed, and a carriage return right before it belongs to the line end. The text
after the last line feed is a line only if it is not empty. Places are counted in characters:
`lineNumber` and `column` are those of the position just after the given text.
-/
namespace TaskRunner.Text

/-- The lines of a text, without their ends. -/
def lines : List Char → List (List Char)
  | [] => []
  | '\n' :: s => [] :: lines s
  | '\r' :: '\n' :: s => [] :: lines s
  | c :: s =>
    match lines s with
    | [] => [[c]]
    | l :: ls => (c :: l) :: ls

/-- Number of the line that the position after `before` stands on, from one. -/
def lineNumber (before : List Char) : Nat := 1 + before.count '\n'

/-- Column of the position after `before`, from one. -/
def column (before : List Char) : Nat := 1 + (before.reverse.takeWhile (· != '\n')).length

/-- Length in UTF-8 bytes. -/
def byteLength (s : List Char) : Nat := s.foldr (fun c n => c.utf8Size + n) 0

/-- The longest start of `s` that is at most `n` bytes long. -/
def takeBytes : Nat → List Char → List Char
  | _, [] => []
  | n, c :: s => if c.utf8Size ≤ n then c :: takeBytes (n - c.utf8Size) s else []

end TaskRunner.Text
