import TaskRunner.Number.Arithmetic
import TaskRunner.Number.Decimal

/-!
# Reading a number

The text of a number has an optional sign. Behind it stand digits, with a point among them, before
them or after them, and an optional power of ten, or else one of the words `inf`, `infinity` and
`nan` in letters of either case. Any other text is no number.
-/
namespace TaskRunner.Number

/-- Whether a text starts with a minus sign, and what is behind its sign. -/
def sign : List Char → Bool × List Char
  | '-' :: s => (true, s)
  | '+' :: s => (false, s)
  | s => (false, s)

/-- The power of ten at the end of a number, if there is nothing else. -/
def power? : List Char → Option Int
  | [] => some 0
  | c :: s =>
    let (negative, ds) := sign s
    if (c = 'e' ∨ c = 'E') ∧ ds ≠ [] ∧ ds.all Char.isDigit then
      some (if negative then -(ofDigits ds : Int) else ofDigits ds)
    else none

/-- A word that stands for a number, without its sign. -/
def ofWord? (s : List Char) : Option Number :=
  let word := s.map Char.toLower
  if word = ['i', 'n', 'f'] ∨ word = ['i', 'n', 'f', 'i', 'n', 'i', 't', 'y'] then
    some (infinity false)
  else if word = ['n', 'a', 'n'] then some nan
  else none

/-- A number without its sign, in digits. -/
def ofUnsigned? (negative : Bool) (s : List Char) : Option Number :=
  let whole := s.takeWhile Char.isDigit
  let (fraction, rest) :=
    match s.dropWhile Char.isDigit with
    | '.' :: t => (t.takeWhile Char.isDigit, t.dropWhile Char.isDigit)
    | t => ([], t)
  if whole ++ fraction = [] then none
  else
    (power? rest).map fun power =>
      ofScientific negative (ofDigits (whole ++ fraction)) (power - fraction.length)

/-- The number that a text stands for. -/
def parse? (s : List Char) : Option Number :=
  let (negative, t) := sign s
  match ofWord? t with
  | some x => some (if negative then x.neg else x)
  | none => ofUnsigned? negative t

end TaskRunner.Number
