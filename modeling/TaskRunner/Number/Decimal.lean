import TaskRunner.Number.Basic

/-!
# Decimal text of a number

`inFull` writes a number with six places after the point, rounded from its exact value with a half
going to the even digit. `fixed` then drops the zeros at the end and a point that is left bare. It
is the form that commands and messages see. `ofDecimal` goes the other way and reads a literal.
-/
namespace TaskRunner.Number

/-- The decimal digits of `n`, most significant first. -/
def digits (n : Nat) : List Char := Nat.toDigits 10 n

/-- The value of a run of decimal digits. -/
def ofDigits (ds : List Char) : Nat :=
  ds.foldl (fun n d => 10 * n + (d.toNat - '0'.toNat)) 0

/-- Number of places after the point. -/
def places : Nat := 6

/-- The value in units of the last place kept, rounded. -/
def inPlaces (mantissa : Nat) (exponent : Int) : Nat :=
  roundScaled (mantissa * Nat.pow 10 places) 1 exponent

/-- The digits after the point, with zeros in front. -/
def placeDigits (f : Nat) : List Char :=
  let ds := digits f
  List.replicate (places - ds.length) '0' ++ ds

/-- A magnitude given in units of the last place, with all places. -/
def fullMagnitude (n : Nat) : List Char :=
  digits (n / Nat.pow 10 places) ++ '.' :: placeDigits (n % Nat.pow 10 places)

/-- A number with all places. The sign is that of the sign bit, so a negative number that rounds to
nothing has one too. -/
def inFull (x : Number) : List Char :=
  match x.view with
  | .nan => "NaN".toList
  | .infinite negative => if negative then "-inf".toList else "inf".toList
  | .finite negative m e => (if negative then ['-'] else []) ++ fullMagnitude (inPlaces m e)

/-- A text without the zeros at its end. -/
def dropZeros (s : List Char) : List Char := (s.reverse.dropWhile (· == '0')).reverse

/-- A text without the point at its end, if there is one. -/
def dropPoint (s : List Char) : List Char := if s.getLast? = some '.' then s.dropLast else s

/-- Text of a number in commands and messages. -/
def fixed (x : Number) : List Char :=
  let text := x.inFull
  if text.contains '.' then dropPoint (dropZeros text) else text

def format (x : Number) : String := String.ofList x.fixed

/-- The number nearest to the decimal `whole.fraction`, both parts runs of digits. -/
def ofDecimal (whole fraction : List Char) : Number :=
  ofRatio false (ofDigits (whole ++ fraction)) (Nat.pow 10 fraction.length)

/-- The number nearest to `± coefficient · 10 ^ power`. -/
def ofScientific (negative : Bool) (coefficient : Nat) (power : Int) : Number :=
  if 0 ≤ power then ofRatio negative (coefficient * Nat.pow 10 power.toNat) 1
  else ofRatio negative coefficient (Nat.pow 10 (-power).toNat)

end TaskRunner.Number
