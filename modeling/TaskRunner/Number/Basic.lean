/-!
# Numbers

A number of a script is a binary64 value. It is kept as its 64 bits, so that two numbers are equal
exactly when they are the same number, the sign of zero included, and every exact statement about
a number starts from `Number.view`, which reads the bits as `± mantissa · 2 ^ exponent`.
-/
namespace TaskRunner

/-- A binary64 number, by its bit pattern. -/
structure Number where
  bits : UInt64
deriving DecidableEq, Repr, Inhabited

namespace Number

/-- What a bit pattern stands for. A finite number is `± mantissa · 2 ^ exponent`. -/
inductive View where
  | nan
  | infinite (negative : Bool)
  | finite (negative : Bool) (mantissa : Nat) (exponent : Int)
deriving DecidableEq, Repr

/-- The sign bit. It is set for `-0` too. -/
def isNegative (x : Number) : Bool := 1 <<< 63 ≤ x.bits.toNat

def exponentField (x : Number) : Nat := (x.bits.toNat >>> 52) % (1 <<< 11)

def fraction (x : Number) : Nat := x.bits.toNat % (1 <<< 52)

def view (x : Number) : View :=
  if x.exponentField = 2047 then
    if x.fraction = 0 then .infinite x.isNegative else .nan
  else if x.exponentField = 0 then .finite x.isNegative x.fraction (-1074)
  else .finite x.isNegative (1 <<< 52 + x.fraction) ((x.exponentField : Int) - 1075)

/-- The number with the given sign whose other 63 bits are `magnitude`. -/
def ofMagnitude (negative : Bool) (magnitude : Nat) : Number :=
  ⟨UInt64.ofNat (if negative then 1 <<< 63 + magnitude else magnitude)⟩

def nan : Number := ⟨0x7ff8000000000000⟩

def infinity (negative : Bool) : Number := ofMagnitude negative (2047 <<< 52)

/-! ## Rounding -/

/-- The integer nearest to `num / den`; a half goes to the even neighbour. -/
def roundDiv (num den : Nat) : Nat :=
  let q := num / den
  let r := num % den
  if 2 * r < den then q
  else if den < 2 * r then q + 1
  else q + q % 2

/-- `num · 2 ^ shift / den`, rounded to an integer. -/
def roundScaled (num den : Nat) (shift : Int) : Nat :=
  if 0 ≤ shift then roundDiv (num <<< shift.toNat) den
  else roundDiv num (den <<< (-shift).toNat)

/-- The exponent at which `num / den` has 53 significant bits, or the least exponent there is. -/
def unitExponent (num den : Nat) : Int :=
  let guess : Int := (num.log2 : Int) - (den.log2 : Int) - 52
  let exact : Int :=
    if 0 ≤ guess then (if num < den <<< (52 + guess.toNat) then guess - 1 else guess)
    else (if num <<< (-guess).toNat < den <<< 52 then guess - 1 else guess)
  max exact (-1074)

/-- The number nearest to `± num / den`; a half goes to the even mantissa, and what is too large
becomes infinite. A mantissa that rounds up to `2 ^ 53` carries into the exponent field by itself. -/
def ofRatio (negative : Bool) (num den : Nat) : Number :=
  if num = 0 then ofMagnitude negative 0
  else
    let e := unitExponent num den
    let magnitude := (e + 1074).toNat <<< 52 + roundScaled num den (-e)
    ofMagnitude negative (min magnitude (2047 <<< 52))

/-- The number nearest to `± mantissa · 2 ^ exponent`. -/
def ofScaled (negative : Bool) (mantissa : Nat) (exponent : Int) : Number :=
  if 0 ≤ exponent then ofRatio negative (mantissa <<< exponent.toNat) 1
  else ofRatio negative mantissa (1 <<< (-exponent).toNat)

end Number

end TaskRunner
