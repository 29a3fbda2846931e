import TaskRunner.Number.Basic

/-!
# Arithmetic on numbers

Sum, difference, product and quotient are those of the hardware. The remainder takes the sign of
the dividend and is exact, so it is computed on integers. `truncate` is the way from a number to an
exit code: towards zero, and clamped to the 32 bit range.
-/
namespace TaskRunner.Number

def toFloat (x : Number) : Float := Float.ofBits x.bits

def ofFloat (f : Float) : Number := ⟨f.toBits⟩

def add (x y : Number) : Number := ofFloat (x.toFloat + y.toFloat)

def sub (x y : Number) : Number := ofFloat (x.toFloat - y.toFloat)

def mul (x y : Number) : Number := ofFloat (x.toFloat * y.toFloat)

def div (x y : Number) : Number := ofFloat (x.toFloat / y.toFloat)

/-- Flips the sign bit, of zero too. -/
def neg (x : Number) : Number := ⟨x.bits ^^^ 0x8000000000000000⟩

/-- What is left of `x` after taking `y` away as often as it fits. Both are brought to the smaller
of the two exponents, where the remainder is one of integers. -/
def rem (x y : Number) : Number :=
  match x.view, y.view with
  | .finite negative m e, .finite _ n f =>
    if n = 0 then nan
    else
      let unit := min e f
      let r := (m <<< (e - unit).toNat) % (n <<< (f - unit).toNat)
      ofScaled negative r unit
  | .finite _ _ _, .infinite _ => x
  | _, _ => nan

/-- The integer part of a finite `± mantissa · 2 ^ exponent`. -/
def integerPart (negative : Bool) (mantissa : Nat) (exponent : Int) : Int :=
  let whole : Nat :=
    if 0 ≤ exponent then mantissa <<< exponent.toNat else mantissa >>> (-exponent).toNat
  if negative then -(whole : Int) else whole

def clamp (x : Int) : Int := max (-2147483648) (min x 2147483647)

/-- Towards zero, clamped to 32 bits. What is not a number gives zero. -/
def truncate (x : Number) : Int :=
  match x.view with
  | .nan => 0
  | .infinite negative => if negative then -2147483648 else 2147483647
  | .finite negative m e => clamp (integerPart negative m e)

end TaskRunner.Number
