
set_option autoImplicit false

namespace DocGraph

def roundQuotient (numerator denominator : Nat) : Nat :=
  let whole := numerator / denominator
  match compare (2 * (numerator % denominator)) denominator with
  | .lt => whole
  | .eq => whole + whole % 2
  | .gt => whole + 1

structure Magnitude where
  mantissa : Nat
  exponent : Int
deriving DecidableEq, Repr

namespace Magnitude

def leastExponent : Int := -1074

def zero : Magnitude := ⟨0, leastExponent⟩

def isFinite (value : Magnitude) : Bool := decide (value.exponent ≤ 971)

-- The magnitude nearest to `numerator / denominator * 2 ^ shift`, a half going to the even mantissa.
-- The exponent has no upper bound here.
def nearest (numerator denominator : Nat) (shift : Int) : Magnitude :=
  if numerator = 0 then zero
  else
    let gap : Int := numerator.log2 - denominator.log2
    let width : Int := if numerator <<< (-gap).toNat < denominator <<< gap.toNat then 53 else 52
    let exponent := if shift + gap - width < leastExponent then leastExponent else shift + gap - width
    let places := exponent - shift
    let mantissa := roundQuotient (numerator <<< (-places).toNat) (denominator <<< places.toNat)
    if mantissa = 0x20000000000000 then ⟨0x10000000000000, exponent + 1⟩ else ⟨mantissa, exponent⟩

def ofNat (value : Nat) : Magnitude := nearest value 1 0

def powerOfTen (places : Nat) : Magnitude := ofNat (Nat.pow 10 places)

def multiply (first second : Magnitude) : Magnitude :=
  nearest (first.mantissa * second.mantissa) 1 (first.exponent + second.exponent)

def divide (dividend divisor : Magnitude) : Magnitude :=
  nearest dividend.mantissa divisor.mantissa (dividend.exponent - divisor.exponent)

end Magnitude

structure Double where
  negative : Bool
  magnitude : Magnitude
deriving DecidableEq, Repr

end DocGraph
