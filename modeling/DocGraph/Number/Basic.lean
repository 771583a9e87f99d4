import DocGraph.Number.Double
import DocGraph.Text.Numeral

set_option autoImplicit false

namespace DocGraph

/-- An exact integer, or a double-precision number, which is passed on and never computed with. -/
inductive Number where
  | int (value : Int)
  | double (value : Double)
deriving DecidableEq, Repr

namespace Magnitude

def lastPower : Nat := 308

def lower (value : Magnitude) : Nat → Magnitude
  | 0 => value
  | times + 1 =>
      if value.mantissa = 0 then value else lower (value.divide (powerOfTen lastPower)) times

-- The value `significand * 10 ^ scale`, unless it is beyond the doubles. A negative power of ten is a
-- divisor, in as few steps as powers of ten allow.
def ofScaled? (significand : Nat) (scale : Int) : Option Magnitude :=
  let value := ofNat significand
  if scale < 0 then
    let places := scale.natAbs - 1
    some ((value.lower (places / lastPower)).divide (powerOfTen (places % lastPower + 1)))
  else if significand = 0 then some zero
  else if lastPower < scale then none
  else
    let product := value.multiply (powerOfTen scale.toNat)
    if product.isFinite then some product else none

end Magnitude

def extendSignificand (significand : Nat) : List Char → Nat × List Char
  | [] => (significand, [])
  | digit :: rest =>
      let longer := Text.appendDigit significand digit
      if longer ≤ 0xffffffffffffffff then extendSignificand longer rest else (significand, digit :: rest)

-- The significand and the power of ten of a numeral. Digits of the whole part that the significand leaves
-- out count as places, and those of the fraction do not.
def Text.Numeral.scaled (numeral : Text.Numeral) : Nat × Int :=
  let (leading, places) := extendSignificand 0 numeral.wholeDigits
  let (significand, dropped) := extendSignificand leading numeral.fractionDigits
  let taken := numeral.fractionDigits.length - dropped.length
  (significand, numeral.exponentValue + places.length - taken)

def Double.ofNumeral? (numeral : Text.Numeral) : Option Double := do
  let (significand, scale) := numeral.scaled
  return ⟨numeral.isNegative, ← Magnitude.ofScaled? significand scale⟩

namespace Number

def isExact (value : Int) : Bool :=
  decide (-0x8000000000000000 ≤ value ∧ value ≤ 0xffffffffffffffff)

def ofNumeral? (numeral : Text.Numeral) : Option Number :=
  let value := Text.integerValue numeral.whole
  if numeral.isWhole && isExact value && numeral.whole != ['-', '0'] then some (.int value)
  else (Double.ofNumeral? numeral).map Number.double

end Number

end DocGraph
