import DocGraph.Number.Basic

set_option autoImplicit false

namespace DocGraph

structure Decimal where
  digits : Nat
  scale : Int
deriving DecidableEq, Repr

namespace Decimal

def compareBinary (decimal : Decimal) (count : Nat) (exponent : Int) : Ordering :=
  compare ((decimal.digits * Nat.pow 10 decimal.scale.toNat) <<< (-exponent).toNat)
    ((count * Nat.pow 10 (-decimal.scale).toNat) <<< exponent.toNat)

def text (decimal : Decimal) : String :=
  let written := Nat.toDigits 10 decimal.digits
  let digits := (written.reverse.dropWhile (fun digit => digit == '0')).reverse
  let point := (written.length : Int) + decimal.scale
  let count := point.toNat
  if 0 < point ∧ point ≤ 16 then
    let whole := digits.take count ++ List.replicate (count - digits.length) '0'
    let fraction := if digits.length ≤ count then ['0'] else digits.drop count
    String.ofList (whole ++ '.' :: fraction)
  else if -5 < point ∧ point ≤ 0 then
    String.ofList ('0' :: '.' :: List.replicate (-point).toNat '0' ++ digits)
  else
    let fraction := if digits.length ≤ 1 then [] else '.' :: digits.drop 1
    String.ofList (digits.take 1 ++ fraction) ++ "e" ++ toString (point - 1)

end Decimal

namespace Magnitude

def decimal (value : Magnitude) : Decimal :=
  let places := (-value.exponent).toNat
  ⟨(value.mantissa * Nat.pow 5 places) <<< value.exponent.toNat, -places⟩

-- Whether a decimal rounds to a magnitude. The gap below a power of two is half as wide.
def roundsFrom (value : Magnitude) (decimal : Decimal) : Bool :=
  let narrow := value.mantissa == 0x10000000000000 && value.exponent != leastExponent
  let low := decimal.compareBinary (4 * value.mantissa - if narrow then 1 else 2) (value.exponent - 2)
  let high := decimal.compareBinary (4 * value.mantissa + 2) (value.exponent - 2)
  let ends := value.mantissa % 2 == 0
  (low == .gt || (ends && low == .eq)) && (high == .lt || (ends && high == .eq))

def cutAt? (value : Magnitude) (place : Nat) : Option Decimal :=
  let exact := value.decimal
  let unit := Nat.pow 10 place
  let below := exact.digits / unit
  let nearest := roundQuotient exact.digits unit
  let farther := if nearest = below then below + 1 else below
  [nearest, farther].map (fun digits => ⟨digits, exact.scale + place⟩) |>.find? value.roundsFrom

def shortest (value : Magnitude) : Decimal :=
  let length := (Nat.toDigits 10 value.decimal.digits).length
  ((List.range length).findSome? (fun kept => value.cutAt? (length - 1 - kept))).getD value.decimal

end Magnitude

def Double.text (value : Double) : String :=
  let unsigned := if value.magnitude.mantissa = 0 then "0.0" else value.magnitude.shortest.text
  if value.negative then "-" ++ unsigned else unsigned

def Number.text : Number → String
  | .int value => toString value
  | .double value => value.text

end DocGraph
