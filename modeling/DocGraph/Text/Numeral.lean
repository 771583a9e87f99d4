import DocGraph.Text.Reader

set_option autoImplicit false

namespace DocGraph.Text

def digits? (text : List Char) : Option (List Char × List Char) :=
  match text.takeWhile Char.isDigit with
  | [] => none
  | run => some (run, text.dropWhile Char.isDigit)

def natural? : List Char → Option (List Char × List Char)
  | '0' :: rest => some (['0'], rest)
  | text => digits? text

def integer? : List Char → Option (List Char × List Char)
  | '-' :: rest => (natural? rest).map (fun (run, after) => ('-' :: run, after))
  | text => natural? text

def fraction? : List Char → Option (List Char × List Char)
  | '.' :: rest => (digits? rest).map (fun (run, after) => ('.' :: run, after))
  | _ => none

def signed? : List Char → Option (List Char × List Char)
  | '+' :: rest => (digits? rest).map (fun (run, after) => ('+' :: run, after))
  | '-' :: rest => (digits? rest).map (fun (run, after) => ('-' :: run, after))
  | text => digits? text

def exponent? : List Char → Option (List Char × List Char)
  | mark :: rest =>
      if mark == 'e' || mark == 'E' then
        (signed? rest).map (fun (run, after) => (mark :: run, after))
      else none
  | [] => none

def appendDigit (value : Nat) (digit : Char) : Nat := 10 * value + (digit.toNat - '0'.toNat)

def naturalValue (digits : List Char) : Nat := digits.foldl appendDigit 0

def integerValue : List Char → Int
  | '-' :: digits => -(naturalValue digits : Int)
  | digits => naturalValue digits

structure Numeral where
  whole : List Char
  fraction : List Char
  exponent : List Char
deriving DecidableEq, Repr

namespace Numeral

def isWhole (numeral : Numeral) : Bool := numeral.fraction.isEmpty && numeral.exponent.isEmpty

def isNegative (numeral : Numeral) : Bool := numeral.whole.head? == some '-'

def wholeDigits (numeral : Numeral) : List Char := numeral.whole.filter Char.isDigit

def fractionDigits (numeral : Numeral) : List Char := numeral.fraction.filter Char.isDigit

def exponentValue (numeral : Numeral) : Int :=
  integerValue (numeral.exponent.filter (fun c => c.isDigit || c == '-'))

end Numeral

def numeral : Reader Numeral := do
  let whole ← (integer? : Reader (List Char))
  let fraction ← optional (fraction? : Reader (List Char))
  let exponent ← optional (exponent? : Reader (List Char))
  return ⟨whole, fraction.getD [], exponent.getD []⟩

end DocGraph.Text
