import DocGraph.Json.Basic
import DocGraph.Text.Escape

set_option autoImplicit false

namespace DocGraph.Json

def isBlank (c : Char) : Bool := c == ' ' || c == '\t' || c == '\n' || c == '\r'

def stringUnits : List Char → Option (List Nat × List Char)
  | [] => none
  | '"' :: rest => some ([], rest)
  | '\\' :: 'u' :: a :: b :: c :: d :: rest => do
      let unit ← Text.codeUnit? a b c d
      let (units, after) ← stringUnits rest
      return (unit :: units, after)
  | '\\' :: mark :: rest => do
      let char ← Text.escaped? mark
      let (units, after) ← stringUnits rest
      return (char.toNat :: units, after)
  | char :: rest => do
      let (units, after) ← stringUnits rest
      return (char.toNat :: units, after)

-- Joins each high surrogate with the low one after it.
def joinUnits : List Nat → List Char
  | [] => []
  | [unit] => [Char.ofNat unit]
  | high :: low :: rest =>
      if Text.isHighSurrogate high && Text.isLowSurrogate low then
        Char.ofNat (0x10000 + (high - 0xd800) * 0x400 + (low - 0xdc00)) :: joinUnits rest
      else Char.ofNat high :: joinUnits (low :: rest)

namespace Reader

open DocGraph.Reader

variable {α : Type}

def token (text : String) : Reader Unit := do
  modify (List.dropWhile isBlank)
  literal text

def string : Reader String := do
  token "\""
  let units ← (stringUnits : Reader (List Nat))
  return String.ofList (joinUnits units)

def separated (item : Reader α) : Reader (List α) := do
  match ← optional item with
  | none => return []
  | some first => return first :: (← many (token "," *> item))

def enclosed (start stop : String) (content : Reader α) : Reader α := do
  token start
  let value ← content
  token stop
  return value

def valueAt : Nat → Reader Json
  | 0 => failure
  | depth + 1 =>
      (Json.str <$> string)
      <|> (Json.obj <$> enclosed "\x7b" "\x7d" (separated (do
            let key ← string
            token ":"
            return (key, ← valueAt depth))))
      <|> (Json.arr <$> enclosed "[" "]" (separated (valueAt depth)))
      <|> (token "null" *> pure .null)
      <|> (token "true" *> pure (.bool true))
      <|> (token "false" *> pure (.bool false))
      <|> (do
        modify (List.dropWhile isBlank)
        return .num (← Number.ofNumeral? (← Text.numeral)))

def value : Reader Json := do
  valueAt ((← get).length + 1)

end Reader

def ofText? (text : String) : Option Json := Reader.value.whole? (List.dropWhile isBlank) text

end DocGraph.Json
