import DocGraph.Text.Reader

set_option autoImplicit false

namespace DocGraph.GraphQL

def isLineEnd (c : Char) : Bool := c == '\n' || c == '\r'

def isBlank (c : Char) : Bool :=
  c == ' ' || c == ',' || c == '\t' || c == '\ufeff' || isLineEnd c

def dropIgnored (inComment : Bool) : List Char → List Char
  | [] => []
  | c :: rest =>
      if inComment then dropIgnored (!isLineEnd c) rest
      else if isBlank c then dropIgnored false rest
      else if c == '#' then dropIgnored true rest
      else c :: rest

def isNameStart (c : Char) : Bool := c.isAlpha || c == '_'

def isNamePart (c : Char) : Bool := c.isAlphanum || c == '_'

namespace Reader

open DocGraph.Reader

variable {α : Type}

def ignored : Reader Unit := modify (dropIgnored false)

def symbol (text : String) : Reader Unit := do
  ignored
  literal text

def enclosed (start stop : String) (content : Reader α) : Reader α := do
  symbol start
  let value ← content
  symbol stop
  return value

def braced (content : Reader α) : Reader α := enclosed "\x7b" "\x7d" content

def bareName : Reader String
  | [] => none
  | c :: rest =>
      if isNameStart c then
        some (String.ofList (c :: rest.takeWhile isNamePart), rest.dropWhile isNamePart)
      else none

def name : Reader String := do
  ignored
  bareName

def blanks : Reader Unit
  | [] => none
  | c :: rest => if isBlank c then some ((), rest.dropWhile isBlank) else none

def document? (item : Reader α) (text : String) : Option α := item.whole? (dropIgnored false) text

end Reader

end DocGraph.GraphQL
