import DocGraph.Json.Basic
import DocGraph.Number.Shortest

set_option autoImplicit false

namespace DocGraph.Json

def escapeChar (c : Char) : List Char :=
  if c == '"' then ['\\', '"']
  else if c == '\\' then ['\\', '\\']
  else if c < ' ' then ['\\', 'u', '0', '0', Nat.digitChar (c.toNat / 16), Nat.digitChar (c.toNat % 16)]
  else [c]

def quoted (text : String) : String :=
  "\"" ++ String.ofList (text.toList.flatMap escapeChar) ++ "\""

mutual
def text : Json → String
  | .null => "null"
  | .bool true => "true"
  | .bool false => "false"
  | .num value => value.text
  | .str value => quoted value
  | .arr elements => "[" ++ elementsText elements ++ "]"
  | .obj members => "\x7b" ++ membersText members ++ "\x7d"
termination_by structural value => value
def elementsText : List Json → String
  | [] => ""
  | [element] => text element
  | element :: rest => text element ++ "," ++ elementsText rest
termination_by structural elements => elements
def membersText : Members → String
  | [] => ""
  | [(key, value)] => quoted key ++ ":" ++ text value
  | (key, value) :: rest => quoted key ++ ":" ++ text value ++ "," ++ membersText rest
termination_by structural members => members
end

end DocGraph.Json
