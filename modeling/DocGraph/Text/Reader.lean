import DocGraph.Text.Affix

set_option autoImplicit false

namespace DocGraph

abbrev Reader := StateT (List Char) Option

namespace Reader

variable {α : Type}

def literal (text : String) : Reader Unit := fun input =>
  (Text.after? text.toList input).map (fun rest => ((), rest))

def notAhead (item : Reader α) : Reader Unit := fun input =>
  match item input with
  | some _ => none
  | none => some ((), input)

def upTo (item : Reader α) : Nat → Reader (List α)
  | 0 => pure []
  | limit + 1 =>
      (do
        let first ← item
        let rest ← upTo item limit
        return first :: rest)
      <|> pure []

-- As many items as there are. An item takes at least one character, so the length of the text
-- bounds their number.
def many (item : Reader α) : Reader (List α) := do
  upTo item (← get).length

def many1 (item : Reader α) : Reader (List α) := do
  let first ← item
  let rest ← many item
  return first :: rest

def whole? (item : Reader α) (finish : List Char → List Char) (text : String) : Option α :=
  match item text.toList with
  | some (value, rest) => if (finish rest).isEmpty then some value else none
  | none => none

end Reader

end DocGraph
