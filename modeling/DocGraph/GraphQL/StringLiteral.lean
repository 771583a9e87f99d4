import DocGraph.GraphQL.Reader
import DocGraph.Text.Escape
/-!
String literals of GraphQL: quoted ones with escapes, and block strings.

A block string loses the indentation that its lines after the first share and the blank lines at its
start and end. Else it is kept as written, also an escaped triple quote, which by the grammar stands
for three quotes.
-/

set_option autoImplicit false

namespace DocGraph.GraphQL

def scalarEscape? (a b c d : Char) : Option Char := do
  let code ← Text.codeUnit? a b c d
  if Text.isHighSurrogate code || Text.isLowSurrogate code then none else some (Char.ofNat code)

def quotedContent : List Char → Option (List Char × List Char)
  | [] => none
  | '"' :: rest => some ([], rest)
  | '\\' :: 'u' :: a :: b :: c :: d :: rest => do
      let unit ← scalarEscape? a b c d
      let (content, after) ← quotedContent rest
      return (unit :: content, after)
  | '\\' :: mark :: rest => do
      let char ← Text.escaped? mark
      let (content, after) ← quotedContent rest
      return (char :: content, after)
  | char :: rest =>
      if char == '\\' || isLineEnd char then none
      else do
        let (content, after) ← quotedContent rest
        return (char :: content, after)

def blockContent : List Char → Option (List Char × List Char)
  | [] => none
  | '\\' :: '"' :: '"' :: '"' :: rest => do
      let (content, after) ← blockContent rest
      return ('\\' :: '"' :: '"' :: '"' :: content, after)
  | '"' :: '"' :: '"' :: rest => some ([], rest)
  | char :: rest => do
      let (content, after) ← blockContent rest
      return (char :: content, after)

def lines : List Char → List (List Char)
  | [] => [[]]
  | '\r' :: '\n' :: rest => [] :: lines rest
  | char :: rest =>
      if isLineEnd char then [] :: lines rest
      else
        match lines rest with
        | [] => [[char]]
        | line :: others => (char :: line) :: others

def isIndent (c : Char) : Bool := c == '\t' || c == ' '

def indent? (line : List Char) : Option Nat :=
  if line.all isIndent then none else some (line.takeWhile isIndent).length

def unindent (width : Nat) (line : List Char) : List Char :=
  if width ≤ line.length then line.drop width else line

def trimBlankLines (block : List (List Char)) : List (List Char) :=
  let started := block.dropWhile (fun line => line.all isIndent)
  (started.reverse.dropWhile (fun line => line.all isIndent)).reverse

def blockValue (content : List Char) : List Char :=
  match lines content with
  | [] => []
  | first :: others =>
      let width := ((others.filterMap indent?).min?).getD 0
      ['\n'].intercalate (trimBlankLines (first :: others.map (unindent width)))

namespace Reader

open DocGraph.Reader

def quotedString : Reader String := fun input => do
  let rest ← Text.after? ['"'] input
  let (content, after) ← quotedContent rest
  return (String.ofList content, after)

def blockString : Reader String := fun input => do
  let rest ← Text.after? ['"', '"', '"'] input
  let (content, after) ← blockContent rest
  return (String.ofList (blockValue content), after)

def stringLiteral : Reader String := do
  ignored
  blockString <|> quotedString

end Reader

end DocGraph.GraphQL
