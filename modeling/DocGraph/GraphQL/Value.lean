import DocGraph.GraphQL.StringLiteral
import DocGraph.Number.Basic

set_option autoImplicit false

namespace DocGraph.GraphQL

inductive Value where
  | variable (name : String)
  | number (value : Number)
  | text (content : String)
  | boolean (value : Bool)
  | null
  | enumValue (name : String)
  | list (items : List Value)
  | object (fields : List (String × Value))

namespace Value

mutual
def same : Value → Value → Bool
  | .variable name, .variable other => name == other
  | .number value, .number other => value == other
  | .text content, .text other => content == other
  | .boolean value, .boolean other => value == other
  | .null, .null => true
  | .enumValue name, .enumValue other => name == other
  | .list items, .list others => sameItems items others
  | .object fields, .object others => sameFields fields others
  | _, _ => false
termination_by structural value => value
def sameItems : List Value → List Value → Bool
  | [], [] => true
  | value :: rest, other :: others => same value other && sameItems rest others
  | _, _ => false
termination_by structural items => items
def sameFields : List (String × Value) → List (String × Value) → Bool
  | [], [] => true
  | (name, value) :: rest, (key, other) :: others => name == key && same value other && sameFields rest others
  | _, _ => false
termination_by structural fields => fields
end

mutual
theorem same_iff (value other : Value) : same value other = true ↔ value = other := by
  cases value with
  | list items =>
      cases other with
      | list others => rw [same, same_items_iff items others, list.injEq]
      | _ => simp [same]
  | object fields =>
      cases other with
      | object others => rw [same, same_fields_iff fields others, object.injEq]
      | _ => simp [same]
  | _ => cases other <;> simp [same]
termination_by structural value
theorem same_items_iff (items others : List Value) : sameItems items others = true ↔ items = others := by
  cases items with
  | nil => cases others <;> simp [sameItems]
  | cons value rest =>
      cases others with
      | nil => simp [sameItems]
      | cons other others =>
          rw [sameItems, Bool.and_eq_true, same_iff value other, same_items_iff rest others, List.cons.injEq]
termination_by structural items
theorem same_fields_iff (fields others : List (String × Value)) : sameFields fields others = true ↔ fields = others := by
  cases fields with
  | nil => cases others <;> simp [sameFields]
  | cons field rest =>
      cases others with
      | nil => simp [sameFields]
      | cons other others =>
          rcases field with ⟨name, value⟩
          rcases other with ⟨key, other⟩
          rw [sameFields, Bool.and_eq_true, Bool.and_eq_true, beq_iff_eq, same_iff value other,
            same_fields_iff rest others, List.cons.injEq, Prod.mk.injEq]
termination_by structural fields
end

instance : DecidableEq Value := fun value other => decidable_of_iff (same value other = true) (same_iff value other)

end Value

structure Argument where
  name : String
  value : Value
deriving DecidableEq

structure Directive where
  name : String
  arguments : List Argument
deriving DecidableEq

def Directive.argument? (directive : Directive) (name : String) : Option Value :=
  (directive.arguments.find? (fun argument => argument.name == name)).map Argument.value

inductive TypeNode where
  | named (name : String)
  | list (of : TypeNode)
  | nonNull (of : TypeNode)
deriving DecidableEq, Repr

namespace Reader

open DocGraph.Reader

def number : Reader Number := do
  ignored
  let numeral ← Text.numeral
  notAhead bareName
  Number.ofNumeral? numeral

def boolean : Reader Bool := (symbol "true" *> pure true) <|> (symbol "false" *> pure false)

def enumName : Reader String := do
  ignored
  notAhead (literal "true" <|> literal "false" <|> literal "null")
  bareName

def variableName : Reader String := do
  symbol "$"
  name

def valueAt (constant : Bool) : Nat → Reader Value
  | 0 => failure
  | depth + 1 =>
      (if constant then failure else Value.variable <$> variableName)
      <|> (Value.number <$> number)
      <|> (Value.text <$> stringLiteral)
      <|> (Value.boolean <$> boolean)
      <|> (symbol "null" *> pure Value.null)
      <|> (Value.enumValue <$> enumName)
      <|> (Value.list <$> enclosed "[" "]" (many (valueAt constant depth)))
      <|> (Value.object <$> braced (many (do
            let key ← name
            symbol ":"
            let value ← valueAt constant depth
            return (key, value))))

def value (constant : Bool) : Reader Value := do
  valueAt constant ((← get).length + 1)

def argument (constant : Bool) : Reader Argument := do
  let name ← name
  symbol ":"
  return ⟨name, ← value constant⟩

def arguments (constant : Bool) : Reader (List Argument) :=
  enclosed "(" ")" (many1 (argument constant))

def directive (constant : Bool) : Reader Directive := do
  symbol "@"
  let name ← name
  return ⟨name, (← optional (arguments constant)).getD []⟩

def directives (constant : Bool) : Reader (List Directive) := many (directive constant)

-- A type reference is one token: nothing is dropped between its parts.
def typeNodeAt : Nat → Reader TypeNode
  | 0 => failure
  | depth + 1 => do
      let base ←
        (TypeNode.named <$> bareName)
        <|> (do
          literal "["
          let of ← typeNodeAt depth
          literal "]"
          return .list of)
      (literal "!" *> pure (.nonNull base)) <|> pure base

def typeNode : Reader TypeNode := do
  ignored
  typeNodeAt ((← get).length + 1)

end Reader

end DocGraph.GraphQL
