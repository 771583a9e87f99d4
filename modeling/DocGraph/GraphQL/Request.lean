import DocGraph.GraphQL.Value

set_option autoImplicit false

namespace DocGraph.GraphQL

inductive SelectionSet where
  | nil
  | field (alias? : Option String) (name : String) (arguments : List Argument)
      (directives : List Directive) (selections : SelectionSet) (rest : SelectionSet)
  | inline (condition : Option String) (directives : List Directive) (selections : SelectionSet)
      (rest : SelectionSet)
  | spread (fragment : String) (directives : List Directive) (rest : SelectionSet)

namespace SelectionSet

def isEmpty : SelectionSet → Bool
  | .nil => true
  | _ => false

-- The selections of the fields of a selection set that answer to a response key, a field answering
-- to its alias if it has one. Fields inside fragments do not count.
def answering (key : String) : SelectionSet → List SelectionSet
  | .nil => []
  | .field alias? name _ _ selections rest =>
      if alias?.getD name = key then selections :: rest.answering key else rest.answering key
  | .inline _ _ _ rest => rest.answering key
  | .spread _ _ rest => rest.answering key

end SelectionSet

inductive OperationKind where
  | query
  | mutation
  | subscription
deriving DecidableEq, Repr

structure VariableDefinition where
  name : String
  type : TypeNode
  directives : List Directive
  default? : Option Value

structure Operation where
  kind : OperationKind
  name : Option String
  variableDefinitions : List VariableDefinition
  directives : List Directive
  selections : SelectionSet

structure Fragment where
  name : String
  condition : String
  directives : List Directive
  selections : SelectionSet

-- Operations stand in the order in which the map that holds them is iterated, which need not be that of the text.
structure Request where
  operations : List Operation
  fragments : List Fragment

def Request.fragment? (request : Request) (name : String) : Option Fragment :=
  request.fragments.find? (fun fragment => fragment.name == name)

namespace Reader

open DocGraph.Reader

-- Nothing but blanks stands between `on` and the name, so `onFoo` is a name of its own.
def typeCondition : Reader String := do
  symbol "on"
  blanks
  bareName

def responseAlias : Reader String := do
  let name ← name
  symbol ":"
  return name

def someSelections (selections : Reader SelectionSet) : Reader SelectionSet :=
  braced (do
    let read ← selections
    if read.isEmpty then failure else return read)

-- The selections ahead, none included. Each takes at least one character, so a bound above the
-- length of the text is never reached.
def selections : Nat → Reader SelectionSet
  | 0 => pure .nil
  | limit + 1 =>
      (do
        let alias? ← optional responseAlias
        let name ← name
        let arguments ← optional (arguments false)
        let directives ← directives false
        let inner ← optional (someSelections (selections limit))
        let rest ← selections limit
        return .field alias? name (arguments.getD []) directives (inner.getD .nil) rest)
      <|> (do
        symbol "..."
        let condition ← optional typeCondition
        let directives ← directives false
        let inner ← someSelections (selections limit)
        let rest ← selections limit
        return .inline condition directives inner rest)
      <|> (do
        symbol "..."
        notAhead typeCondition
        let fragment ← name
        let directives ← directives false
        let rest ← selections limit
        return .spread fragment directives rest)
      <|> pure .nil

def selectionSet : Reader SelectionSet := do
  someSelections (selections ((← get).length + 1))

def operationKind : Reader OperationKind :=
  (symbol "query" *> pure .query)
  <|> (symbol "mutation" *> pure .mutation)
  <|> (symbol "subscription" *> pure .subscription)

def variableDefinition : Reader VariableDefinition := do
  let name ← variableName
  symbol ":"
  let type ← typeNode
  let directives ← directives false
  let default? ← optional (symbol "=" *> value true)
  return { name, type, directives, default? }

def operation : Reader Operation :=
  (do
    let kind ← operationKind
    let name ← optional name
    let variableDefinitions ← optional (enclosed "(" ")" (many variableDefinition))
    let directives ← directives false
    let selections ← selectionSet
    return { kind, name, variableDefinitions := variableDefinitions.getD [], directives, selections })
  <|> (do
    let selections ← selectionSet
    return { kind := .query, name := none, variableDefinitions := [], directives := [], selections })

def fragment : Reader Fragment := do
  symbol "fragment"
  let name ← name
  let condition ← typeCondition
  let directives ← directives false
  let selections ← selectionSet
  return { name, condition, directives, selections }

def definitions : Reader (List (Operation ⊕ Fragment)) :=
  many1 ((Sum.inl <$> operation) <|> (Sum.inr <$> fragment))

end Reader

def Operation.compatible : List Operation → Bool
  | [] => false
  | [_] => true
  | operations =>
      operations.all (fun operation => operation.name.isSome)
        && decide ((operations.map Operation.name).Nodup)

def Request.ofDefinitions (definitions : List (Operation ⊕ Fragment)) : Request where
  operations := definitions.filterMap Sum.getLeft?
  fragments := definitions.filterMap Sum.getRight?

def Request.ofText? (text : String) : Option Request := do
  let request := Request.ofDefinitions (← Reader.document? Reader.definitions text)
  if Operation.compatible request.operations && decide ((request.fragments.map Fragment.name).Nodup) then
    some request
  else none

def Request.answering (request : Request) (key : String) : List SelectionSet :=
  request.operations.flatMap (fun operation => operation.selections.answering key)

end DocGraph.GraphQL
