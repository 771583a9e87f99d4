import DocGraph.GraphQL.Value

set_option autoImplicit false

namespace DocGraph.GraphQL

structure InputValueDefinition where
  description : Option String
  name : String
  type : TypeNode
  default? : Option Value
  directives : List Directive
deriving DecidableEq

structure FieldDefinition where
  description : Option String
  name : String
  arguments : List InputValueDefinition
  type : TypeNode
  directives : List Directive
deriving DecidableEq

structure EnumValueDefinition where
  description : Option String
  name : String
  directives : List Directive
deriving DecidableEq

inductive TypeBody where
  | scalar
  | object (interfaces : List String) (fields : List FieldDefinition)
  | interface (interfaces : List String) (fields : List FieldDefinition)
  | union (members : List String)
  | enum (values : List EnumValueDefinition)
  | input (fields : List InputValueDefinition)
deriving DecidableEq

structure TypeDefinition where
  extension : Bool
  description : Option String
  name : String
  directives : List Directive
  body : TypeBody
deriving DecidableEq

inductive RootKind where
  | query
  | mutation
  | subscription
deriving DecidableEq, Repr

structure SchemaDefinition where
  extension : Bool
  directives : List Directive
  roots : List (RootKind × String)
deriving DecidableEq

structure DirectiveDefinition where
  description : Option String
  name : String
  arguments : List InputValueDefinition
  repeatable : Bool
  locations : List String
deriving DecidableEq

inductive Definition where
  | schema (definition : SchemaDefinition)
  | type (definition : TypeDefinition)
  | directive (definition : DirectiveDefinition)
deriving DecidableEq

def SchemaDefinition.valid (definition : SchemaDefinition) : Bool :=
  decide ((definition.roots.map Prod.fst).Nodup)
    && (definition.extension || definition.roots.any (fun root => root.1 == .query))

def Definition.valid : Definition → Bool
  | .schema definition => definition.valid
  | _ => true

-- The places a directive can be allowed at. A name comes before any name that it extends.
def directiveLocations : List String :=
  ["QUERY", "MUTATION", "SUBSCRIPTION", "FIELD_DEFINITION", "FIELD", "FRAGMENT_DEFINITION",
    "FRAGMENT_SPREAD", "INLINE_FRAGMENT", "VARIABLE_DEFINITION", "SCHEMA", "SCALAR", "OBJECT",
    "ARGUMENT_DEFINITION", "INTERFACE", "UNION", "ENUM_VALUE", "ENUM", "INPUT_OBJECT",
    "INPUT_FIELD_DEFINITION"]

namespace Reader

open DocGraph.Reader

variable {α : Type}

def description : Reader (Option String) := optional stringLiteral

def inputValueDefinition : Reader InputValueDefinition := do
  let description ← description
  let name ← name
  symbol ":"
  let type ← typeNode
  let default? ← optional (symbol "=" *> value true)
  let directives ← directives true
  return { description, name, type, default?, directives }

def argumentDefinitions : Reader (List InputValueDefinition) := do
  return (← optional (enclosed "(" ")" (many1 inputValueDefinition))).getD []

def fieldDefinition : Reader FieldDefinition := do
  let description ← description
  let name ← name
  let arguments ← argumentDefinitions
  symbol ":"
  let type ← typeNode
  let directives ← directives true
  return { description, name, arguments, type, directives }

def enumValueDefinition : Reader EnumValueDefinition := do
  let description ← description
  let name ← enumName
  let directives ← directives true
  return { description, name, directives }

def separated (separator : String) (item : Reader α) : Reader (List α) := do
  let _ ← optional (symbol separator)
  let first ← item
  let rest ← many (symbol separator *> item)
  return first :: rest

def interfaces : Reader (List String) := do
  symbol "implements"
  separated "&" name

def unionMembers : Reader (List String) := do
  symbol "="
  separated "|" name

def contentOf (members : Reader (List α)) : Reader (List Directive × List α) := do
  let directives ← directives true
  return (directives, (← optional members).getD [])

def extensionOf (members : Reader (List α)) : Reader (List Directive × List α) :=
  (do
    let directives ← directives true
    return (directives, ← members))
  <|> (do
    let directives ← many1 (directive true)
    return (directives, []))

def typeOf (keyword : String) (content extension : Reader (List Directive × TypeBody)) :
    Reader TypeDefinition :=
  (do
    let description ← description
    symbol keyword
    let name ← name
    let (directives, body) ← content
    return { extension := false, description, name, directives, body })
  <|> (do
    symbol "extend"
    symbol keyword
    let name ← name
    let (directives, body) ← extension
    return { extension := true, description := none, name, directives, body })

def listedType (keyword : String) (body : List α → TypeBody) (members : Reader (List α)) :
    Reader TypeDefinition :=
  typeOf keyword (Prod.map id body <$> contentOf members) (Prod.map id body <$> extensionOf members)

def scalarType : Reader TypeDefinition :=
  typeOf "scalar"
    (do return (← directives true, .scalar))
    (do return (← many1 (directive true), .scalar))

def fieldDefinitions : Reader (List FieldDefinition) := braced (many1 fieldDefinition)

def withInterfaces (body : List String → List FieldDefinition → TypeBody)
    (rest : Reader (List Directive × List FieldDefinition)) : Reader (List Directive × TypeBody) := do
  let interfaces := (← optional interfaces).getD []
  let (directives, fields) ← rest
  return (directives, body interfaces fields)

def objectType : Reader TypeDefinition :=
  typeOf "type"
    (withInterfaces .object (contentOf fieldDefinitions))
    (withInterfaces .object (extensionOf fieldDefinitions)
      <|> (do return ([], .object (← interfaces) [])))

def interfaceType : Reader TypeDefinition :=
  typeOf "interface"
    (withInterfaces .interface (contentOf fieldDefinitions))
    (withInterfaces .interface (extensionOf fieldDefinitions))

def unionType : Reader TypeDefinition := listedType "union" .union unionMembers

def enumType : Reader TypeDefinition := listedType "enum" .enum (braced (many1 enumValueDefinition))

def inputType : Reader TypeDefinition := listedType "input" .input (braced (many1 inputValueDefinition))

def typeDefinition : Reader TypeDefinition :=
  scalarType <|> objectType <|> interfaceType <|> unionType <|> enumType <|> inputType

def rootKind : Reader RootKind :=
  (symbol "query" *> pure .query)
  <|> (symbol "mutation" *> pure .mutation)
  <|> (symbol "subscription" *> pure .subscription)

def rootDefinitions : Reader (List (RootKind × String)) :=
  braced (many1 (do
    let kind ← rootKind
    symbol ":"
    return (kind, ← name)))

def schemaDefinition : Reader SchemaDefinition :=
  (do
    symbol "schema"
    let directives ← directives true
    return { extension := false, directives, roots := ← rootDefinitions })
  <|> (do
    symbol "extend"
    symbol "schema"
    let (directives, roots) ← extensionOf rootDefinitions
    return { extension := true, directives, roots })

def directiveLocation : Reader String :=
  directiveLocations.foldr
    (fun location others => (symbol location *> pure location) <|> others) failure

def directiveDefinition : Reader DirectiveDefinition := do
  let description ← description
  symbol "directive"
  symbol "@"
  let name ← name
  let arguments ← argumentDefinitions
  let repeatable := (← optional (symbol "repeatable")).isSome
  symbol "on"
  let locations ← separated "|" directiveLocation
  return { description, name, arguments, repeatable, locations }

def definition : Reader Definition :=
  (Definition.schema <$> schemaDefinition)
  <|> (Definition.type <$> typeDefinition)
  <|> (Definition.directive <$> directiveDefinition)

end Reader

def definitionsOfText? (text : String) : Option (List Definition) := do
  let definitions ← Reader.document? (DocGraph.Reader.many1 Reader.definition) text
  if definitions.all Definition.valid then some definitions else none

end DocGraph.GraphQL
