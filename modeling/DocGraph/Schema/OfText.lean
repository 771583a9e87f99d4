import DocGraph.GraphQL.Definitions
import DocGraph.Schema.Declare

set_option autoImplicit false

namespace DocGraph

open GraphQL

def GraphQL.Value.texts? : Value → Option (List String)
  | .text content => some [content]
  | .list items => items.mapM (fun item =>
      match item with
      | .text content => some content
      | _ => none)
  | _ => none

namespace Schema

def declaredPaths (directive : Directive) : Except DependenciesFault (List String) :=
  match directive.argument? "paths" with
  | none => .error .pathsMissing
  | some value =>
      match value.texts? with
      | some paths => .ok paths
      | none => .error .pathsNotStrings

-- What one directive makes of the origin of a field. Declared dependencies replace what stands, and
-- a field that is computed already stays as it is.
def applyDirective (origin : Origin) (directive : Directive) : Except DependenciesFault Origin :=
  match directive.name with
  | "mongoDependencies" => do
      return .computed (some (← declaredPaths directive))
  | "computed" =>
      match origin with
      | .stored => .ok (.computed none)
      | computed => .ok computed
  | _ => .ok origin

def fieldTypeOf? (schema : Schema) : TypeNode → Except String FieldType
  | .named name =>
      match schema.typeNamed? name with
      | some type => .ok (.named type)
      | none => .error name
  | .list of => FieldType.list <$> schema.fieldTypeOf? of
  | .nonNull of => FieldType.nonNull <$> schema.fieldTypeOf? of

def fieldOf (schema : Schema) (owner : String) (definition : FieldDefinition) :
    Except SchemaError Field := do
  let type ← (schema.fieldTypeOf? definition.type).mapError (fun name =>
    .unknownReference owner definition.name (.named name))
  let origin ← (definition.directives.foldlM applyDirective .stored).mapError (fun fault =>
    .invalidDependencies owner definition.name fault)
  return { name := definition.name, type, origin, description := definition.description }

def declare (schema : Schema) (definition : TypeDefinition) : Except SchemaError Schema :=
  match definition.body with
  | .object _ _ => Prod.snd <$> schema.addComposite .object definition.name
  | .interface _ _ => Prod.snd <$> schema.addComposite .interface definition.name
  | .enum values => do
      let (id, declared) ← schema.addEnum definition.name (values.map EnumValueDefinition.name)
      return match definition.description with
        | some text => declared.setEnumDescription id text
        | none => declared
  | .scalar => Prod.snd <$> schema.addScalar definition.name
  | .union _ | .input _ => .ok schema

def addMembers (schema : Schema) (definition : TypeDefinition) : Except SchemaError Schema :=
  match definition.body, schema.compositeNamed? definition.name with
  | .object _ fields, some id | .interface _ fields, some id => do
      let described := match definition.description with
        | some text => schema.setDescription id text
        | none => schema
      fields.foldlM (fun schema field => do
        schema.addField id (← schema.fieldOf definition.name field)) described
  | _, _ => .ok schema

def ofTypes (definitions : List TypeDefinition) : Except SchemaError Schema := do
  let declared ← definitions.foldlM declare {}
  let schema ← definitions.foldlM addMembers declared
  schema.check
  return schema

def ofDefinitions (definitions : List Definition) : Except SchemaError Schema :=
  ofTypes (definitions.filterMap (fun definition =>
    match definition with
    | .type definition => some definition
    | _ => none))

def ofText (text : String) : Except Error Schema :=
  match definitionsOfText? text with
  | none => .error .unreadableSchema
  | some definitions => (ofDefinitions definitions).mapError Error.build

end Schema

end DocGraph
