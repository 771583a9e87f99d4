import DocGraph.Schema.Declare

set_option autoImplicit false

namespace DocGraph

inductive Declaration where
  | composite (kind : CompositeKind) (name : String)
  | enum (name : String) (values : List String)
  | scalar (name : String)
  | describe (id : CompositeIndex) (text : String)
  | describeEnum (id : EnumIndex) (text : String)
  | field (owner : CompositeIndex) (field : Field)
deriving DecidableEq, Repr

inductive Declaration.Answer where
  | composite (id : CompositeIndex)
  | enum (id : EnumIndex)
  | scalar (type : ScalarType)
  | done
deriving DecidableEq, Repr

namespace Schema

def attempt (schema : Schema) : Declaration → Except SchemaError (Declaration.Answer × Schema)
  | .composite kind name => Prod.map .composite id <$> schema.addComposite kind name
  | .enum name values => Prod.map .enum id <$> schema.addEnum name values
  | .scalar name => Prod.map .scalar id <$> schema.addScalar name
  | .describe id text => .ok (.done, schema.setDescription id text)
  | .describeEnum id text => .ok (.done, schema.setEnumDescription id text)
  | .field owner field => Prod.mk .done <$> schema.addField owner field

def step (schema : Schema) (declaration : Declaration) : Schema × Except SchemaError Declaration.Answer :=
  match schema.attempt declaration with
  | .ok (answer, changed) => (changed, .ok answer)
  | .error error => (schema, .error error)

def run (schema : Schema) (declarations : List Declaration) : Schema :=
  declarations.foldl (fun schema declaration => (schema.step declaration).1) schema

end Schema

end DocGraph
