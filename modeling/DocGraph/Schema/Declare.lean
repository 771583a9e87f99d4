import DocGraph.Schema.Basic

set_option autoImplicit false

namespace DocGraph

inductive Declared where
  | composite (kind : CompositeKind) (id : CompositeIndex)
  | enum (id : EnumIndex)
  | scalar
deriving DecidableEq, Repr

def Declared.kind : Declared → DeclaredKind
  | .composite kind _ => .composite kind
  | .enum _ => .enum
  | .scalar => .scalar

namespace Schema

def declaredComposite? (schema : Schema) (name : String) : Option Declared := do
  let id ← schema.compositeNamed? name
  let composite ← schema.composites[id.index]?
  return .composite composite.kind id

def declared? (schema : Schema) (name : String) : Option Declared :=
  match schema.declaredComposite? name, schema.enumNamed? name with
  | some declared, _ => some declared
  | none, some id => some (.enum id)
  | none, none => if schema.scalars.contains name then some .scalar else none

def addComposite (schema : Schema) (kind : CompositeKind) (name : String) :
    Except SchemaError (CompositeIndex × Schema) :=
  match schema.declared? name with
  | none =>
      .ok (⟨schema.composites.length⟩,
        { schema with composites := schema.composites ++ [{ name := name, kind := kind }] })
  | some (.composite held id) =>
      if held = kind then .ok (id, schema)
      else .error (.conflictingKind name (.composite held) (.composite kind))
  | some declared => .error (.conflictingKind name declared.kind (.composite kind))

def addEnum (schema : Schema) (name : String) (values : List String) :
    Except SchemaError (EnumIndex × Schema) :=
  match schema.declared? name with
  | none =>
      .ok (⟨schema.enums.length⟩,
        { schema with enums := schema.enums ++ [{ name := name, values := values }] })
  | some declared => .error (.conflictingKind name declared.kind .enum)

def addScalar (schema : Schema) (name : String) : Except SchemaError (ScalarType × Schema) :=
  match ScalarType.builtin? name, schema.declared? name with
  | some builtin, _ => .ok (builtin, schema)
  | none, none => .ok (.custom name, { schema with scalars := schema.scalars ++ [name] })
  | none, some .scalar => .ok (.custom name, schema)
  | none, some declared => .error (.conflictingKind name declared.kind .scalar)

def setDescription (schema : Schema) (id : CompositeIndex) (text : String) : Schema :=
  { schema with
    composites := schema.composites.modify id.index (fun composite =>
      { composite with description := some text }) }

def setEnumDescription (schema : Schema) (id : EnumIndex) (text : String) : Schema :=
  { schema with
    enums := schema.enums.modify id.index (fun definition =>
      { definition with description := some text }) }

def addField (schema : Schema) (owner : CompositeIndex) (field : Field) : Except SchemaError Schema :=
  match schema.composites[owner.index]? with
  | none => .error (.undeclaredType owner)
  | some composite =>
      match composite.field? field.name with
      | some _ => .error (.duplicateField composite.name field.name)
      | none =>
          .ok { schema with
            composites := schema.composites.set owner.index
              { composite with fields := composite.fields ++ [field] } }

def checkField (schema : Schema) (owner : Composite) (field : Field) :
    Except SchemaError Unit :=
  match field.type.innermost with
  | .scalar _ => .ok ()
  | .enum id =>
      if id.index < schema.enums.length then .ok ()
      else .error (.unknownReference owner.name field.name (.enum id))
  | .composite kind id =>
      match schema.composites[id.index]? with
      | none => .error (.unknownReference owner.name field.name (.composite id))
      | some target =>
          if target.kind = kind then .ok ()
          else .error (.conflictingKind target.name (.composite target.kind) (.composite kind))

def checkComposite (schema : Schema) (composite : Composite) : Except SchemaError Unit :=
  if composite.fields.isEmpty then .error (.emptyType composite.name)
  else composite.fields.forM (schema.checkField composite)

def check (schema : Schema) : Except SchemaError Unit :=
  schema.composites.forM schema.checkComposite

-- The named type that a field refers to by name. Declared names win over built-in scalars.
def typeNamed? (schema : Schema) (name : String) : Option NamedType :=
  match schema.declared? name with
  | some (.composite kind id) => some (.composite kind id)
  | some (.enum id) => some (.enum id)
  | some .scalar => some (.scalar (.custom name))
  | none => (ScalarType.builtin? name).map NamedType.scalar

end Schema

end DocGraph
