import DocGraph.Error

set_option autoImplicit false

namespace DocGraph

inductive Origin where
  | stored
  | computed (dependencies : Option (List String))
deriving DecidableEq, Repr

structure Field where
  name : String
  type : FieldType
  origin : Origin := .stored
  description : Option String := none
deriving DecidableEq, Repr

namespace Field

def isComputed (field : Field) : Bool :=
  match field.origin with
  | .stored => false
  | .computed _ => true

def isStored (field : Field) : Bool := !field.isComputed

def dependencies (field : Field) : List String :=
  match field.origin with
  | .computed (some paths) => paths
  | _ => []

def readsUndeclared (field : Field) : Bool :=
  match field.origin with
  | .computed none => true
  | _ => false

end Field

-- Tells which fields are produced by custom logic rather than read from the document.
abbrev FieldTest := Field → Bool

structure Composite where
  name : String
  kind : CompositeKind
  description : Option String := none
  fields : List Field := []
deriving DecidableEq, Repr

namespace Composite

def field? (composite : Composite) (name : String) : Option Field :=
  composite.fields.find? (fun field => field.name == name)

def field (composite : Composite) (name : String) : Except Error Field :=
  match composite.field? name with
  | some field => .ok field
  | none => .error (.unknownField composite.name name)

def fieldsExcept (composite : Composite) (keep : FieldTest) (excluded : List String) : List Field :=
  composite.fields.filter (fun field => !excluded.contains field.name && keep field)

def storedFields (composite : Composite) (excluded : List String) : List Field :=
  composite.fieldsExcept Field.isStored excluded

def undeclaredReaders (composite : Composite) : List String :=
  (composite.fields.filter Field.readsUndeclared).map Field.name

theorem name_of_field?_eq_some {composite : Composite} {name : String} {field : Field}
    (found : composite.field? name = some field) : field.name = name ∧ field ∈ composite.fields := by
  have hit := List.find?_some found
  exact ⟨by simpa using hit, List.mem_of_find?_eq_some found⟩

end Composite

structure Enumeration where
  name : String
  description : Option String := none
  values : List String
deriving DecidableEq, Repr

structure Schema where
  composites : List Composite := []
  enums : List Enumeration := []
  scalars : List String := []
deriving DecidableEq, Repr

namespace Schema

def composite (schema : Schema) (id : CompositeIndex) : Except Error Composite :=
  match schema.composites[id.index]? with
  | some composite => .ok composite
  | none => .error (.unknownComposite id)

def enumeration (schema : Schema) (id : EnumIndex) : Except Error Enumeration :=
  match schema.enums[id.index]? with
  | some definition => .ok definition
  | none => .error (.unknownEnum id)

def compositeNamed? (schema : Schema) (name : String) : Option CompositeIndex :=
  (schema.composites.findIdx? (fun composite => composite.name == name)).map CompositeIndex.mk

def enumNamed? (schema : Schema) (name : String) : Option EnumIndex :=
  (schema.enums.findIdx? (fun definition => definition.name == name)).map EnumIndex.mk

def fieldsExcept (schema : Schema) (id : CompositeIndex) (keep : FieldTest) (excluded : List String) :
    Except Error (List Field) :=
  return (← schema.composite id).fieldsExcept keep excluded

def storedFields (schema : Schema) (id : CompositeIndex) (excluded : List String) :
    Except Error (List Field) :=
  schema.fieldsExcept id Field.isStored excluded

end Schema

end DocGraph
