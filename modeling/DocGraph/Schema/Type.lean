
set_option autoImplicit false

namespace DocGraph

structure CompositeIndex where
  index : Nat
deriving DecidableEq, Repr

structure EnumIndex where
  index : Nat
deriving DecidableEq, Repr

def CompositeIndex.text (id : CompositeIndex) : String := s!"#{id.index}"

def EnumIndex.text (id : EnumIndex) : String := s!"enum #{id.index}"

inductive ScalarType where
  | id
  | string
  | int
  | float
  | boolean
  | custom (name : String)
deriving DecidableEq, Repr

namespace ScalarType

def builtin? : String → Option ScalarType
  | "ID" => some .id
  | "String" => some .string
  | "Int" => some .int
  | "Float" => some .float
  | "Boolean" => some .boolean
  | _ => none

-- Every name denotes a scalar: a built-in one or the custom scalar of that name.
def ofName (name : String) : ScalarType := (builtin? name).getD (.custom name)

def name : ScalarType → String
  | .id => "ID"
  | .string => "String"
  | .int => "Int"
  | .float => "Float"
  | .boolean => "Boolean"
  | .custom name => name

def isCustom : ScalarType → Bool
  | .custom _ => true
  | _ => false

def isNumeric : ScalarType → Bool
  | .int | .float => true
  | _ => false

theorem name_ofName (name : String) : (ofName name).name = name := by
  unfold ofName builtin?
  split <;> rfl

end ScalarType

inductive CompositeKind where
  | object
  | interface
deriving DecidableEq, Repr

inductive NamedType where
  | scalar (type : ScalarType)
  | enum (id : EnumIndex)
  | composite (kind : CompositeKind) (id : CompositeIndex)
deriving DecidableEq, Repr

inductive FieldType where
  | named (type : NamedType)
  | list (of : FieldType)
  | nonNull (of : FieldType)
deriving DecidableEq, Repr

namespace FieldType

def scalar (type : ScalarType) : FieldType := .named (.scalar type)

def innermost : FieldType → NamedType
  | .named type => type
  | .list of => of.innermost
  | .nonNull of => of.innermost

def isList : FieldType → Bool
  | .named _ => false
  | .list _ => true
  | .nonNull of => of.isList

def isNonNull : FieldType → Bool
  | .named _ => false
  | .list of => of.isNonNull
  | .nonNull _ => true

def composite? (type : FieldType) : Option CompositeIndex :=
  match type.innermost with
  | .composite _ id => some id
  | _ => none

def isLeaf (type : FieldType) : Bool := type.composite?.isNone

def isNumeric (type : FieldType) : Bool :=
  match type.innermost with
  | .scalar scalar => scalar.isNumeric
  | _ => false

def nullable : FieldType → FieldType
  | .nonNull of => of
  | type => type

end FieldType

end DocGraph
