import DocGraph.Schema.Basic

set_option autoImplicit false

namespace DocGraph.Schema

def nameOf (schema : Schema) : NamedType → String
  | .scalar type => type.name
  | .enum id => ((schema.enums[id.index]?).map Enumeration.name).getD "?"
  | .composite _ id => ((schema.composites[id.index]?).map Composite.name).getD "?"

def typeText (schema : Schema) : FieldType → String
  | .named type => schema.nameOf type
  | .list of => "[" ++ schema.typeText of ++ "]"
  | .nonNull of => schema.typeText of ++ "!"

end DocGraph.Schema
