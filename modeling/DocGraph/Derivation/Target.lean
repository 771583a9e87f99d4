import DocGraph.InputType.Registry
import DocGraph.Json.Basic
import DocGraph.Operator
import DocGraph.Schema.Basic
import DocGraph.SortOrder
import DocGraph.Text.Affix
import DocGraph.Update.Document

set_option autoImplicit false

namespace DocGraph

namespace FieldType

def wrap (keepNonNull : Bool) (reference : TypeRef) : FieldType → TypeRef
  | .named _ => reference
  | .list of => (wrap keepNonNull reference of).list
  | .nonNull of =>
      if keepNonNull then (wrap keepNonNull reference of).nonNull else wrap keepNonNull reference of

end FieldType

namespace Derivation

inductive Family where
  | filter
  | objectFilter
  | sort
  | insert
  | setOnInsert
  | set
  | setObject
  | setListObject
  | inc
  | update
deriving DecidableEq, Repr

namespace Family

def all : List Family :=
  [filter, objectFilter, sort, insert, setOnInsert, set, setObject, setListObject, inc, update]

def suffix : Family → String
  | filter => "FilterType"
  | objectFilter => "ObjectFilterType"
  | sort => "SortType"
  | insert => "InsertType"
  | setOnInsert => "SetOnInsertType"
  | set => "SetType"
  | setObject => "SetObjectType"
  | setListObject => "SetListObjectType"
  | inc => "IncType"
  | update => "UpdateType"

end Family

-- Whether a type is derived for its own sake, without some of its fields, or for a field of
-- another.
inductive Scope where
  | root (excluded : List String)
  | nested
deriving DecidableEq, Repr

def Scope.excluded : Scope → List String
  | .root excluded => excluded
  | .nested => []

def Scope.isRoot : Scope → Bool
  | .root _ => true
  | .nested => false

inductive Target where
  | composite (family : Family) (id : CompositeIndex) (scope : Scope)
  | enumCopy (id : EnumIndex)
  | leafFilter (leaf : String) (isString : Bool)
  | negatedLeafFilter (leaf : String) (isString : Bool)
  | deprecatedOperators
  | presenceOperators
  | sortDirections
  | page
deriving DecidableEq, Repr

inductive Need where
  | type (target : Target)
  | notice (id : CompositeIndex)
deriving DecidableEq, Repr

def suffixed (name suffix : String) : String :=
  match Text.before? "Type".toList name.toList with
  | some base => String.ofList base ++ suffix
  | none => name ++ suffix

def compositeName (schema : Schema) (family : Family) (id : CompositeIndex) : Except Error String := do
  return suffixed (← schema.composite id).name family.suffix

def leafFilterName (leaf : String) : String := leaf ++ "Filter"

def negatedLeafFilterName (leaf : String) : String := leaf ++ "NotFilter"

def deprecatedOperatorsName : String := "Opr"

def presenceOperatorsName : String := "OprExists"

def sortDirectionsName : String := "SortType"

def pageName : String := "PaginationType"

def Target.name (schema : Schema) : Target → Except Error String
  | .composite family id _ => compositeName schema family id
  | .enumCopy id => do return (← schema.enumeration id).name
  | .leafFilter leaf _ => .ok (leafFilterName leaf)
  | .negatedLeafFilter leaf _ => .ok (negatedLeafFilterName leaf)
  | .deprecatedOperators => .ok deprecatedOperatorsName
  | .presenceOperators => .ok presenceOperatorsName
  | .sortDirections => .ok sortDirectionsName
  | .page => .ok pageName

def leafName (schema : Schema) (type : FieldType) : Except Error String :=
  match type.innermost with
  | .scalar scalar => .ok scalar.name
  | .enum id => do return (← schema.enumeration id).name
  | .composite _ id => do return (← schema.composite id).name

def leafNeeds (type : FieldType) : List Need :=
  match type.innermost with
  | .enum id => [.type (.enumCopy id)]
  | _ => []

def isStringLeaf (type : FieldType) : Bool :=
  match type.innermost with
  | .scalar .string => true
  | _ => false

def leafFilterNeeds (schema : Schema) (type : FieldType) : Except Error (List Need) := do
  return leafNeeds type ++ [.type (.leafFilter (← leafName schema type) (isStringLeaf type))]

def Family.nested (type : FieldType) : Family → Family
  | .filter | .objectFilter => .objectFilter
  | .set | .setObject => if type.isList then .setListObject else .setObject
  | family => family

def Family.takes (family : Family) (field : Field) : Bool :=
  match family with
  | .sort => !field.type.isList
  | .inc => !field.type.isList && (field.type.composite?.isSome || field.type.isNumeric)
  | .update => false
  | _ => true

def takenFields (composite : Composite) (family : Family) (scope : Scope) : List Field :=
  (composite.storedFields scope.excluded).filter family.takes

def leafReference (schema : Schema) (family : Family) (type : FieldType) : Except Error String :=
  match family with
  | .filter | .objectFilter => leafFilterName <$> leafName schema type
  | .sort => .ok sortDirectionsName
  | _ => leafName schema type

def fieldReference (schema : Schema) (family : Family) (type : FieldType) : Except Error TypeRef :=
  TypeRef.mk <$>
    match type.composite? with
    | some id => compositeName schema (family.nested type) id
    | none => leafReference schema family type

def wrapped (family : Family) (scope : Scope) (field : Field) (reference : TypeRef) : TypeRef :=
  match family with
  | .insert =>
      if scope.isRoot && field.name == "_id" then field.type.nullable.wrap true reference
      else field.type.wrap true reference
  | .setOnInsert | .set | .setObject | .setListObject => field.type.wrap false reference
  | _ => reference

def inputField (schema : Schema) (family : Family) (scope : Scope) (field : Field) :
    Except Error InputValue := do
  let reference ← fieldReference schema family field.type
  return {
    name := field.name
    type := wrapped family scope field reference
    description := match family with
      | .filter | .objectFilter => field.description
      | _ => none }

def sortPlaceholder : InputValue where
  name := SortOrder.placeholder
  type := ⟨sortDirectionsName⟩
  description := some ("IGNORE. Objects without sortable fields still get a sort type, " ++
    "since input object types must have at least one field")
  deprecation := .deprecated none

def incPlaceholder : InputValue where
  name := Update.incPlaceholder
  type := ⟨"Int"⟩
  description := some ("IGNORE. Objects without incrementable fields still get an inc type, " ++
    "since input object types must have at least one field")

def overwriteField : InputValue where
  name := Overwrite.marker
  type := ⟨"Boolean"⟩
  description := some ("If set to true, the object is overwritten entirely, including the fields " ++
    "that are not specified, and non-null validation rules apply. Once true, every child object is " ++
    "overwritten whatever its own value for this field.")

def ownFields (family : Family) (name : String) (noneTaken : Bool) : List InputValue :=
  match family with
  | .filter =>
      Combinator.all.map (fun combinator => { name := combinator.word, type := TypeRef.list ⟨name⟩ })
  | .objectFilter => [{ name := "opr", type := ⟨presenceOperatorsName⟩ }]
  | .sort => if noneTaken then [sortPlaceholder] else []
  | .inc => if noneTaken then [incPlaceholder] else []
  | .set | .setObject => [overwriteField]
  | _ => []

def updateParts : List (String × Family) :=
  [("setOnInsert", .setOnInsert), ("set", .set), ("inc", .inc)]

def partField (schema : Schema) (id : CompositeIndex) (part : String × Family) :
    Except Error InputValue := do
  return { name := part.1, type := ⟨← compositeName schema part.2 id⟩ }

def compositeFields (schema : Schema) (family : Family) (id : CompositeIndex) (scope : Scope) :
    Except Error (List InputValue) := do
  let composite ← schema.composite id
  match family with
  | .update => updateParts.mapM (partField schema id)
  | _ =>
      let taken := takenFields composite family scope
      let fields ← taken.mapM (inputField schema family scope)
      return fields ++ ownFields family (suffixed composite.name family.suffix) taken.isEmpty

def flagsDescription : String :=
  "Modifiers of the REGEX operator, such as \"i\" for case insensitive matching. " ++
    "Used as the regular expression flags when the REGEX is negated"

def operandField (leaf : String) (operator : Operator) : InputValue where
  name := operator.word
  type := if operator.comparesWithList then TypeRef.list ⟨leaf⟩ else ⟨leaf⟩
  description := some (if operator = .options then flagsDescription else operator.native)

def operandFields (leaf : String) (isString : Bool) : List InputValue :=
  (Operator.all.filter (fun operator =>
    operator != .not && (isString || !operator.forStringsOnly))).map (operandField leaf)

def switched : Deprecation := .deprecated (some "Switched to the more intuitive operator fields")

def leafFilterFields (leaf : String) (isString : Bool) : List InputValue :=
  operandFields leaf isString ++ [
    { name := Operator.not.word, type := ⟨negatedLeafFilterName leaf⟩ },
    { name := "opr", type := ⟨deprecatedOperatorsName⟩, deprecation := switched },
    { name := "value", type := ⟨leaf⟩, deprecation := switched },
    { name := "values", type := TypeRef.list ⟨leaf⟩, deprecation := switched },
    { name := "NEQ", type := ⟨leaf⟩, deprecation := .deprecated (some "use NE") }]

def Target.definition (schema : Schema) : Target → Except Error InputType
  | .composite family id scope => do
      let name ← compositeName schema family id
      return .object (.make name none (← compositeFields schema family id scope))
  | .enumCopy id => do
      let copied ← schema.enumeration id
      return .enum (.make copied.name copied.description
        (copied.values.map (fun value => { name := value })))
  | .leafFilter leaf isString =>
      .ok (.object (.make (leafFilterName leaf) (some s!"Filter type for {leaf} scalar")
        (leafFilterFields leaf isString)))
  | .negatedLeafFilter leaf isString =>
      .ok (.object (.make (negatedLeafFilterName leaf)
        (some s!"Filter type for $not of {leaf} scalar") (operandFields leaf isString)))
  | .deprecatedOperators =>
      .ok (.enum (.make deprecatedOperatorsName none (DeprecatedOperator.all.map (fun operator =>
        { name := operator.word, value := some (.str operator.leaf.native) }))))
  | .presenceOperators =>
      .ok (.enum (.make presenceOperatorsName none (PresenceOperator.all.map (fun operator =>
        { name := operator.word, value := some (.str operator.native) }))))
  | .sortDirections =>
      .ok (.enum (.make sortDirectionsName none (Direction.all.map (fun direction =>
        { name := direction.word, value := some (Json.int direction.value) }))))
  | .page =>
      .ok (.object (.make pageName none
        [{ name := "limit", type := ⟨"Int"⟩ }, { name := "skip", type := ⟨"Int"⟩ }]))

def leafFieldNeeds (schema : Schema) (family : Family) (type : FieldType) :
    Except Error (List Need) :=
  match family with
  | .filter | .objectFilter => leafFilterNeeds schema type
  | .sort => .ok [.type .sortDirections]
  | _ => .ok (leafNeeds type)

def fieldNeeds (schema : Schema) (family : Family) (field : Field) : Except Error (List Need) :=
  match field.type.composite? with
  | some id => .ok [.type (.composite (family.nested field.type) id .nested)]
  | none => leafFieldNeeds schema family field.type

def ownNeeds (family : Family) (id : CompositeIndex) (noneTaken : Bool) : List Need :=
  match family with
  | .filter => [.notice id]
  | .objectFilter => [.notice id, .type .presenceOperators]
  | .sort => if noneTaken then [.type .sortDirections] else []
  | _ => []

def compositeNeeds (schema : Schema) (family : Family) (id : CompositeIndex) (scope : Scope) :
    Except Error (List Need) := do
  let composite ← schema.composite id
  match family with
  | .update => return updateParts.map (fun part => .type (.composite part.2 id scope))
  | _ =>
      let taken := takenFields composite family scope
      let needs ← taken.mapM (fieldNeeds schema family)
      return needs.flatten ++ ownNeeds family id taken.isEmpty

def Target.needs (schema : Schema) : Target → Except Error (List Need)
  | .composite family id scope => compositeNeeds schema family id scope
  | .leafFilter leaf isString =>
      .ok [.type (.negatedLeafFilter leaf isString), .type .deprecatedOperators]
  | _ => .ok []

end Derivation

end DocGraph
