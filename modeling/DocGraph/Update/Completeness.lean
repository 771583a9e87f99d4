import DocGraph.Keyed
import DocGraph.DotPath
import DocGraph.Schema.Basic
import DocGraph.Update.WriteMode
/-!
Whether an update leaves a field that must not be null missing or null.

`setOnInsert` and `set` are walked together, since either may give a field. A field must be present only
where the update replaces data: everywhere when `setOnInsert` is given, from the root when overwriting is
asked for, and below an object that replaces. An explicit null is a violation everywhere. Elements of
lists are always written whole, and are walked one by one.
-/

set_option autoImplicit false

namespace DocGraph.Update

-- One array level opened: elements in order, a null counting as an empty array and any other value
-- as an array of itself.
def openArrays (values : List Json) : List Json :=
  values.flatMap (fun value =>
    match value with
    | .arr elements => elements
    | .null => []
    | other => [other])

def respectsElements : FieldType → List Json → Bool
  | .named _, _ => true
  | .nonNull of, values => !values.any Json.isNull && respectsElements of values
  | .list of, values => respectsElements of (openArrays values)

def innermostElements : FieldType → List Json → List Json
  | .named _, values => values
  | .nonNull of, values => innermostElements of values
  | .list of, values => innermostElements of ((openArrays values).filter (fun value => !value.isNull))

def isOutermostNonNull : FieldType → Bool
  | .nonNull _ => true
  | _ => false

def valuesOf (objects : List Members) (key : String) : List Json :=
  objects.filterMap (Members.get? key)

def fieldViolations (objects : List Members) (path : String) (required : Bool) (field : Field) :
    List Violation :=
  if !field.type.isNonNull || (path == "" && field.name == "_id") then []
  else
    let place := DotPath.under path field.name
    let values := valuesOf objects field.name
    let outermost := isOutermostNonNull field.type
    if outermost && values.any Json.isNull then [.null place]
    else if outermost && values.isEmpty && required then [.missing place]
    else if field.type.isList && !respectsElements field.type values then [.nullElement place]
    else []

def writtenKeys (objects : List Members) : List String :=
  firsts ((objects.flatMap Members.keys).filter (fun key => key != Overwrite.marker))

def violationsBelow
    (check : List Members → CompositeIndex → String → WriteMode → Except Error (List Violation))
    (computed : FieldTest) (composite : Composite) (objects : List Members) (path : String)
    (mode : WriteMode) (key : String) : Except Error (List Violation) := do
  let field ← composite.field key
  match field.type.composite? with
  | none => return []
  | some nested =>
      if computed field then return []
      else
        let place := DotPath.under path key
        let values := (valuesOf objects key).filter (fun value => !value.isNull)
        if field.type.isList then
          let elements := (innermostElements field.type values).filterMap Json.members?
          return (← elements.mapM (fun element => check [element] nested place .replace)).flatten
        else check (values.filterMap Json.members?) nested place mode

-- The violations of objects written together at `path`, those of the objects themselves before
-- those below them. The first argument bounds the depth of the objects.
def violationsAt (schema : Schema) (computed : FieldTest) :
    Nat → List Members → CompositeIndex → String → WriteMode → Except Error (List Violation)
  | 0, _, _, _, _ => .ok []
  | depth + 1, objects, type, path, mode => do
      let replaces := mode.replaces (← Overwrite.firstExplicit path objects)
      let composite ← schema.composite type
      let own := composite.fields.flatMap (fieldViolations objects path replaces)
      let below ← (writtenKeys objects).mapM (violationsBelow (violationsAt schema computed depth)
        computed composite objects path (WriteMode.passedOn replaces))
      return own ++ below.flatten

def writtenObjects (update : Members) : List Members :=
  ["setOnInsert", "set"].filterMap (fun name => (Members.get? name update).bind Json.members?)

def rootMode (update : Members) (overwrite : Bool) : WriteMode :=
  if ((Members.get? "setOnInsert" update).bind Json.members?).isSome then .replace
  else WriteMode.ofFlag overwrite

def violations (schema : Schema) (type : CompositeIndex) (update : Members) (overwrite : Bool)
    (computed : FieldTest) : Except Error (List Violation) :=
  violationsAt schema computed ((Json.obj update).depth + 1) (writtenObjects update) type ""
    (rootMode update overwrite)

def check (schema : Schema) (type : CompositeIndex) (update : Members) (overwrite : Bool)
    (computed : FieldTest) : Except Error Unit := do
  let found ← violations schema type update overwrite computed
  if found.isEmpty then return () else throw (.incomplete found)

end DocGraph.Update
