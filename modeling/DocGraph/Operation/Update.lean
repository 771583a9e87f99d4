import DocGraph.Operation.Find
import DocGraph.Update.Completeness
import DocGraph.Update.Document

set_option autoImplicit false

namespace DocGraph

structure UpdateCommand where
  filter : Members
  update : Members
  options : Update.Options
  projection : Option Members

def UpdateCommand.members (command : UpdateCommand) : Members :=
  [("filter", .obj command.filter), ("update", .obj command.update),
    ("options", .obj command.options.members), ("projection", projectionJson command.projection)]

structure UpdateField where
  schema : Schema
  type : CompositeIndex
  settings : UpdateSettings

namespace UpdateField

def make (schema : Schema) (type : CompositeIndex) (settings : UpdateSettings) :
    Except Error UpdateField := do
  let _ ← schema.composite type
  return ⟨schema, type, settings⟩

def updateArgument (arguments : Members) : Except Error Members :=
  match Members.get? "update" arguments with
  | some (.obj update) => .ok update
  | _ => .error (.invalidArgument "update" .notObject)

def validate (field : UpdateField) (update : Members) : Except Error Unit :=
  if field.settings.validateUpdateArgs then
    Update.check field.schema field.type update field.settings.overwrite field.settings.computed
  else .ok ()

def projection (field : UpdateField) (request : GraphQL.Request) (key : String) :
    Outcome (Option Members) :=
  if field.settings.differentOutputType then return none
  else some <$> Projection.document field.schema field.type request key field.settings.excludedFields
    field.settings.computed

def command (field : UpdateField) (arguments : Members) (request : GraphQL.Request) (key : String) :
    Outcome UpdateCommand := do
  let filter ← Filter.document field.schema field.type (Members.get? "filter" arguments)
  let update ← updateArgument arguments
  field.validate update
  let compiled ← Update.compile update field.settings.overwrite
  let projection ← field.projection request key
  return ⟨filter, compiled.document, compiled.options, projection⟩

variable {σ γ ε α : Type} {m : Type → Type} [Monad m]

def resolve (field : UpdateField) (ofError : Error → ε)
    (store : UpdateCommand → FieldCall σ γ → ExceptT ε m α) (call : FieldCall σ γ) :
    m (List Notice × Except ε α) := do
  let compiled := field.command call.arguments call.request call.key
  match compiled.result with
  | .error error => return (compiled.raised, .error (ofError error))
  | .ok command => return (compiled.raised, ← (store command call).run)

end UpdateField

end DocGraph
