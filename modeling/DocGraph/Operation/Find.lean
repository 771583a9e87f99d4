import DocGraph.Filter.Document
import DocGraph.Operation.Settings
import DocGraph.Page
import DocGraph.Projection
import DocGraph.SortOrder

set_option autoImplicit false

namespace DocGraph

structure FieldCall (σ γ : Type) where
  source : σ
  arguments : Members
  context : γ
  request : GraphQL.Request
  key : String

structure FindCommand where
  filter : Members
  projection : Option Members
  options : FindOptions

def projectionJson : Option Members → Json
  | none => .null
  | some projection => .obj projection

def FindCommand.members (command : FindCommand) : Members :=
  [("filter", .obj command.filter), ("projection", projectionJson command.projection),
    ("options", .obj command.options.members)]

structure FindField where
  schema : Schema
  type : CompositeIndex
  settings : FindSettings

namespace FindField

def make (schema : Schema) (type : CompositeIndex) (settings : FindSettings) : Except Error FindField := do
  let _ ← schema.composite type
  return ⟨schema, type, settings⟩

def projection (field : FindField) (request : GraphQL.Request) (key : String) :
    Outcome (Option Members) :=
  if field.settings.differentOutputType then return none
  else some <$> Projection.document field.schema field.type request key field.settings.excludedFields
    field.settings.computed

def command (field : FindField) (arguments : Members) (request : GraphQL.Request) (key : String) :
    Outcome FindCommand := do
  let filter ← Filter.document field.schema field.type (Members.get? "filter" arguments)
  let projection ← field.projection request key
  let sort ← SortOrder.document (Members.get? "sort" arguments)
  let page ← Page.ofArguments arguments
  return ⟨filter, projection, .make sort page⟩

variable {σ γ ε α : Type} {m : Type → Type} [Monad m]

def resolve (field : FindField) (ofError : Error → ε)
    (store : FindCommand → FieldCall σ γ → ExceptT ε m α) (call : FieldCall σ γ) :
    m (List Notice × Except ε α) := do
  let compiled := field.command call.arguments call.request call.key
  match compiled.result with
  | .error error => return (compiled.raised, .error (ofError error))
  | .ok command => return (compiled.raised, ← (store command call).run)

end FindField

end DocGraph
