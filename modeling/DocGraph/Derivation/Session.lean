import DocGraph.Derivation.Target
import DocGraph.Notice
/-!
Derivation sessions: a registry that grows by derived types, and the notices reported on the way.

A type is registered under its name the first time it is needed and shared afterwards, before the types
that it needs are derived, so a field that leads back to a type under way refers to that same entry. A
call that fails leaves the session as it was.
-/

set_option autoImplicit false

namespace DocGraph.Derivation

structure Draft where
  registry : Registry
  raised : List Notice

def Draft.notify (schema : Schema) (draft : Draft) (id : CompositeIndex) : Except Error Draft := do
  let composite ← schema.composite id
  let fields := composite.undeclaredReaders
  return if fields.isEmpty then draft
    else { draft with raised := draft.raised ++ [.undeclaredReaders composite.name fields] }

def Draft.meet (schema : Schema) (deriveType : Target → Draft → Except Error Draft) (draft : Draft) :
    Need → Except Error Draft
  | .type target => deriveType target draft
  | .notice id => draft.notify schema id

-- Registers a target and all that it needs, unless its name is registered. The first argument
-- bounds how deep targets nest.
def derive (schema : Schema) : Nat → Target → Draft → Except Error Draft
  | bound, target, draft => do
      let name ← target.name schema
      if draft.registry.contains name then return draft
      else
        match bound with
        | 0 => return draft
        | bound + 1 => do
            let definition ← target.definition schema
            let needs ← target.needs schema
            let registered := { draft with registry := draft.registry.insert name definition }
            needs.foldlM (Draft.meet schema (derive schema bound)) registered

-- Targets that nest have different names, of which composites have one per family and all other
-- targets make chains of two.
def nestingBound (schema : Schema) : Nat := Family.all.length * schema.composites.length + 3

def deriveNeeds (schema : Schema) (needs : List Need) (draft : Draft) : Except Error Draft :=
  needs.foldlM (Draft.meet schema (derive schema (nestingBound schema))) draft

inductive Call where
  | composite (family : Family) (id : CompositeIndex) (excluded : List String)
  | leafFilter (type : FieldType)
  | sortDirections
  | page
  | queryArguments (id : CompositeIndex) (excluded : List String)
  | updateArguments (id : CompositeIndex) (excluded : List String)
deriving DecidableEq, Repr

inductive Answer where
  | reference (type : TypeRef)
  | arguments (values : List InputValue)
deriving DecidableEq, Repr

def rootNeed (family : Family) (id : CompositeIndex) (excluded : List String) : Need :=
  .type (.composite family id (.root excluded))

def Call.needs (schema : Schema) : Call → Except Error (List Need)
  | .composite family id excluded => .ok [rootNeed family id excluded]
  | .leafFilter type => leafFilterNeeds schema type
  | .sortDirections => .ok [.type .sortDirections]
  | .page => .ok [.type .page]
  | .queryArguments id excluded =>
      .ok [rootNeed .filter id excluded, rootNeed .sort id excluded, .type .page]
  | .updateArguments id excluded => .ok [rootNeed .filter id excluded, rootNeed .update id excluded]

def Call.answer (schema : Schema) : Call → Except Error Answer
  | .composite family id _ => do return .reference ⟨← compositeName schema family id⟩
  | .leafFilter type => do return .reference ⟨leafFilterName (← leafName schema type)⟩
  | .sortDirections => .ok (.reference ⟨sortDirectionsName⟩)
  | .page => .ok (.reference ⟨pageName⟩)
  | .queryArguments id _ => do
      return .arguments [
        { name := "filter", type := ⟨← compositeName schema .filter id⟩ },
        { name := "sort", type := ⟨← compositeName schema .sort id⟩ },
        { name := "pagination", type := ⟨pageName⟩ }]
  | .updateArguments id _ => do
      return .arguments [
        { name := "filter", type := TypeRef.nonNull ⟨← compositeName schema .filter id⟩ },
        { name := "update", type := TypeRef.nonNull ⟨← compositeName schema .update id⟩ }]

structure Session where
  registry : Registry := {}
  log : NoticeLog := {}

namespace Session

def call (schema : Schema) (session : Session) (call : Call) :
    Session × List Notice × Except Error Answer :=
  let run : Except Error (Draft × Answer) := do
    let draft ← deriveNeeds schema (← call.needs schema) ⟨session.registry, []⟩
    return (draft, ← call.answer schema)
  match run with
  | .error error => (session, [], .error error)
  | .ok (draft, answer) =>
      let (log, passed) := session.log.report draft.raised
      (⟨draft.registry, log⟩, passed, .ok answer)

def clear (_ : Session) : Session := {}

end Session

end DocGraph.Derivation
