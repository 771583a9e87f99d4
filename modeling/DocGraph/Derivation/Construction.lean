import DocGraph.Derivation.Session
/-!
The steps in which a session constructs input types.

A type under way is registered as an input object without fields, which its definition replaces once all that it needs is
constructed. When that fails, the entry is removed, and whatever else was registered or raised until then stays.
-/

set_option autoImplicit false

namespace DocGraph

namespace Registry

def erase (registry : Registry) (key : String) : Registry :=
  ⟨registry.entries.filter (fun entry => entry.1 != key)⟩

end Registry

namespace Derivation

abbrev Construction := ExceptT Error (StateM Draft)

namespace Construction

def register (name : String) (type : InputType) : Construction Unit :=
  modify (fun draft => { draft with registry := draft.registry.insert name type })

def remove (name : String) : Construction Unit :=
  modify (fun draft => { draft with registry := draft.registry.erase name })

def placeholder (name : String) : InputType := .object (.make name none [])

def create (name : String) (build : Construction InputType) : Construction Unit := do
  if (← get).registry.contains name then return
  register name (placeholder name)
  let type ← tryCatch build (fun error => do
    remove name
    throw error)
  register name type

def notify (schema : Schema) (id : CompositeIndex) : Construction Unit := do
  set (← (← get).notify schema id)

def meet (schema : Schema) (constructType : Target → Construction Unit) : Need → Construction Unit
  | .type target => constructType target
  | .notice id => notify schema id

def fields {α : Type} (schema : Schema) (constructType : Target → Construction Unit)
    (needs : α → Except Error (List Need)) (input : α → Except Error InputValue) (items : List α) :
    Construction (List InputValue) :=
  items.mapM (fun item => do
    (← needs item).forM (meet schema constructType)
    input item)

def partNeeds (id : CompositeIndex) (scope : Scope) (part : String × Family) : Except Error (List Need) :=
  .ok [.type (.composite part.2 id scope)]

def build (schema : Schema) (constructType : Target → Construction Unit) : Target → Construction InputType
  | .composite family id scope => do
      let composite ← schema.composite id
      let name := suffixed composite.name family.suffix
      match family with
      | .update =>
          return .object (.make name none
            (← fields schema constructType (partNeeds id scope) (partField schema id) updateParts))
      | _ =>
          let taken := takenFields composite family scope
          let given ← fields schema constructType (fieldNeeds schema family) (inputField schema family scope) taken
          (ownNeeds family id taken.isEmpty).forM (meet schema constructType)
          return .object (.make name none (given ++ ownFields family name taken.isEmpty))
  | target => do
      (← target.needs schema).forM (meet schema constructType)
      target.definition schema

def ofTarget (schema : Schema) : Nat → Target → Construction Unit
  | bound, target => do
      let name ← target.name schema
      match bound with
      | 0 => return
      | bound + 1 => create name (build schema (ofTarget schema bound) target)

def ofCall (schema : Schema) (call : Call) : Construction Answer := do
  (← call.needs schema).forM (meet schema (ofTarget schema (nestingBound schema)))
  call.answer schema

end Construction

-- Runs a call step by step: the session that its steps leave, the notices that they report, and its answer.
def Session.perform (schema : Schema) (session : Session) (call : Call) :
    Session × List Notice × Except Error Answer :=
  let (result, draft) := (Construction.ofCall schema call).run.run ⟨session.registry, []⟩
  let (log, passed) := session.log.report draft.raised
  (⟨draft.registry, log⟩, passed, result)

end Derivation

end DocGraph
