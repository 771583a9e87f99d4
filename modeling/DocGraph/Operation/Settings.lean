import DocGraph.Json.Basic
import DocGraph.Schema.Basic

set_option autoImplicit false

namespace DocGraph

structure FindSettings where
  /-- The field answers with something other than documents of its type, so nothing is projected. -/
  differentOutputType : Bool := false
  /-- Root fields that are never projected. -/
  excludedFields : List String := []
  computed : FieldTest := Field.isComputed

structure UpdateSettings where
  /-- The field answers with something other than documents of its type, so nothing is projected. -/
  differentOutputType : Bool := false
  /-- Updates that leave required fields missing or null never reach the store. -/
  validateUpdateArgs : Bool := false
  /-- Set objects replace what is stored unless they say otherwise. -/
  overwrite : Bool := false
  /-- Root fields that are never projected. -/
  excludedFields : List String := []
  computed : FieldTest := Field.isComputed

namespace Settings

def flag? : Option Json → Option Bool
  | none => some false
  | some (.bool value) => some value
  | some _ => none

def name? : Json → Option String
  | .str name => some name
  | _ => none

def names? : Option Json → Option (List String)
  | none => some []
  | some (.arr items) => items.mapM name?
  | some _ => none

def finder? (names : List String) : Json → Option (String → Option Json)
  | .obj members => some (fun name => Members.get? name members)
  | .arr elements =>
      if names.length < elements.length then none
      else some (fun name => elements[names.idxOf name]?)
  | _ => none

end Settings

open Settings

def FindSettings.ofJson? (json : Json) : Option FindSettings := do
  let find ← finder? ["differentOutputType", "excludedFields"] json
  return {
    differentOutputType := ← flag? (find "differentOutputType")
    excludedFields := ← names? (find "excludedFields") }

def UpdateSettings.ofJson? (json : Json) : Option UpdateSettings := do
  let find ← finder? ["differentOutputType", "validateUpdateArgs", "overwrite", "excludedFields"] json
  return {
    differentOutputType := ← flag? (find "differentOutputType")
    validateUpdateArgs := ← flag? (find "validateUpdateArgs")
    overwrite := ← flag? (find "overwrite")
    excludedFields := ← names? (find "excludedFields") }

end DocGraph
