import DocGraph.InputType.Basic
import DocGraph.Schema.Type

set_option autoImplicit false

namespace DocGraph

structure Registry where
  entries : List (String × InputType) := []

namespace Registry

def keys (registry : Registry) : List String := registry.entries.map Prod.fst

def lookup? (registry : Registry) (key : String) : Option InputType :=
  (registry.entries.find? (fun entry => entry.1 == key)).map Prod.snd

def contains (registry : Registry) (key : String) : Bool := (registry.lookup? key).isSome

def inputObject? (registry : Registry) (key : String) : Option InputObject :=
  (registry.lookup? key).bind InputType.object?

def place (key : String) (type : InputType) : List (String × InputType) → List (String × InputType)
  | [] => [(key, type)]
  | (held, old) :: rest =>
      if key < held then (key, type) :: (held, old) :: rest
      else if key = held then (key, type) :: rest
      else (held, old) :: place key type rest

def insert (registry : Registry) (key : String) (type : InputType) : Registry :=
  ⟨place key type registry.entries⟩

def size (registry : Registry) : Nat := registry.entries.length

def resolves (registry : Registry) (scalars : List String) (name : String) : Bool :=
  registry.contains name || (ScalarType.builtin? name).isSome || scalars.contains name

def dangling (registry : Registry) (scalars : List String) : List (String × String) :=
  (registry.entries.filterMap (fun entry => entry.2.object?)).flatMap (fun object =>
    (object.fields.filter (fun field => !registry.resolves scalars field.type.named)).map (fun field =>
      (object.name, field.name)))

end Registry

end DocGraph
