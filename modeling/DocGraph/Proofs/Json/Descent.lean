import DocGraph.Json.Basic

set_option autoImplicit false

namespace DocGraph.Json

def member? (key : String) (value : Json) : Option Json := value.members?.bind (Members.get? key)

def descend : List String → Option Json → Option Json
  | [], held => held
  | key :: rest, held => descend rest (held.bind (member? key))

theorem descend_append (front back : List String) (held : Option Json) :
    descend (front ++ back) held = descend back (descend front held) := by
  induction front generalizing held with
  | nil => rfl
  | cons key rest ih => exact ih (held.bind (member? key))

theorem descend_one (keys : List String) (key : String) (held : Option Json) :
    descend (keys ++ [key]) held = (descend keys held).bind (member? key) :=
  descend_append keys [key] held

end DocGraph.Json
