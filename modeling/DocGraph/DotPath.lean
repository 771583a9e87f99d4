import DocGraph.Text.Affix

set_option autoImplicit false

namespace DocGraph.DotPath

def under (path key : String) : String := if path = "" then key else path ++ "." ++ key

def below (path ancestor : String) : Bool :=
  match Text.after? ancestor.toList path.toList with
  | some ('.' :: _) => true
  | _ => false

theorem below_iff (path ancestor : String) :
    below path ancestor = true ↔ ∃ rest, path.toList = ancestor.toList ++ '.' :: rest := by
  unfold below
  constructor
  · intro h
    split at h
    · rename_i rest found
      exact ⟨rest, (Text.after?_eq_some_iff _ _ _).1 found⟩
    · simp at h
  · rintro ⟨rest, h⟩
    rw [(Text.after?_eq_some_iff _ _ _).2 h]
    rfl

end DocGraph.DotPath
