import DocGraph.Text.Affix

set_option autoImplicit false

namespace DocGraph

structure TypeRef where
  text : String
deriving DecidableEq, Repr

namespace TypeRef

def list (type : TypeRef) : TypeRef := ⟨"[" ++ type.text ++ "]"⟩

def nonNull (type : TypeRef) : TypeRef := ⟨type.text ++ "!"⟩

def insideBrackets? (text : List Char) : Option (List Char) :=
  (Text.after? ['['] text).bind (Text.before? [']'])

def unwrapped? (text : List Char) : Option (List Char) :=
  (Text.before? ['!'] text).or (insideBrackets? text)

theorem length_lt_of_unwrapped? {text inner : List Char} (found : unwrapped? text = some inner) :
    inner.length < text.length := by
  unfold unwrapped? at found
  rw [Option.or_eq_some_iff] at found
  rcases found with marked | ⟨_, bracketed⟩
  · rw [(Text.before?_eq_some_iff _ _ _).1 marked]
    simp
  · obtain ⟨rest, opened, closed⟩ := Option.bind_eq_some_iff.1 bracketed
    rw [(Text.after?_eq_some_iff _ _ _).1 opened, (Text.before?_eq_some_iff _ _ _).1 closed]
    simp only [List.length_append, List.length_cons, List.length_nil]
    omega

def innermost (text : List Char) : List Char :=
  match found : unwrapped? text with
  | some inner =>
      have _shorter := length_lt_of_unwrapped? found
      innermost inner
  | none => text
termination_by text.length

def named (type : TypeRef) : String := String.ofList (innermost type.text.toList)

def isNonNull (type : TypeRef) : Bool := type.text.toList.getLast? == some '!'

end TypeRef

end DocGraph
