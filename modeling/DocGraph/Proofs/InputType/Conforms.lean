import DocGraph.Proofs.InputType.Registry
import DocGraph.Proofs.Json.Members

set_option autoImplicit false

namespace DocGraph

def ScalarType.Accepts : ScalarType → Json → Prop
  | .string, .str _ => True
  | .id, .str _ | .id, .num (.int _) => True
  | .int, .num (.int _) => True
  | .float, .num _ => True
  | .boolean, .bool _ => True
  | .custom _, _ => True
  | _, _ => False

namespace TypeRef

def IsName (type : TypeRef) : Prop := unwrapped? type.text.toList = none

inductive Conforms (registry : Registry) (scalars : List String) : TypeRef → Json → Prop where
  | null (type : TypeRef) (nullable : type.isNonNull = false) : Conforms registry scalars type .null
  | nonNull (type : TypeRef) (value : Json) (given : value.isNull = false)
      (conforms : Conforms registry scalars type value) : Conforms registry scalars type.nonNull value
  | list (type : TypeRef) (elements : List Json)
      (each : ∀ element ∈ elements, Conforms registry scalars type element) :
      Conforms registry scalars type.list (.arr elements)
  | object (type : TypeRef) (object : InputObject) (members : Members) (name : type.IsName)
      (found : registry.lookup? type.text = some (.object object)) (distinct : (Members.keys members).Nodup)
      (declared : ∀ key ∈ Members.keys members, (object.field? key).isSome = true)
      (fields : ∀ key value field, (key, value) ∈ members → object.field? key = some field →
        Conforms registry scalars field.type value) :
      Conforms registry scalars type (.obj members)
  | enumName (type : TypeRef) (enum : InputEnum) (member : EnumValue) (name : type.IsName)
      (found : registry.lookup? type.text = some (.enum enum)) (listed : member ∈ enum.values) :
      Conforms registry scalars type (.str member.name)
  | enumInternal (type : TypeRef) (enum : InputEnum) (member : EnumValue) (value : Json) (name : type.IsName)
      (found : registry.lookup? type.text = some (.enum enum)) (listed : member ∈ enum.values)
      (internal : member.value = some value) : Conforms registry scalars type value
  | scalar (type : TypeRef) (scalar : ScalarType) (value : Json) (name : type.IsName)
      (free : registry.lookup? type.text = none) (builtin : ScalarType.builtin? type.text = some scalar)
      (accepted : scalar.Accepts value) : Conforms registry scalars type value
  | custom (type : TypeRef) (value : Json) (name : type.IsName) (free : registry.lookup? type.text = none)
      (other : ScalarType.builtin? type.text = none) (declared : type.text ∈ scalars) :
      Conforms registry scalars type value

theorem is_name_of_last (type : TypeRef) (last : Char) (ends : type.text.toList.getLast? = some last)
    (unmarked : last ≠ '!') (open' : last ≠ ']') : type.IsName := by
  have other (stop : Char) (text rest : List Char) (cut : Text.before? [stop] text = some rest) :
      text.getLast? = some stop := by
    rw [(Text.before?_eq_some_iff _ _ _).mp cut]
    simp
  unfold IsName
  cases found : unwrapped? type.text.toList with
  | none => rfl
  | some inner =>
      unfold unwrapped? at found
      rw [Option.or_eq_some_iff] at found
      rcases found with marked | ⟨_, bracketed⟩
      · cases ends.symm.trans (other '!' _ _ marked)
        exact absurd rfl unmarked
      · obtain ⟨rest, opened, closed⟩ := Option.bind_eq_some_iff.mp bracketed
        have whole := (Text.after?_eq_some_iff _ _ _).mp opened
        have stop := other ']' rest inner closed
        rw [whole, List.getLast?_append, stop] at ends
        cases ends
        exact absurd rfl open'

theorem is_name_append (front back : String) (last : Char) (ends : back.toList.getLast? = some last)
    (unmarked : last ≠ '!') (closed : last ≠ ']') : IsName ⟨front ++ back⟩ := by
  refine is_name_of_last _ last ?_ unmarked closed
  simp [List.getLast?_append, ends]

theorem list_text (type : TypeRef) : type.list.text.toList = '[' :: (type.text.toList ++ [']']) := by
  simp [list]

theorem non_null_text (type : TypeRef) : type.nonNull.text.toList = type.text.toList ++ ['!'] := by
  simp [nonNull]

theorem non_null_last (type : TypeRef) : type.nonNull.text.toList.getLast? = some '!' := by
  simp [non_null_text]

theorem list_last (type : TypeRef) : type.list.text.toList.getLast? = some ']' := by
  rw [list_text, ← List.cons_append, List.getLast?_append]
  rfl

theorem inside_list (type : TypeRef) : insideBrackets? type.list.text.toList = some type.text.toList := by
  rw [insideBrackets?, (Text.after?_eq_some_iff ['['] _ _).mpr (list_text type), Option.bind_some]
  exact (Text.before?_eq_some_iff _ _ _).mpr rfl

theorem cut_non_null (type : TypeRef) : Text.before? ['!'] type.nonNull.text.toList = some type.text.toList :=
  (Text.before?_eq_some_iff _ _ _).mpr (non_null_text type)

theorem list_not_name (type : TypeRef) : ¬ type.list.IsName := by
  intro name
  unfold IsName unwrapped? at name
  rw [inside_list, Option.or_eq_none_iff] at name
  cases name.2

theorem non_null_not_name (type : TypeRef) : ¬ type.nonNull.IsName := by
  intro name
  unfold IsName unwrapped? at name
  rw [cut_non_null] at name
  cases name

theorem innermost_of_unwrapped (text inner : List Char) (found : unwrapped? text = some inner) :
    innermost text = innermost inner := by
  rw [innermost]
  split
  · rename_i other again
    cases again.symm.trans found
    rfl
  · rename_i none
    cases none.symm.trans found

theorem name_nullable (type : TypeRef) (name : type.IsName) : type.isNonNull = false := by
  cases ends : type.isNonNull with
  | false => rfl
  | true =>
      have last : type.text.toList.getLast? = some '!' := by simpa [isNonNull] using ends
      obtain ⟨front, split⟩ := List.getLast?_eq_some_iff.mp last
      have cut := (Text.before?_eq_some_iff ['!'] type.text.toList front).mpr split
      unfold IsName unwrapped? at name
      rw [cut] at name
      cases name

theorem list_nullable (type : TypeRef) : type.list.isNonNull = false := by
  rw [isNonNull, list_text, ← List.cons_append, List.getLast?_concat]
  decide

theorem named_of_name (type : TypeRef) (name : type.IsName) : type.named = type.text := by
  have itself : innermost type.text.toList = type.text.toList := by
    rw [innermost]
    split
    · rename_i other some
      cases some.symm.trans name
    · rfl
  rw [named, itself, String.ofList_toList]

theorem named_non_null (type : TypeRef) : type.nonNull.named = type.named := by
  rw [named, named, innermost_of_unwrapped _ type.text.toList (by rw [unwrapped?, cut_non_null]; rfl)]

theorem named_list (type : TypeRef) : type.list.named = type.named := by
  have uncut : Text.before? ['!'] type.list.text.toList = none := by
    cases cut : Text.before? ['!'] type.list.text.toList with
    | none => rfl
    | some inner =>
        have ends := list_last type
        rw [(Text.before?_eq_some_iff _ _ _).mp cut] at ends
        simp at ends
  have inside : unwrapped? type.list.text.toList = some type.text.toList := by
    rw [unwrapped?, uncut, Option.none_or, inside_list]
  rw [named, named, innermost_of_unwrapped _ _ inside]

theorem list_injective (a b : TypeRef) (same : a.list = b.list) : a = b := by
  have texts := congrArg (fun type => type.text.toList) same
  simp only [list_text, List.cons.injEq, true_and, List.append_cancel_right_eq] at texts
  cases a
  cases b
  exact congrArg TypeRef.mk (String.toList_injective texts)

theorem list_ne_non_null (a b : TypeRef) : a.list ≠ b.nonNull := by
  intro same
  have ends := list_last a
  rw [same, non_null_last] at ends
  cases ends

section

variable {registry : Registry} {scalars : List String}

theorem conforms_list (type : TypeRef) (value : Json) (conforms : type.list.Conforms registry scalars value) :
    value = .null ∨ ∃ elements, value = .arr elements ∧ ∀ element ∈ elements, type.Conforms registry scalars element := by
  generalize same : type.list = reference at conforms
  cases conforms with
  | null => exact .inl rfl
  | nonNull inner => exact absurd same (list_ne_non_null type inner)
  | list inner elements each => exact .inr ⟨elements, rfl, list_injective type inner same ▸ each⟩
  | object _ _ _ name => exact absurd (same ▸ name) (list_not_name type)
  | enumName _ _ _ name => exact absurd (same ▸ name) (list_not_name type)
  | enumInternal _ _ _ _ name => exact absurd (same ▸ name) (list_not_name type)
  | scalar _ _ _ name => exact absurd (same ▸ name) (list_not_name type)
  | custom _ _ name => exact absurd (same ▸ name) (list_not_name type)

theorem conforms_object (type : TypeRef) (object : InputObject) (value : Json) (name : type.IsName)
    (found : registry.lookup? type.text = some (.object object)) (conforms : type.Conforms registry scalars value) :
    value = .null ∨ ∃ members, value = .obj members ∧ (Members.keys members).Nodup ∧
      ∀ key held, (key, held) ∈ members →
        ∃ field, object.field? key = some field ∧ field.type.Conforms registry scalars held := by
  cases conforms with
  | null => exact .inl rfl
  | nonNull inner => exact absurd name (non_null_not_name inner)
  | list inner => exact absurd name (list_not_name inner)
  | object _ other members _ again distinct declared fields =>
      cases again.symm.trans found
      refine .inr ⟨members, rfl, distinct, ?_⟩
      intro key held member
      obtain ⟨field, listed⟩ := Option.isSome_iff_exists.mp (declared key (Members.mem_keys_of_mem key held members member))
      exact ⟨field, listed, fields key held field member listed⟩
  | enumName _ _ _ _ again => cases again.symm.trans found
  | enumInternal _ _ _ _ _ again => cases again.symm.trans found
  | scalar _ _ _ _ free => cases free.symm.trans found
  | custom _ _ _ free => cases free.symm.trans found

theorem conforms_made (type : TypeRef) (name : String) (description : Option String) (inputs : List InputValue)
    (value : Json) (isName : type.IsName)
    (found : registry.lookup? type.text = some (.object (.make name description inputs)))
    (conforms : type.Conforms registry scalars value) :
    value = .null ∨ ∃ members, value = .obj members ∧ ∀ key held, (key, held) ∈ members →
      ∃ input ∈ inputs, input.name = key ∧ input.type.Conforms registry scalars held := by
  rcases conforms_object type _ value isName found conforms with null | ⟨members, same, _, fields⟩
  · exact .inl null
  · refine .inr ⟨members, same, ?_⟩
    intro key held member
    obtain ⟨input, given, conforms⟩ := fields key held member
    obtain ⟨listed, named⟩ := InputObject.make_field_mem name description inputs key input given
    exact ⟨input, listed, named, conforms⟩

theorem conforms_enum (type : TypeRef) (enum : InputEnum) (value : Json) (name : type.IsName)
    (found : registry.lookup? type.text = some (.enum enum)) (conforms : type.Conforms registry scalars value) :
    value = .null ∨ ∃ member ∈ enum.values, value = .str member.name ∨ member.value = some value := by
  cases conforms with
  | null => exact .inl rfl
  | nonNull inner => exact absurd name (non_null_not_name inner)
  | list inner => exact absurd name (list_not_name inner)
  | object _ _ _ _ again => cases again.symm.trans found
  | enumName _ _ member _ again listed =>
      cases again.symm.trans found
      exact .inr ⟨member, listed, .inl rfl⟩
  | enumInternal _ _ member _ _ again listed internal =>
      cases again.symm.trans found
      exact .inr ⟨member, listed, .inr internal⟩
  | scalar _ _ _ _ free => cases free.symm.trans found
  | custom _ _ _ free => cases free.symm.trans found

theorem conforms_builtin (type : TypeRef) (scalar : ScalarType) (value : Json) (name : type.IsName)
    (free : registry.lookup? type.text = none) (builtin : ScalarType.builtin? type.text = some scalar)
    (conforms : type.Conforms registry scalars value) : value = .null ∨ scalar.Accepts value := by
  cases conforms with
  | null => exact .inl rfl
  | nonNull inner => exact absurd name (non_null_not_name inner)
  | list inner => exact absurd name (list_not_name inner)
  | object _ _ _ _ found => cases free.symm.trans found
  | enumName _ _ _ _ found => cases free.symm.trans found
  | enumInternal _ _ _ _ _ found => cases free.symm.trans found
  | scalar _ other _ _ _ again accepted =>
      cases again.symm.trans builtin
      exact .inr accepted
  | custom _ _ _ _ other => cases other.symm.trans builtin

end

end TypeRef

end DocGraph
