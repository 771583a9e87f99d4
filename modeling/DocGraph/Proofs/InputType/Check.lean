import DocGraph.Proofs.InputType.Conforms

set_option autoImplicit false

namespace DocGraph

def ScalarType.accepts : ScalarType → Json → Bool
  | .string, .str _ => true
  | .id, .str _ | .id, .num (.int _) => true
  | .int, .num (.int _) => true
  | .float, .num _ => true
  | .boolean, .bool _ => true
  | .custom _, _ => true
  | _, _ => false

theorem ScalarType.accepts_sound (scalar : ScalarType) (value : Json) (accepted : scalar.accepts value = true) :
    scalar.Accepts value := by
  unfold accepts at accepted
  split at accepted
  all_goals trivial

namespace TypeRef

section

variable (registry : Registry) (scalars : List String) (check : TypeRef → Json → Bool)

def checkElements (type : TypeRef) : Json → Bool
  | .arr elements => elements.all (check type)
  | _ => false

def checkMember (object : InputObject) (member : String × Json) : Bool :=
  match object.field? member.1 with
  | some field => check field.type member.2
  | none => false

def checkObject (object : InputObject) : Json → Bool
  | .obj members => decide (Members.keys members).Nodup && members.all (checkMember check object)
  | _ => false

def checkEnum (enum : InputEnum) : Json → Bool
  | .str name => enum.values.any (fun member => member.name == name)
  | _ => false

def checkScalar (type : TypeRef) (value : Json) : Bool :=
  match ScalarType.builtin? type.text with
  | some scalar => scalar.accepts value
  | none => scalars.contains type.text

def checkName (type : TypeRef) (value : Json) : Bool :=
  match registry.lookup? type.text with
  | some (.object object) => checkObject check object value
  | some (.enum enum) => checkEnum enum value
  | none => checkScalar scalars type value

def checkType (type : TypeRef) (value : Json) : Bool :=
  match Text.before? ['!'] type.text.toList with
  | some inner => !value.isNull && check ⟨String.ofList inner⟩ value
  | none => value.isNull ||
      match insideBrackets? type.text.toList with
      | some inner => checkElements check ⟨String.ofList inner⟩ value
      | none => checkName registry scalars check type value

end

def checks (registry : Registry) (scalars : List String) : Nat → TypeRef → Json → Bool
  | 0, _, _ => false
  | depth + 1, type, value => checkType registry scalars (checks registry scalars depth) type value

theorem non_null_of_cut (type : TypeRef) (inner : List Char) (cut : Text.before? ['!'] type.text.toList = some inner) :
    type = nonNull ⟨String.ofList inner⟩ := by
  cases type
  refine congrArg TypeRef.mk (String.toList_injective ?_)
  rw [(Text.before?_eq_some_iff _ _ _).mp cut]
  simp

theorem nullable_of_uncut (type : TypeRef) (uncut : Text.before? ['!'] type.text.toList = none) :
    type.isNonNull = false := by
  cases ends : type.isNonNull with
  | false => rfl
  | true =>
      obtain ⟨front, whole⟩ := List.getLast?_eq_some_iff.mp (eq_of_beq ends)
      rw [(Text.before?_eq_some_iff ['!'] _ front).mpr whole] at uncut
      cases uncut

theorem list_of_inside (type : TypeRef) (inner : List Char) (inside : insideBrackets? type.text.toList = some inner) :
    type = list ⟨String.ofList inner⟩ := by
  cases type
  obtain ⟨rest, opened, closed⟩ := Option.bind_eq_some_iff.mp inside
  refine congrArg TypeRef.mk (String.toList_injective ?_)
  rw [(Text.after?_eq_some_iff _ _ _).mp opened, (Text.before?_eq_some_iff _ _ _).mp closed]
  simp

section

variable (registry : Registry) (scalars : List String) (check : TypeRef → Json → Bool)
  (sound : ∀ type value, check type value = true → Conforms registry scalars type value)

include sound in
theorem check_object_sound (type : TypeRef) (object : InputObject) (value : Json) (name : type.IsName)
    (found : registry.lookup? type.text = some (.object object)) (checked : checkObject check object value = true) :
    Conforms registry scalars type value := by
  cases value with
  | obj members =>
      rw [checkObject, Bool.and_eq_true, decide_eq_true_iff, List.all_eq_true] at checked
      have passes (key : String) (held : Json) (member : (key, held) ∈ members) :
          ∃ input, object.field? key = some input ∧ check input.type held = true := by
        have passed := checked.2 (key, held) member
        unfold checkMember at passed
        split at passed
        · rename_i input declared
          exact ⟨input, declared, passed⟩
        · cases passed
      refine .object type object members name found checked.1 ?_ ?_
      · intro key listed
        obtain ⟨⟨_, held⟩, member, rfl⟩ := List.mem_map.mp listed
        obtain ⟨input, declared, _⟩ := passes _ held member
        exact Option.isSome_iff_exists.mpr ⟨input, declared⟩
      · intro key held input member declared
        obtain ⟨other, again, passed⟩ := passes key held member
        cases again.symm.trans declared
        exact sound input.type held passed
  | _ => cases checked

theorem check_enum_sound (type : TypeRef) (enum : InputEnum) (value : Json) (name : type.IsName)
    (found : registry.lookup? type.text = some (.enum enum)) (checked : checkEnum enum value = true) :
    Conforms registry scalars type value := by
  cases value with
  | str text =>
      obtain ⟨member, listed, same⟩ := List.any_eq_true.mp checked
      rw [← eq_of_beq same]
      exact .enumName type enum member name found listed
  | _ => cases checked

theorem check_scalar_sound (type : TypeRef) (value : Json) (name : type.IsName)
    (free : registry.lookup? type.text = none) (checked : checkScalar scalars type value = true) :
    Conforms registry scalars type value := by
  unfold checkScalar at checked
  split at checked
  · rename_i scalar builtin
    exact .scalar type scalar value name free builtin (scalar.accepts_sound value checked)
  · rename_i other
    exact .custom type value name free other (List.contains_iff_mem.mp checked)

include sound in
theorem check_type_sound (type : TypeRef) (value : Json) (checked : checkType registry scalars check type value = true) :
    Conforms registry scalars type value := by
  unfold checkType at checked
  split at checked
  · rename_i inner cut
    rw [Bool.and_eq_true, Bool.not_eq_true'] at checked
    have same := non_null_of_cut type inner cut
    exact same ▸ .nonNull _ value checked.1 (sound _ value checked.2)
  · rename_i unmarked
    by_cases null : value.isNull = true
    · cases value with
      | null => exact .null type (nullable_of_uncut type unmarked)
      | _ => cases null
    · rw [Bool.eq_false_iff.mpr null, Bool.false_or] at checked
      split at checked
      · rename_i inner inside
        have same := list_of_inside type inner inside
        cases value with
        | arr elements =>
            exact same ▸ .list _ elements (fun element member => sound _ element (List.all_eq_true.mp checked element member))
        | _ => cases checked
      · rename_i plain
        have name : type.IsName := by rw [IsName, unwrapped?, unmarked, plain, Option.or_none]
        unfold checkName at checked
        split at checked
        · rename_i object found
          exact check_object_sound registry scalars check sound type object value name found checked
        · rename_i enum found
          exact check_enum_sound registry scalars type enum value name found checked
        · rename_i free
          exact check_scalar_sound registry scalars type value name free checked

end

theorem conforms_of_checks (registry : Registry) (scalars : List String) (depth : Nat) (type : TypeRef) (value : Json)
    (checked : checks registry scalars depth type value = true) : Conforms registry scalars type value := by
  induction depth generalizing type value with
  | zero => cases checked
  | succ depth ih => exact check_type_sound registry scalars (checks registry scalars depth) ih type value checked

end TypeRef

end DocGraph
