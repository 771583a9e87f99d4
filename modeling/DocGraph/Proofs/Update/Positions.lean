import DocGraph.Proofs.Json.Members
import DocGraph.Proofs.Schema.Lookup
import DocGraph.Proofs.Update.SetEntries
import DocGraph.Update.Completeness

set_option autoImplicit false

namespace DocGraph

def FieldType.Respected : FieldType → Json → Prop
  | .named _, _ => True
  | .nonNull of, value => value.isNull = false ∧ of.Respected value
  | .list of, value => ∀ elements, value = .arr elements → ∀ element ∈ elements, of.Respected element

namespace Update

inductive ObjectAt (schema : Schema) : FieldType → Json → Bool → CompositeIndex → Members → Prop where
  | self (kind : CompositeKind) (id : CompositeIndex) (object : Members) :
      ObjectAt schema (.named (.composite kind id)) (.obj object) false id object
  | member (kind : CompositeKind) (id type : CompositeIndex) (object inner : Members) (composite : Composite)
      (key : String) (field : Field) (value : Json) (listed : Bool) (found : schema.composite id = .ok composite)
      (declared : composite.field? key = some field) (given : Members.get? key object = some value)
      (below : ObjectAt schema field.type value listed type inner) :
      ObjectAt schema (.named (.composite kind id)) (.obj object) listed type inner
  | nonNull (of : FieldType) (value : Json) (listed : Bool) (type : CompositeIndex) (inner : Members)
      (below : ObjectAt schema of value listed type inner) : ObjectAt schema (.nonNull of) value listed type inner
  | element (of : FieldType) (elements : List Json) (element : Json) (listed : Bool) (type : CompositeIndex)
      (inner : Members) (member : element ∈ elements) (below : ObjectAt schema of element listed type inner) :
      ObjectAt schema (.list of) (.arr elements) true type inner

-- The object has a value for every stored field that must not be null. The name of the marker does not count
-- as a field outside lists.
def Complete (schema : Schema) (listed : Bool) (id : CompositeIndex) (object : Members) : Prop :=
  ∀ composite field, schema.composite id = .ok composite → field ∈ composite.fields → field.isStored = true →
    isOutermostNonNull field.type = true → listed = true ∨ field.name ≠ Overwrite.marker →
    ∃ value, Members.get? field.name object = some value ∧ value.isNull = false

inductive StoredAt (schema : Schema) : CompositeIndex → List String → Field → Prop where
  | here (id : CompositeIndex) (composite : Composite) (key : String) (field : Field)
      (found : schema.composite id = .ok composite) (declared : composite.field? key = some field)
      (stored : field.isStored = true) : StoredAt schema id [key] field
  | deeper (id nested : CompositeIndex) (composite : Composite) (key : String) (through field : Field)
      (rest : List String) (found : schema.composite id = .ok composite)
      (declared : composite.field? key = some through) (stored : through.isStored = true)
      (leads : through.type.composite? = some nested) (later : StoredAt schema nested rest field) :
      StoredAt schema id (key :: rest) field

section

variable (schema : Schema)

theorem object_at_holder (type : FieldType) (value : Json) (listed : Bool) (id : CompositeIndex) (inner : Members)
    (position : ObjectAt schema type value listed id inner) :
    (∃ object, value = .obj object) ∨ type.isList = true ∧ ∃ elements, value = .arr elements := by
  induction position with
  | self kind id object => exact .inl ⟨object, rfl⟩
  | member kind id type object => exact .inl ⟨object, rfl⟩
  | nonNull _ _ _ _ _ _ ih => exact ih
  | element _ elements => exact .inr ⟨rfl, elements, rfl⟩

theorem complete_widen (listed : Bool) (id : CompositeIndex) (object : Members)
    (complete : Complete schema true id object) : Complete schema listed id object :=
  fun composite field found member stored outermost _ => complete composite field found member stored outermost (.inl rfl)

theorem stored_at_cons (id : CompositeIndex) (key : String) (rest : List String) (field : Field)
    (position : StoredAt schema id (key :: rest) field) :
    ∃ composite through, schema.composite id = .ok composite ∧ composite.field? key = some through ∧
      through.isStored = true ∧ (rest = [] ∧ through = field ∨
        ∃ nested, through.type.composite? = some nested ∧ StoredAt schema nested rest field) := by
  cases position with
  | here _ composite _ _ found declared stored => exact ⟨composite, field, found, declared, stored, .inl ⟨rfl, rfl⟩⟩
  | deeper _ nested composite _ through _ _ found declared stored leads later =>
      exact ⟨composite, through, found, declared, stored, .inr ⟨nested, leads, later⟩⟩

theorem stored_at_some (id : CompositeIndex) (field : Field) : ¬ StoredAt schema id [] field := nofun

end

theorem unmarked_null (value : Json) : (unmarked value).isNull = value.isNull := by
  cases value with
  | obj object =>
      rw [unmarked]
      split <;> rfl
  | _ => rfl

theorem unmarked_get (key : String) (object : Members) : Members.get? key (unmarkedMembers object) =
    if key = Overwrite.marker then none else (Members.get? key object).map unmarked := by
  induction object with
  | nil => simp [unmarkedMembers, Members.get?]
  | cons entry rest ih =>
      rcases entry with ⟨name, value⟩
      by_cases marks : name = Overwrite.marker
      · rw [unmarkedMembers, if_pos marks, ih]
        by_cases same : key = Overwrite.marker
        · rw [if_pos same, if_pos same]
        · have other : name ≠ key := fun named => same (named.symm.trans marks)
          rw [if_neg same, if_neg same, Members.get?, if_neg other]
      · rw [unmarkedMembers, if_neg marks, Members.get?, Members.get?]
        by_cases hit : name = key
        · rw [if_pos hit, if_pos hit, if_neg (fun same => marks (hit.trans same))]
          rfl
        · rw [if_neg hit, if_neg hit, ih]

theorem unmarked_object (value : Json) (object : Members) (same : unmarked value = .obj object) :
    ∃ held, value = .obj held ∧ (object = held ∨ object = unmarkedMembers held) := by
  cases value with
  | obj held =>
      rw [unmarked] at same
      split at same
      · exact ⟨held, rfl, .inl (Json.obj.inj same).symm⟩
      · exact ⟨held, rfl, .inr (Json.obj.inj same).symm⟩
  | _ => cases same

theorem unmarked_array (value : Json) (elements : List Json) (same : unmarked value = .arr elements) :
    value = .arr elements := by
  cases value with
  | obj held =>
      rw [unmarked] at same
      split at same <;> cases same
  | _ => exact same

theorem unmarked_positions (schema : Schema) (type : FieldType) (value written : Json) (listed : Bool)
    (id : CompositeIndex) (inner : Members) (same : written = unmarked value)
    (position : ObjectAt schema type written listed id inner) :
    ∃ held, ObjectAt schema type value listed id held ∧
      (inner = held ∨ listed = false ∧ inner = unmarkedMembers held) := by
  induction position generalizing value with
  | self kind id object =>
      obtain ⟨held, rfl, shape⟩ := unmarked_object value object same.symm
      exact ⟨held, .self kind id held, shape.imp (fun plain => plain) (fun plain => ⟨rfl, plain⟩)⟩
  | member kind id type object inner composite key field content listed found declared given below ih =>
      obtain ⟨held, rfl, shape⟩ := unmarked_object value object same.symm
      rcases shape with rfl | rfl
      · exact ⟨inner, .member kind id type object inner composite key field content listed found declared given below,
          .inl rfl⟩
      · rw [unmarked_get] at given
        split at given
        · cases given
        · obtain ⟨before, there, plain⟩ := Option.map_eq_some_iff.mp given
          obtain ⟨original, position, shape⟩ := ih before plain.symm
          exact ⟨original, .member kind id type held original composite key field before listed found declared there
            position, shape⟩
  | nonNull of content listed type inner below ih =>
      obtain ⟨original, position, shape⟩ := ih value same
      exact ⟨original, .nonNull of value listed type original position, shape⟩
  | element of elements element listed type inner member below ih =>
      cases unmarked_array value elements same.symm
      exact ⟨inner, .element of elements element listed type inner member below, .inl rfl⟩

theorem unmarked_complete (schema : Schema) (listed : Bool) (id : CompositeIndex) (held inner : Members)
    (shape : inner = held ∨ listed = false ∧ inner = unmarkedMembers held)
    (complete : Complete schema true id held) : Complete schema listed id inner := by
  rcases shape with rfl | ⟨rfl, rfl⟩
  · exact complete_widen schema listed id inner complete
  · intro composite field found member stored outermost exempt
    have other : field.name ≠ Overwrite.marker := exempt.resolve_left (by decide)
    obtain ⟨value, given, present⟩ := complete composite field found member stored outermost (.inl rfl)
    exact ⟨unmarked value, by rw [unmarked_get, if_neg other, given]; rfl, (unmarked_null value).trans present⟩

end Update

end DocGraph
