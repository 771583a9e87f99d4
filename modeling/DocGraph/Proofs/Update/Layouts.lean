import DocGraph.Proofs.Derivation.Names
import DocGraph.Proofs.Update.Placed
import DocGraph.Proofs.Update.Shapes

set_option autoImplicit false

namespace DocGraph

open DocGraph.Derivation

-- The stored fields of composites. A list holds no object, so it is not told apart here.
abbrev Schema.layout (schema : Schema) : Update.Layout where
  Owner := CompositeIndex
  Field := Field
  field? id key := ((schema.composite id).toOption.bind (fun composite => composite.field? key)).filter Field.isStored
  inside? field := field.type.composite?

abbrev Registry.layout (registry : Registry) : Update.Layout where
  Owner := String
  Field := InputValue
  field? name key := (registry.inputObject? name).bind (fun object => object.field? key)
  inside? field := if (registry.inputObject? field.type.named).isSome then some field.type.named else none

namespace Update

section

variable (schema : Schema)

theorem schema_field (id : CompositeIndex) (key : String) (field : Field) : schema.layout.field? id key = some field ↔
    ∃ composite, schema.composite id = .ok composite ∧ composite.field? key = some field ∧ field.isStored = true := by
  cases found : schema.composite id with
  | error error => simp [found, Except.toOption]
  | ok composite => simp [found, Except.toOption, Option.filter_eq_some_iff]

theorem schema_plain_names (names : schema.HasPlainNames) : schema.layout.HasPlainNames := by
  intro id key field declared
  obtain ⟨composite, found, known, _⟩ := (schema_field schema id key field).mp declared
  exact Schema.plain_field_name schema names composite (Schema.composite_mem schema id composite found) key field known

inductive Reaches : CompositeIndex → List String → Field → Prop where
  | here (id : CompositeIndex) (composite : Composite) (key : String) (field : Field)
      (found : schema.composite id = .ok composite) (declared : composite.field? key = some field)
      (stored : field.isStored = true) : Reaches id [key] field
  | deeper (id nested : CompositeIndex) (composite : Composite) (key : String) (through field : Field)
      (rest : List String) (found : schema.composite id = .ok composite)
      (declared : composite.field? key = some through) (stored : through.isStored = true)
      (leads : through.type.composite? = some nested) (single : through.type.isList = false)
      (later : Reaches nested rest field) : Reaches id (key :: rest) field

variable {schema} {part : Family} {custom marks : Json → Prop} {own : Option String}

theorem shaped_fits (id : CompositeIndex) (object : Members) (type : FieldType) (leads : type.composite? = some id)
    (shaped : Shaped schema part custom marks own type (.obj object)) : Fits schema.layout own id object := by
  generalize same : Json.obj object = value at shaped
  induction shaped generalizing id object with
  | null => cases same
  | nonNull own of value shaped ih => exact ih id object leads same
  | list => cases same
  | leaf own type value holds =>
      cases type with
      | composite kind id => cases holds
      | _ => cases leads
  | object own kind other composite members found distinct marked declared fields ih =>
      cases same
      cases leads
      apply Fits.intro
      · exact distinct
      · intro key listed apart
        obtain ⟨field, known, stored, _⟩ := declared key listed apart
        rw [(schema_field schema other key field).mpr ⟨composite, found, known, stored⟩]
        rfl
      · intro key child field nested member apart known leads
        obtain ⟨composite', again, known, _⟩ := (schema_field schema other key field).mp known
        cases found.symm.trans again
        exact ih key (.obj child) field member apart known nested child leads rfl

theorem placed_shaped (kind : CompositeKind) (id : schema.layout.Owner) (object : Members) (path : List String)
    (field : schema.layout.Field) (value : Json) (placed : PlacedAt schema.layout own id object path field value)
    (shaped : Shaped schema part custom marks own (.named (.composite kind id)) (.obj object)) :
    Reaches schema id path field ∧ part.takes field = true ∧ Shaped schema part custom marks own field.type value := by
  induction placed generalizing kind with
  | here id object key field value declared other given =>
      obtain ⟨composite, found, members⟩ := shaped_members kind id object shaped
      obtain ⟨composite', again, known, stored⟩ := (schema_field schema id key field).mp declared
      cases found.symm.trans again
      obtain ⟨field', same, _, takes, below⟩ := members.fields key value (Members.mem_of_get? key value object given) other
      cases known.symm.trans same
      exact ⟨.here id composite key field found known stored, takes, below⟩
  | deeper id nested object inner key through field rest value declared leads other given later ih =>
      obtain ⟨composite, found, members⟩ := shaped_members kind id object shaped
      obtain ⟨composite', again, known, stored⟩ := (schema_field schema id key through).mp declared
      cases found.symm.trans again
      obtain ⟨field', same, _, takes, below⟩ := members.fields key _ (Members.mem_of_get? key _ object given) other
      cases known.symm.trans same
      obtain ⟨single, ⟨⟨name, innermost⟩, _⟩ | ⟨kind', id', innermost, shaped'⟩⟩ := shaped_object through.type inner below
      · simp [FieldType.composite?, innermost] at leads
      · have same : id' = nested := by simpa [FieldType.composite?, innermost] using leads
        subst same
        obtain ⟨reaches, takes, shaped''⟩ := ih kind' shaped'
        exact ⟨.deeper id id' composite key through field rest found known stored leads single reaches, takes, shaped''⟩

theorem origin_shaped (kind : CompositeKind) (id : CompositeIndex) (object : Members) (entry : String × Json)
    (free : ∀ inner, ¬ custom (.obj inner)) (origin : Origin schema.layout own id object [] entry)
    (shaped : Shaped schema part custom marks own (.named (.composite kind id)) (.obj object)) :
    ∃ field value, Reaches schema id (DotPath.segments entry.1) field ∧ part.takes field = true ∧
      Shaped schema part custom marks own field.type value ∧ entry.2 = unmarked value := by
  obtain ⟨path, field, value, placed, origin⟩ := origin
  obtain ⟨reaches, takes, below⟩ := placed_shaped kind id object path field value placed shaped
  rcases origin with ⟨cut, same⟩ | ⟨leaf, ⟨inner, rfl⟩, _⟩
  · rw [List.nil_append] at cut
    exact ⟨field, value, cut ▸ reaches, takes, below, same⟩
  · obtain ⟨_, ⟨_, holds⟩ | ⟨_, _, innermost, _⟩⟩ := shaped_object field.type inner below
    · exact absurd holds (free inner)
    · simp [FieldType.composite?, innermost] at leaf

end

section

variable (registry : Registry)

theorem registry_field (name key : String) (input : InputValue) : registry.layout.field? name key = some input ↔
    ∃ object, registry.lookup? name = some (.object object) ∧ object.field? key = some input := by
  cases found : registry.lookup? name with
  | none => simp [found, Registry.inputObject?]
  | some type => cases type <;> simp [found, Registry.inputObject?, InputType.object?]

theorem registry_plain_names (schema : Schema) (names : schema.HasPlainNames) (grounded : Grounded schema registry) :
    registry.layout.HasPlainNames := by
  intro name key input declared
  obtain ⟨object, found, given⟩ := (registry_field registry name key input).mp declared
  obtain ⟨target, settled⟩ := grounded name _ found
  exact definition_plain_names schema names target object settled.defined key input given

theorem conforms_fits (scalars : List String) (own : Option String) (type : TypeRef) (value : Json) (object : Members)
    (conforms : type.Conforms registry scalars value) (same : value = .obj object)
    (leads : (registry.inputObject? type.named).isSome = true) : Fits registry.layout own type.named object := by
  induction conforms generalizing object with
  | null => cases same
  | nonNull type value given conforms ih =>
      rw [TypeRef.named_non_null] at leads ⊢
      exact ih object same leads
  | list => cases same
  | object type entry members name found distinct declared fields ih =>
      cases same
      rw [TypeRef.named_of_name type name]
      apply Fits.intro
      · exact distinct
      · intro key listed _
        obtain ⟨input, given⟩ := Option.isSome_iff_exists.mp (declared key listed)
        rw [(registry_field registry type.text key input).mpr ⟨entry, found, given⟩]
        rfl
      · intro key child input nested member _ known inside
        obtain ⟨entry', again, given⟩ := (registry_field registry type.text key input).mp known
        cases found.symm.trans again
        obtain ⟨held, named⟩ := Option.ite_none_right_eq_some.mp inside
        cases named
        exact ih key (.obj child) input member given child rfl held
  | enumName => cases same
  | enumInternal type enum member value name found =>
      rw [TypeRef.named_of_name type name, Registry.inputObject?, found] at leads
      cases leads
  | scalar type scalar value name none =>
      rw [TypeRef.named_of_name type name, Registry.inputObject?, none] at leads
      cases leads
  | custom type value name none =>
      rw [TypeRef.named_of_name type name, Registry.inputObject?, none] at leads
      cases leads

end

end Update

end DocGraph
