import DocGraph.Derivation.Session
import DocGraph.Proofs.InputType.Registry
import DocGraph.Proofs.Schema.Sound
import Mathlib.Control.Monad.Basic

set_option autoImplicit false

namespace DocGraph

def Schema.fieldTypes (schema : Schema) : List FieldType :=
  schema.composites.flatMap (fun composite => composite.fields.map Field.type)

namespace Derivation

def compositeTargets (schema : Schema) : List Target :=
  (List.range schema.composites.length).flatMap (fun index =>
    Family.all.map (fun family => .composite family ⟨index⟩ .nested))

def enumTargets (type : FieldType) : List Target :=
  match type.innermost with
  | .enum id => [.enumCopy id]
  | _ => []

def leafTargets (schema : Schema) (type : FieldType) : List Target :=
  match type.composite?, leafName schema type with
  | none, .ok leaf =>
      [.leafFilter leaf (isStringLeaf type), .negatedLeafFilter leaf (isStringLeaf type)] ++ enumTargets type
  | _, _ => []

def sharedTargets : List Target := [.deprecatedOperators, .presenceOperators, .sortDirections, .page]

def targets (schema : Schema) : List Target :=
  compositeTargets schema ++ schema.fieldTypes.flatMap (leafTargets schema) ++ sharedTargets

def CollisionFree (schema : Schema) : Prop :=
  ∀ a ∈ targets schema, ∀ b ∈ targets schema, a.name schema = b.name schema → a = b

instance (schema : Schema) : Decidable (CollisionFree schema) := inferInstanceAs (Decidable (∀ _ ∈ _, _))

namespace Target

def bare : Target → Target
  | .composite family id _ => .composite family id .nested
  | target => target

def Of (schema : Schema) (target : Target) : Prop := target.bare ∈ targets schema

theorem bare_name (schema : Schema) (target : Target) : target.bare.name schema = target.name schema := by
  cases target <;> rfl

end Target

theorem mem_field_types (schema : Schema) (composite : Composite) (field : Field)
    (declared : composite ∈ schema.composites) (listed : field ∈ composite.fields) :
    field.type ∈ schema.fieldTypes :=
  List.mem_flatMap.mpr ⟨composite, declared, List.mem_map.mpr ⟨field, listed, rfl⟩⟩

theorem field_type_refers (schema : Schema) (sound : schema.Sound) (type : FieldType)
    (member : type ∈ schema.fieldTypes) : type.Refers schema := by
  obtain ⟨composite, declared, inside⟩ := List.mem_flatMap.mp member
  obtain ⟨field, listed, rfl⟩ := List.mem_map.mp inside
  exact sound.refers composite declared field listed

theorem family_mem_all (family : Family) : family ∈ Family.all := by
  cases family <;> decide

theorem composite_target_mem (schema : Schema) (family : Family) (id : CompositeIndex) :
    .composite family id .nested ∈ compositeTargets schema ↔ id.index < schema.composites.length := by
  constructor
  · intro member
    obtain ⟨index, within, listed⟩ := List.mem_flatMap.mp member
    obtain ⟨_, _, same⟩ := List.mem_map.mp listed
    cases same
    exact List.mem_range.mp within
  · intro within
    exact List.mem_flatMap.mpr ⟨id.index, List.mem_range.mpr within,
      List.mem_map.mpr ⟨family, family_mem_all family, rfl⟩⟩

theorem leaf_target_shape (schema : Schema) (type : FieldType) (target : Target)
    (member : target ∈ leafTargets schema type) :
    type.composite? = none ∧ ∃ leaf, leafName schema type = .ok leaf ∧
      (target = .leafFilter leaf (isStringLeaf type) ∨ target = .negatedLeafFilter leaf (isStringLeaf type) ∨
        ∃ id, type.innermost = .enum id ∧ target = .enumCopy id) := by
  unfold leafTargets at member
  split at member
  · rename_i leaf plain named
    refine ⟨plain, leaf, named, ?_⟩
    simp only [List.mem_append, List.mem_cons, List.not_mem_nil, or_false] at member
    rcases member with (same | same) | copy
    · exact .inl same
    · exact .inr (.inl same)
    · unfold enumTargets at copy
      split at copy
      · rename_i id innermost
        exact .inr (.inr ⟨id, innermost, List.mem_singleton.mp copy⟩)
      · exact absurd copy List.not_mem_nil
  · exact absurd member List.not_mem_nil

theorem target_cases (schema : Schema) (target : Target) (of : target ∈ targets schema) :
    (∃ family id, target = .composite family id .nested ∧ id.index < schema.composites.length) ∨
      (∃ type ∈ schema.fieldTypes, target ∈ leafTargets schema type) ∨ target ∈ sharedTargets := by
  rcases List.mem_append.mp of with member | shared
  · rcases List.mem_append.mp member with composite | leaf
    · obtain ⟨index, within, listed⟩ := List.mem_flatMap.mp composite
      obtain ⟨family, _, same⟩ := List.mem_map.mp listed
      exact .inl ⟨family, ⟨index⟩, same.symm, List.mem_range.mp within⟩
    · obtain ⟨type, listed, inside⟩ := List.mem_flatMap.mp leaf
      exact .inr (.inl ⟨type, listed, inside⟩)
  · exact .inr (.inr shared)

theorem composite_of (schema : Schema) (family : Family) (id : CompositeIndex) (scope : Scope) :
    (Target.composite family id scope).Of schema ↔ id.index < schema.composites.length := by
  constructor
  · intro of
    rcases target_cases schema _ of with ⟨_, _, same, within⟩ | ⟨type, _, inside⟩ | shared
    · cases same
      exact within
    · obtain ⟨_, _, _, same | same | ⟨_, _, same⟩⟩ := leaf_target_shape schema type _ inside
      all_goals cases same
    · simp [Target.bare, sharedTargets] at shared
  · intro within
    exact List.mem_append.mpr (.inl (List.mem_append.mpr (.inl
      ((composite_target_mem schema family id).mpr within))))

theorem leaf_of (schema : Schema) (type : FieldType) (target : Target) (used : type ∈ schema.fieldTypes)
    (member : target ∈ leafTargets schema type) : target ∈ targets schema :=
  List.mem_append.mpr (.inl (List.mem_append.mpr (.inr (List.mem_flatMap.mpr ⟨type, used, member⟩))))

theorem shared_of (schema : Schema) (target : Target) (shared : target ∈ sharedTargets) : target ∈ targets schema :=
  List.mem_append.mpr (.inr shared)

end Derivation

end DocGraph
