import DocGraph.Proofs.Schema.Gathering
import DocGraph.Proofs.Schema.Leaves

set_option autoImplicit false

namespace DocGraph.Schema

open GraphQL

theorem declared_defined (definitions : List TypeDefinition) (declared : Schema)
    (declares : definitions.foldlM declare {} = .ok declared) :
    (∀ composite ∈ declared.composites, ∃ definition ∈ definitions, definition.name = composite.name) ∧
      ∀ enum ∈ declared.enums, ∃ definition ∈ definitions, enumOf? definition = some enum := by
  refine except_fold_keeps declare (fun held =>
    (∀ composite ∈ held.composites, ∃ definition ∈ definitions, definition.name = composite.name) ∧
      ∀ enum ∈ held.enums, ∃ definition ∈ definitions, enumOf? definition = some enum) definitions {} declared
    ⟨fun _ none => absurd none List.not_mem_nil, fun _ none => absurd none List.not_mem_nil⟩ ?_ declares
  intro definition member held next before step
  rcases declare_cases held next definition step with rfl | rfl
  · exact before
  · constructor
    · intro composite listed
      rcases List.mem_append.mp listed with earlier | own
      · exact before.1 composite earlier
      · obtain ⟨defined, among, rfl⟩ := List.mem_map.mp own
        obtain ⟨source, single, taken⟩ := List.mem_filterMap.mp among
        cases List.mem_singleton.mp single
        obtain ⟨kind, _, rfl⟩ := Option.map_eq_some_iff.mp taken
        exact ⟨definition, member, rfl⟩
    · intro enum listed
      rcases List.mem_append.mp listed with earlier | own
      · exact before.2 enum earlier
      · obtain ⟨source, single, taken⟩ := List.mem_filterMap.mp own
        cases List.mem_singleton.mp single
        exact ⟨definition, member, taken⟩

structure Spelled (schema : Schema) : Prop where
  composites : ∀ composite ∈ schema.composites, IsName composite.name
  fields : ∀ composite ∈ schema.composites, ∀ field ∈ composite.fields, IsName field.name
  types : ∀ composite ∈ schema.composites, ∀ field ∈ composite.fields, field.type.MarkedOnce
  values : ∀ enum ∈ schema.enums, ∀ value ∈ enum.values, IsEnumName value
  leaves : schema.HasLeaves

theorem spelled_of_text (text : String) (schema : Schema) (read : ofText text = .ok schema) : schema.Spelled := by
  have leaves := leaves_of_text text schema read
  have types := marks_of_text text schema read
  have fields := fields_of_text (fun field => IsName field.name) text schema read
    (fun held owner definition field _ proper made => field_of_name held owner definition field made ▸ proper.named)
  obtain ⟨definitions, built, proper⟩ := types_of_text text schema read
  obtain ⟨declared, declares, _, _, rfl, _⟩ := (of_types_filled definitions schema).mp built
  obtain ⟨composites, enums⟩ := declared_defined definitions declared declares
  refine ⟨?_, fields, types, ?_, leaves⟩
  · intro composite listed
    obtain ⟨held, declares, rfl⟩ := List.mem_map.mp listed
    obtain ⟨definition, member, named⟩ := composites held declares
    rw [fillings]
    exact named ▸ (proper definition member).1
  · intro enum listed value inside
    obtain ⟨definition, member, defined⟩ := enums enum listed
    unfold enumOf? at defined
    split at defined
    · rename_i values body
      cases defined
      obtain ⟨given, written, rfl⟩ := List.mem_map.mp inside
      exact (proper definition member).2.values given (by rw [body]; exact written)
    · cases defined

end DocGraph.Schema
