import DocGraph.Filter.Document
import DocGraph.Proofs.Outcome
import DocGraph.Proofs.Schema.Renumbering

set_option autoImplicit false

namespace DocGraph

namespace Filter

variable (numbers : Renumbering) (schema other : Schema)

mutual
theorem field_entries_renumbered (renumbers : Schema.Renumbers numbers schema other) (field : Field) (path : String)
    (filter : Json) :
    fieldEntries other (field.renumber numbers) path filter = fieldEntries schema field path filter := by
  cases filter with
  | obj filter =>
      rw [fieldEntries, fieldEntries, Field.type_renumber, FieldType.composite_renumber, FieldType.is_list_renumber]
      cases field.type.composite? with
      | none => rfl
      | some id =>
          simp only [Option.map_some]
          rw [Schema.renumbered_composite numbers schema other renumbers id]
          simp only [Outcome.lift_map_bind]
          have inner (composite : Composite) (place : String) :=
            object_entries_renumbered renumbers composite .nested place filter
          simp only [inner]
  | _ => rfl
termination_by structural filter
theorem object_entries_renumbered (renumbers : Schema.Renumbers numbers schema other) (composite : Composite)
    (level : Level) (path : String) (filter : Members) :
    objectEntries other (composite.renumber numbers) level path filter =
      objectEntries schema composite level path filter := by
  cases filter with
  | nil => rfl
  | cons entry rest =>
      obtain ⟨key, value⟩ := entry
      rw [objectEntries, objectEntries, object_entries_renumbered renumbers composite level path rest]
      have first (field : Field) := field_entries_renumbered renumbers field (DotPath.under path key) value
      simp only [Composite.field_renumber, Outcome.lift_map_bind, first]
termination_by structural filter
end

variable (renumbers : Schema.Renumbers numbers schema other)

include renumbers in
theorem assembled_renumbered (type : CompositeIndex) (filter : Members) (before after : Combinator → Outcome Members)
    (same : ∀ combinator, after combinator = before combinator) :
    assembled other (numbers.composite type) filter after = assembled schema type filter before := by
  unfold assembled
  rw [Schema.renumbered_composite numbers schema other renumbers type]
  have fields (composite : Composite) :=
    object_entries_renumbered numbers schema other renumbers composite .root "" filter
  simp only [Outcome.lift_map_bind, fields, same]

mutual
theorem combined_renumbered (renumbers : Schema.Renumbers numbers schema other) (type : CompositeIndex)
    (combinator : Combinator) (filter : Members) :
    combined other (numbers.composite type) combinator filter = combined schema type combinator filter := by
  cases filter with
  | nil => rfl
  | cons entry rest =>
      obtain ⟨key, value⟩ := entry
      rw [combined, combined, combined_entry_renumbered renumbers type combinator value,
        combined_renumbered renumbers type combinator rest]
termination_by structural filter
theorem combined_entry_renumbered (renumbers : Schema.Renumbers numbers schema other) (type : CompositeIndex)
    (combinator : Combinator) (value : Json) :
    combinedEntry other (numbers.composite type) combinator value = combinedEntry schema type combinator value := by
  cases value with
  | arr filters => rw [combinedEntry, combinedEntry, combined_list_renumbered renumbers type combinator filters]
  | _ => rfl
termination_by structural value
theorem combined_list_renumbered (renumbers : Schema.Renumbers numbers schema other) (type : CompositeIndex)
    (combinator : Combinator) (filters : List Json) :
    combinedList other (numbers.composite type) combinator filters = combinedList schema type combinator filters := by
  cases filters with
  | nil => rfl
  | cons filter rest =>
      rw [combinedList, combinedList, combined_item_renumbered renumbers type combinator filter,
        combined_list_renumbered renumbers type combinator rest]
termination_by structural filters
theorem combined_item_renumbered (renumbers : Schema.Renumbers numbers schema other) (type : CompositeIndex)
    (combinator : Combinator) (filter : Json) :
    combinedItem other (numbers.composite type) combinator filter = combinedItem schema type combinator filter := by
  cases filter with
  | obj filter =>
      rw [combinedItem, combinedItem, assembled_renumbered numbers schema other renumbers type filter
        (fun inner => combined schema type inner filter) (fun inner => combined other (numbers.composite type) inner filter)
        (fun inner => combined_renumbered renumbers type inner filter)]
  | _ => rfl
termination_by structural filter
end

include renumbers in
theorem document_renumbered (type : CompositeIndex) (filter : Option Json) :
    document other (numbers.composite type) filter = document schema type filter := by
  unfold document objectDocument
  split
  · rfl
  · rename_i held _
    exact assembled_renumbered numbers schema other renumbers type held _ _
      (fun combinator => combined_renumbered numbers schema other renumbers type combinator held)
  · rfl

end Filter

end DocGraph
