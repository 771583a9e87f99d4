import DocGraph.Proofs.DotPath
import DocGraph.Proofs.Schema.Lookup
import DocGraph.Proofs.Schema.Sound

set_option autoImplicit false

namespace DocGraph

-- A name that no path and no native operator can be taken for.
def IsPlainName (name : String) : Prop := DotPath.IsSegment name ∧ name.toList.head? ≠ some '$'

instance (name : String) : Decidable (IsPlainName name) := inferInstanceAs (Decidable (_ ∧ _))

def Schema.HasPlainNames (schema : Schema) : Prop :=
  ∀ composite ∈ schema.composites, ∀ field ∈ composite.fields, IsPlainName field.name

instance (schema : Schema) : Decidable schema.HasPlainNames :=
  inferInstanceAs (Decidable (∀ composite ∈ schema.composites, ∀ field ∈ composite.fields, IsPlainName field.name))

theorem Schema.plain_field_name (schema : Schema) (plain : schema.HasPlainNames) (composite : Composite)
    (declared : composite ∈ schema.composites) (key : String) (field : Field)
    (found : composite.field? key = some field) : IsPlainName key := by
  obtain ⟨named, member⟩ := Composite.name_of_field?_eq_some found
  rw [← named]
  exact plain composite declared field member

theorem plain_of_name (name : String) (named : GraphQL.IsName name) : IsPlainName name := by
  obtain ⟨first, rest, text, starts, parts⟩ := named
  have other (c : Char) (outside : GraphQL.isNameStart c = false) : first ≠ c := by
    intro same
    rw [same, outside] at starts
    cases starts
  refine ⟨⟨?_, ?_⟩, ?_⟩
  · rintro rfl
    cases text
  · rw [text, List.mem_cons]
    rintro (dot | dot)
    · exact other '.' (by decide) dot.symm
    · exact absurd (parts '.' dot) (by decide)
  · rw [text, List.head?_cons, Ne, Option.some.injEq]
    exact other '$' (by decide)

theorem Schema.plain_of_text (text : String) (schema : Schema) (read : ofText text = .ok schema) :
    schema.HasPlainNames :=
  fields_of_text (fun field => IsPlainName field.name) text schema read (fun held owner definition field _ proper made =>
    field_of_name held owner definition field made ▸ plain_of_name definition.name proper.named)

end DocGraph
