import DocGraph.Schema.Basic

set_option autoImplicit false

namespace DocGraph

theorem Schema.composite_ok (schema : Schema) (id : CompositeIndex) (composite : Composite) :
    schema.composite id = .ok composite ↔ schema.composites[id.index]? = some composite := by
  unfold Schema.composite
  cases schema.composites[id.index]? <;> simp

theorem Schema.enumeration_ok (schema : Schema) (id : EnumIndex) (definition : Enumeration) :
    schema.enumeration id = .ok definition ↔ schema.enums[id.index]? = some definition := by
  unfold Schema.enumeration
  cases schema.enums[id.index]? <;> simp

theorem Schema.composite_mem (schema : Schema) (id : CompositeIndex) (composite : Composite)
    (found : schema.composite id = .ok composite) : composite ∈ schema.composites :=
  List.mem_of_getElem? ((Schema.composite_ok schema id composite).mp found)

theorem Schema.enumeration_mem (schema : Schema) (id : EnumIndex) (definition : Enumeration)
    (found : schema.enumeration id = .ok definition) : definition ∈ schema.enums :=
  List.mem_of_getElem? ((Schema.enumeration_ok schema id definition).mp found)

theorem Composite.field_ok (composite : Composite) (name : String) (field : Field) :
    composite.field name = .ok field ↔ composite.field? name = some field := by
  unfold Composite.field
  cases composite.field? name <;> simp

theorem Composite.field_of_mem (composite : Composite) (field : Field)
    (distinct : (composite.fields.map Field.name).Nodup) (member : field ∈ composite.fields) :
    composite.field? field.name = some field := by
  unfold Composite.field?
  generalize composite.fields = fields at distinct member
  induction fields with
  | nil => cases member
  | cons head rest ih =>
      have parts := List.nodup_cons.mp distinct
      rcases List.mem_cons.mp member with rfl | later
      · simp
      · have other : head.name ≠ field.name := fun same => parts.1 (same ▸ List.mem_map_of_mem later)
        rw [List.find?_cons_of_neg (by simpa using other)]
        exact ih parts.2 later

end DocGraph
