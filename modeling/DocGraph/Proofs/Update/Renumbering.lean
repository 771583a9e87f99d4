import DocGraph.Proofs.Outcome
import DocGraph.Proofs.Schema.Renumbering
import DocGraph.Update.Completeness

set_option autoImplicit false

namespace DocGraph.Update

variable (numbers : Renumbering)

theorem respects_renumbered (type : FieldType) (values : List Json) :
    respectsElements (type.renumber numbers) values = respectsElements type values := by
  induction type generalizing values with
  | named type => rfl
  | nonNull of ih => exact congrArg (fun inner => !values.any Json.isNull && inner) (ih values)
  | list of ih => exact ih (openArrays values)

theorem innermost_renumbered (type : FieldType) (values : List Json) :
    innermostElements (type.renumber numbers) values = innermostElements type values := by
  induction type generalizing values with
  | named type => rfl
  | nonNull of ih => exact ih values
  | list of ih => exact ih ((openArrays values).filter (fun value => !value.isNull))

theorem outermost_renumbered (type : FieldType) :
    isOutermostNonNull (type.renumber numbers) = isOutermostNonNull type := by
  cases type <;> rfl

theorem field_violations_renumbered (objects : List Members) (path : String) (required : Bool) (field : Field) :
    fieldViolations objects path required (field.renumber numbers) = fieldViolations objects path required field := by
  unfold fieldViolations
  simp only [Field.name_renumber, Field.type_renumber, FieldType.is_non_null_renumber, FieldType.is_list_renumber,
    outermost_renumbered, respects_renumbered]

theorem below_renumbered
    (before after : List Members → CompositeIndex → String → WriteMode → Except Error (List Violation))
    (same : ∀ objects type path mode, after objects (numbers.composite type) path mode = before objects type path mode)
    (computed : FieldTest) (composite : Composite) (objects : List Members) (path : String) (mode : WriteMode)
    (key : String) :
    violationsBelow after computed (composite.renumber numbers) objects path mode key =
      violationsBelow before (fun field => computed (field.renumber numbers)) composite objects path mode key := by
  unfold violationsBelow
  rw [Composite.field_renumber, except_map_bind]
  apply bind_congr
  intro field
  rw [Field.type_renumber, FieldType.composite_renumber]
  cases field.type.composite? with
  | none => rfl
  | some nested =>
      simp only [Option.map_some, FieldType.is_list_renumber, innermost_renumbered, same]

variable (schema other : Schema) (renumbers : Schema.Renumbers numbers schema other) (computed : FieldTest)

include renumbers

theorem violations_at_renumbered (depth : Nat) (objects : List Members) (type : CompositeIndex) (path : String)
    (mode : WriteMode) :
    violationsAt other computed depth objects (numbers.composite type) path mode =
      violationsAt schema (fun field => computed (field.renumber numbers)) depth objects type path mode := by
  induction depth generalizing objects type path mode with
  | zero => rfl
  | succ depth ih =>
      have below := below_renumbered numbers _ _ ih computed
      unfold violationsAt
      apply bind_congr
      intro flag
      rw [Schema.renumbered_composite numbers schema other renumbers type, except_map_bind]
      apply bind_congr
      intro composite
      have own : (composite.renumber numbers).fields.flatMap (fieldViolations objects path (mode.replaces flag)) =
          composite.fields.flatMap (fieldViolations objects path (mode.replaces flag)) := by
        rw [Composite.fields_renumber, List.flatMap_map]
        simp only [field_violations_renumbered]
      rw [own]
      simp only [funext (below composite objects path (WriteMode.passedOn (mode.replaces flag)))]

theorem check_renumbered (type : CompositeIndex) (update : Members) (overwrite : Bool) :
    check other (numbers.composite type) update overwrite computed =
      check schema type update overwrite (fun field => computed (field.renumber numbers)) := by
  unfold check violations
  rw [violations_at_renumbered numbers schema other renumbers computed]

end DocGraph.Update
