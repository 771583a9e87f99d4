import DocGraph.Proofs.Outcome
import DocGraph.Proofs.Schema.Names
import DocGraph.Proofs.Update.Positions

set_option autoImplicit false

namespace DocGraph

namespace Update

theorem open_arrays_element (elements values : List Json) (element : Json) (member : .arr elements ∈ values)
    (inside : element ∈ elements) : element ∈ openArrays values :=
  List.mem_flatMap.mpr ⟨.arr elements, member, inside⟩

theorem innermost_mono (type : FieldType) (fewer more : List Json) (subset : ∀ value ∈ fewer, value ∈ more) :
    ∀ element ∈ innermostElements type fewer, element ∈ innermostElements type more := by
  induction type generalizing fewer more with
  | named type => exact subset
  | nonNull of ih => exact ih fewer more subset
  | list of ih =>
      refine ih _ _ ?_
      intro value member
      obtain ⟨opened, given⟩ := List.mem_filter.mp member
      obtain ⟨holder, listed, inside⟩ := List.mem_flatMap.mp opened
      exact List.mem_filter.mpr ⟨List.mem_flatMap.mpr ⟨holder, subset holder listed, inside⟩, given⟩

theorem respected_of_values (type : FieldType) (values : List Json) (respects : respectsElements type values = true) :
    ∀ value ∈ values, type.Respected value := by
  induction type generalizing values with
  | named type => exact fun _ _ => trivial
  | nonNull of ih =>
      simp only [respectsElements, Bool.and_eq_true, Bool.not_eq_true'] at respects
      intro value member
      exact ⟨by simpa using List.any_eq_false.mp respects.1 value member, ih values respects.2 value member⟩
  | list of ih =>
      rintro _ member elements rfl element inside
      exact ih (openArrays values) respects element (open_arrays_element elements values element member inside)

theorem respected_object (type : FieldType) (object : Members) : type.Respected (.obj object) := by
  induction type with
  | named type => trivial
  | nonNull of ih => exact ⟨rfl, ih⟩
  | list of ih => exact fun _ same => nomatch same

theorem respected_of_nullable (type : FieldType) (value : Json) (nullable : type.isNonNull = false) :
    type.Respected value := by
  induction type generalizing value with
  | named type => trivial
  | nonNull of ih => cases nullable
  | list of ih => exact fun elements _ element _ => ih element nullable

theorem respected_of_plain (type : FieldType) (value : Json) (plain : type.isList = false)
    (given : value.isNull = false) : type.Respected value := by
  induction type with
  | named type => trivial
  | nonNull of ih => exact ⟨given, ih plain⟩
  | list of ih => cases plain

theorem nullable_of_outermost (type : FieldType) (outermost : isOutermostNonNull type = true) : type.isNonNull = true := by
  cases type with
  | nonNull of => rfl
  | _ => cases outermost

section

variable (objects : List Members) (path : String) (required : Bool) (field : Field)
  (none : fieldViolations objects path required field = []) (checked : ¬ (path = "" ∧ field.name = "_id"))

include none checked

theorem values_given (requires : required = true) (outermost : isOutermostNonNull field.type = true) :
    valuesOf objects field.name ≠ [] ∧ ∀ value ∈ valuesOf objects field.name, value.isNull = false := by
  have other : (path == "" && field.name == "_id") = false := by simpa using checked
  subst requires
  simp only [fieldViolations, nullable_of_outermost field.type outermost, other, outermost, Bool.not_true, Bool.or_self,
    Bool.false_eq_true, if_false, Bool.true_and, Bool.and_true] at none
  cases null : (valuesOf objects field.name).any Json.isNull with
  | true => simp [null] at none
  | false =>
      constructor
      · intro empty
        simp [empty] at none
      · intro value member
        simpa using List.any_eq_false.mp null value member

theorem values_respected : ∀ value ∈ valuesOf objects field.name, field.type.Respected value := by
  intro value member
  cases nullable : field.type.isNonNull with
  | false => exact respected_of_nullable field.type value nullable
  | true =>
      have other : (path == "" && field.name == "_id") = false := by simpa using checked
      simp only [fieldViolations, nullable, other, Bool.not_true, Bool.or_self, Bool.false_eq_true, if_false] at none
      cases lists : field.type.isList with
      | true =>
          refine respected_of_values field.type _ ?_ value member
          cases respects : respectsElements field.type (valuesOf objects field.name) with
          | true => rfl
          | false =>
              simp only [lists, respects, Bool.not_false, Bool.and_self, if_true] at none
              split at none
              · cases none
              · split at none <;> cases none
      | false =>
          refine respected_of_plain field.type value lists ?_
          have outermost : isOutermostNonNull field.type = true := by
            cases type : field.type with
            | nonNull of => rfl
            | named of => rw [type] at nullable; cases nullable
            | list of => rw [type] at lists; cases lists
          cases null : (valuesOf objects field.name).any Json.isNull with
          | true => simp [outermost, null] at none
          | false => simpa using List.any_eq_false.mp null value member

end

theorem values_of_one (object : Members) (key : String) (value : Json) (given : Members.get? key object = some value) :
    valuesOf [object] key = [value] := by simp [valuesOf, given]

theorem field_given (object : Members) (path : String) (field : Field)
    (none : fieldViolations [object] path true field = []) (below : path ≠ "")
    (outermost : isOutermostNonNull field.type = true) :
    ∃ value, Members.get? field.name object = some value ∧ value.isNull = false := by
  obtain ⟨given, present⟩ := values_given [object] path true field none (fun root => below root.1) rfl outermost
  obtain ⟨value, member⟩ := List.exists_mem_of_ne_nil _ given
  obtain ⟨holder, single, found⟩ := List.mem_filterMap.mp member
  exact ⟨value, List.mem_singleton.mp single ▸ found, present value member⟩

theorem field_respected (object : Members) (path : String) (required : Bool) (field : Field)
    (none : fieldViolations [object] path required field = []) (value : Json)
    (given : Members.get? field.name object = some value) (checked : ¬ (path = "" ∧ field.name = "_id")) :
    field.type.Respected value := by
  refine values_respected [object] path required field none checked value ?_
  rw [values_of_one object field.name value given]
  exact List.mem_singleton.mpr rfl

theorem written_key (objects : List Members) (object : Members) (key : String) (value : Json) (member : object ∈ objects)
    (given : Members.get? key object = some value) (plain : key ≠ Overwrite.marker) : key ∈ writtenKeys objects := by
  have listed := Members.mem_keys_of_mem key value object (Members.mem_of_get? key value object given)
  refine (mem_firsts key _).mpr (List.mem_filter.mpr ⟨?_, by simpa using plain⟩)
  exact List.mem_flatMap.mpr ⟨object, member, listed⟩

variable (schema : Schema)

theorem parts_of_valid (depth : Nat) (objects : List Members) (type : CompositeIndex) (path : String) (mode : WriteMode)
    (valid : violationsAt schema Field.isComputed (depth + 1) objects type path mode = .ok []) :
    ∃ flag composite, Overwrite.firstExplicit path objects = .ok flag ∧ schema.composite type = .ok composite ∧
      (∀ field ∈ composite.fields, fieldViolations objects path (mode.replaces flag) field = []) ∧
      ∀ key ∈ writtenKeys objects, violationsBelow (violationsAt schema Field.isComputed depth) Field.isComputed composite
        objects path (WriteMode.passedOn (mode.replaces flag)) key = .ok [] := by
  obtain ⟨flag, first, later⟩ := (except_bind_ok _ _ _).mp valid
  obtain ⟨composite, found, later⟩ := (except_bind_ok _ _ _).mp later
  obtain ⟨below, checked, whole⟩ := (except_bind_ok _ _ _).mp later
  obtain ⟨own, deeper⟩ := List.append_eq_nil_iff.mp (Except.ok.inj whole)
  refine ⟨flag, composite, first, found, List.flatMap_eq_nil_iff.mp own, ?_⟩
  intro key written
  obtain ⟨found, listed, act⟩ := (except_map_list_ok _ _ _ checked).1 key written
  rw [List.flatten_eq_nil_iff.mp deeper found listed] at act
  exact act

def presentOf (objects : List Members) (key : String) : List Json :=
  (valuesOf objects key).filter (fun value => !value.isNull)

section

variable (depth : Nat) (objects : List Members) (path : String) (mode : WriteMode) (composite : Composite) (key : String)
  (field : Field) (nested : CompositeIndex)
  (passed : violationsBelow (violationsAt schema Field.isComputed depth) Field.isComputed composite objects path mode key =
    .ok [])
  (declared : composite.field? key = some field) (stored : field.isStored = true)
  (leads : field.type.composite? = some nested)

include passed declared stored leads

theorem elements_valid (lists : field.type.isList = true) (child : Members)
    (inside : .obj child ∈ innermostElements field.type (presentOf objects key)) :
    violationsAt schema Field.isComputed depth [child] nested (DotPath.under path key) .replace = .ok [] := by
  obtain ⟨other, again, act⟩ := (except_bind_ok _ _ _).mp passed
  cases declared.symm.trans ((Composite.field_ok composite key other).mp again)
  have computed : field.isComputed = false := by simpa [Field.isStored] using stored
  simp only [leads, computed, lists, Bool.false_eq_true, if_false, if_true] at act
  obtain ⟨found, mapped, joined⟩ := (except_bind_ok _ _ _).mp act
  obtain ⟨result, listed, valid⟩ := (except_map_list_ok _ _ _ mapped).1 child
    (List.mem_filterMap.mpr ⟨.obj child, inside, rfl⟩)
  rw [List.flatten_eq_nil_iff.mp (Except.ok.inj joined) result listed] at valid
  exact valid

theorem objects_valid (lists : field.type.isList = false) :
    violationsAt schema Field.isComputed depth (objects.filterMap (fun object => (Members.get? key object).bind Json.members?))
      nested (DotPath.under path key) mode = .ok [] := by
  have objects_at : (presentOf objects key).filterMap Json.members? =
      objects.filterMap (fun object => (Members.get? key object).bind Json.members?) := by
    rw [presentOf, List.filterMap_filter, valuesOf, List.filterMap_filterMap]
    refine congrArg (fun f => objects.filterMap f) (funext (fun object => ?_))
    cases Members.get? key object with
    | none => rfl
    | some value => cases value <;> rfl
  rw [← objects_at]
  obtain ⟨other, again, act⟩ := (except_bind_ok _ _ _).mp passed
  cases declared.symm.trans ((Composite.field_ok composite key other).mp again)
  have computed : field.isComputed = false := by simpa [Field.isStored] using stored
  simp only [leads, computed, lists, Bool.false_eq_true, if_false] at act
  exact act

end

structure Passes (depth : Nat) (object : Members) (path : String) (mode : WriteMode) (composite : Composite) :
    Prop where
  readable : Overwrite.explicit object path = .ok (Overwrite.flag? object)
  own : ∀ field ∈ composite.fields,
    fieldViolations [object] path (mode.replaces (Overwrite.flag? object)) field = []
  declared : ∀ key value, Members.get? key object = some value → key ≠ Overwrite.marker →
    ∃ field, composite.field? key = some field
  elements : ∀ key value field nested child, Members.get? key object = some value → key ≠ Overwrite.marker →
    composite.field? key = some field → field.isStored = true → field.type.composite? = some nested →
    field.type.isList = true → value.isNull = false → .obj child ∈ innermostElements field.type [value] →
    violationsAt schema Field.isComputed depth [child] nested (DotPath.under path key) .replace = .ok []
  objects : ∀ key field nested child, Members.get? key object = some (.obj child) → key ≠ Overwrite.marker →
    composite.field? key = some field → field.isStored = true → field.type.composite? = some nested →
    field.type.isList = false →
    violationsAt schema Field.isComputed depth [child] nested (DotPath.under path key)
      (WriteMode.passedOn (mode.replaces (Overwrite.flag? object))) = .ok []

theorem passes_of_valid (depth : Nat) (object : Members) (type : CompositeIndex) (path : String) (mode : WriteMode)
    (valid : violationsAt schema Field.isComputed (depth + 1) [object] type path mode = .ok []) :
    ∃ composite, schema.composite type = .ok composite ∧ Passes schema depth object path mode composite := by
  obtain ⟨flag, composite, first, found, own, below⟩ := parts_of_valid schema depth [object] type path mode valid
  have explicitly : Overwrite.explicit object path = .ok flag := by
    obtain ⟨held, here, rest⟩ := (except_bind_ok _ _ _).mp first
    cases held <;> exact Except.ok.inj rest ▸ here
  cases Overwrite.explicit_ok object path flag explicitly
  have each (key : String) (value : Json) (given : Members.get? key object = some value)
      (plain : key ≠ Overwrite.marker) :=
    below key (written_key [object] object key value (List.mem_singleton.mpr rfl) given plain)
  have single (key : String) (value : Json) (given : Members.get? key object = some value) (present : value.isNull = false) :
      presentOf [object] key = [value] := by
    rw [presentOf, values_of_one object key value given]
    simp [present]
  refine ⟨composite, found, explicitly, own, ?_, ?_, ?_⟩
  · intro key value given plain
    obtain ⟨field, declared, _⟩ := (except_bind_ok _ _ _).mp (each key value given plain)
    exact ⟨field, (Composite.field_ok composite key field).mp declared⟩
  · intro key value field nested child given plain declared stored leads lists present inside
    exact elements_valid schema depth [object] path _ composite key field nested (each key value given plain) declared stored
      leads lists child (single key value given present ▸ inside)
  · intro key field nested child given plain declared stored leads lists
    have valid := objects_valid schema depth [object] path _ composite key field nested (each key _ given plain) declared
      stored leads lists
    simpa [given, Json.members?] using valid

theorem valid_of_replacing (depth : Nat) (object : Members) (type : CompositeIndex) (path : String) (mode : WriteMode)
    (replaces : mode.replaces (Overwrite.flag? object) = true)
    (valid : violationsAt schema Field.isComputed depth [object] type path mode = .ok []) :
    violationsAt schema Field.isComputed depth [object] type path .replace = .ok [] := by
  cases depth with
  | zero => rfl
  | succ depth =>
      obtain ⟨composite, _, passes⟩ := passes_of_valid schema depth object type path mode valid
      have first : Overwrite.firstExplicit path [object] = .ok (Overwrite.flag? object) := by
        rw [Overwrite.firstExplicit, passes.readable]
        cases Overwrite.flag? object <;> rfl
      rw [violationsAt, first] at valid ⊢
      simp only [bind, Except.bind, replaces] at valid
      exact valid

structure StoredOnly (fits : FieldType → Json → Prop) : Prop where
  nonNull : ∀ of value, fits (.nonNull of) value → fits of value
  list : ∀ of object nested, of.composite? = some nested → ¬ fits (.list of) (.obj object)
  element : ∀ of elements element, fits (.list of) (.arr elements) → element ∈ elements → fits of element
  member : ∀ kind id object composite key field value, fits (.named (.composite kind id)) (.obj object) →
    schema.composite id = .ok composite → composite.field? key = some field →
    Members.get? key object = some value → key ≠ Overwrite.marker → field.isStored = true ∧ fits field.type value

def Checked (depth : Nat) (path : String) (type : FieldType) (value : Json) : Prop :=
  ∀ nested child, type.composite? = some nested → .obj child ∈ innermostElements type [value] →
    violationsAt schema Field.isComputed depth [child] nested path .replace = .ok []

theorem checked_element (depth : Nat) (path : String) (of : FieldType) (elements : List Json) (element : Json)
    (member : element ∈ elements) (given : element.isNull = false)
    (checked : Checked schema depth path (.list of) (.arr elements)) : Checked schema depth path of element := by
  intro nested child leads inside
  refine checked nested child leads (innermost_mono of [element] _ ?_ (.obj child) inside)
  intro value single
  cases List.mem_singleton.mp single
  refine List.mem_filter.mpr ⟨open_arrays_element elements [.arr elements] element (List.mem_singleton.mpr rfl) member, ?_⟩
  simpa using given

theorem object_at_given (type : FieldType) (value : Json) (listed : Bool) (id : CompositeIndex) (inner : Members)
    (position : ObjectAt schema type value listed id inner) : value.isNull = false := by
  rcases object_at_holder schema type value listed id inner position with ⟨object, rfl⟩ | ⟨_, elements, rfl⟩
  · rfl
  · rfl

theorem innermost_plain (type : FieldType) (values : List Json) (plain : type.isList = false) :
    innermostElements type values = values := by
  induction type with
  | named type => rfl
  | nonNull of ih => exact ih plain
  | list of ih => cases plain

theorem value_checked (depth : Nat) (objects : List Members) (path : String) (composite : Composite) (key : String)
    (field : Field) (value : Json)
    (passed : violationsBelow (violationsAt schema Field.isComputed depth) Field.isComputed composite objects path .replace
      key = .ok [])
    (declared : composite.field? key = some field) (stored : field.isStored = true) (among : value ∈ presentOf objects key)
    (only : ∀ child, value = .obj child →
      objects.filterMap (fun object => (Members.get? key object).bind Json.members?) = [child]) :
    Checked schema depth (DotPath.under path key) field.type value := by
  intro nested child leads inside
  by_cases lists : field.type.isList = true
  · refine elements_valid schema depth objects path _ composite key field nested passed declared stored leads lists child
      (innermost_mono field.type [value] _ ?_ _ inside)
    exact fun other single => List.mem_singleton.mp single ▸ among
  · have single : field.type.isList = false := Bool.eq_false_iff.mpr lists
    rw [innermost_plain field.type [value] single, List.mem_singleton] at inside
    have valid := objects_valid schema depth objects path _ composite key field nested passed declared stored leads single
    rw [only child inside.symm] at valid
    exact valid

theorem checked_member (depth : Nat) (object : Members) (path : String) (composite : Composite) (key : String)
    (field : Field) (value : Json) (passes : Passes schema depth object path .replace composite)
    (given : Members.get? key object = some value) (plain : key ≠ Overwrite.marker)
    (declared : composite.field? key = some field) (stored : field.isStored = true) (present : value.isNull = false) :
    Checked schema depth (DotPath.under path key) field.type value := by
  intro nested child leads inside
  by_cases lists : field.type.isList = true
  · exact passes.elements key value field nested child given plain declared stored leads lists present inside
  · have single : field.type.isList = false := Bool.eq_false_iff.mpr lists
    rw [innermost_plain field.type [value] single, List.mem_singleton] at inside
    exact passes.objects key field nested child (inside ▸ given) plain declared stored leads single

structure Whole (id : CompositeIndex) (object : Members) : Prop where
  complete : Complete schema true id object
  respected : ∀ composite key field value, schema.composite id = .ok composite → composite.field? key = some field →
    Members.get? key object = some value → field.type.Respected value

theorem checked_whole (names : schema.HasPlainNames) (fits : FieldType → Json → Prop)
    (closed : StoredOnly schema fits) (type : FieldType) (value : Json) (listed : Bool) (id : CompositeIndex)
    (inner : Members) (position : ObjectAt schema type value listed id inner) :
    ∀ depth path, path ≠ "" → value.depth ≤ depth → fits type value → Checked schema depth path type value →
      Whole schema id inner := by
  induction position with
  | self kind id object =>
      intro depth path nonempty deep fit checked
      cases depth with
      | zero => exact absurd deep (Nat.not_succ_le_zero _)
      | succ depth =>
          have valid := checked id object rfl (List.mem_singleton.mpr rfl)
          obtain ⟨composite, found, passes⟩ := passes_of_valid schema depth object id path .replace valid
          constructor
          · intro other field again member stored outermost _
            cases again.symm.trans found
            exact field_given object path field (passes.own field member) nonempty outermost
          · intro other key field value again declared given
            cases again.symm.trans found
            obtain ⟨rfl, member⟩ := Composite.name_of_field?_eq_some declared
            exact field_respected object path true field (passes.own field member) value given (fun root => nonempty root.1)
  | member kind id type object inner composite key field value listed found declared given below ih =>
      intro depth path nonempty deep fit checked
      cases depth with
      | zero => exact absurd deep (Nat.not_succ_le_zero _)
      | succ depth =>
          have valid := checked id object rfl (List.mem_singleton.mpr rfl)
          obtain ⟨other, again, passes⟩ := passes_of_valid schema depth object id path .replace valid
          cases again.symm.trans found
          by_cases marks : key = Overwrite.marker
          · have flag := Overwrite.explicit_flag object path _ value passes.readable (marks ▸ given)
            rcases object_at_holder schema field.type value listed type inner below with ⟨_, rfl⟩ | ⟨_, _, rfl⟩
            · cases flag
            · cases flag
          · obtain ⟨stored, fit⟩ := closed.member kind id object composite key field value fit found declared given marks
            have segment := (Schema.plain_field_name schema names composite (Schema.composite_mem schema id composite found)
              key field declared).1
            have present := object_at_given schema field.type value listed type inner below
            refine ih depth (DotPath.under path key) (DotPath.under_ne_empty path key segment.1) ?_ fit
              (checked_member schema depth object path composite key field value passes given marks declared stored present)
            exact Nat.le_trans (Json.member_depth key value object (Members.mem_of_get? key value object given))
              (Nat.le_of_succ_le_succ deep)
  | nonNull of value listed type inner below ih =>
      intro depth path nonempty deep fit checked
      exact ih depth path nonempty deep (closed.nonNull of value fit) checked
  | element of elements element listed type inner member below ih =>
      intro depth path nonempty deep fit checked
      have present := object_at_given schema of element listed type inner below
      refine ih depth path nonempty ?_ (closed.element of elements element fit member)
        (checked_element schema depth path of elements element member present checked)
      exact Nat.le_trans (Nat.le_trans (Json.element_depth element elements member) (Nat.le_succ _)) deep

end Update

end DocGraph
