import DocGraph.Proofs.Derivation.Closed
import DocGraph.Proofs.Derivation.Names
import DocGraph.Proofs.InputType.Export
import DocGraph.Proofs.Schema.Spelling

set_option autoImplicit false

namespace DocGraph

open GraphQL

theorem GraphQL.IsName.append (name ending : String) (named : IsName name) (parts : ending.toList.all isNamePart = true) :
    IsName (name ++ ending) := by
  obtain ⟨first, rest, text, starts, others⟩ := named
  refine ⟨first, rest ++ ending.toList, by rw [String.toList_append, text, List.cons_append], starts, fun c member => ?_⟩
  exact (List.mem_append.mp member).elim (others c) (List.all_eq_true.mp parts c)

theorem TypeRef.name_spelled (name : String) (named : GraphQL.IsName name) : TypeRef.Spelled ⟨name⟩ := ⟨.named name, named, rfl⟩

theorem TypeRef.list_spelled (type : TypeRef) (spelled : type.Spelled) : type.list.Spelled := by
  obtain ⟨node, proper, text⟩ := spelled
  exact ⟨.list node, proper, by rw [TypeNode.text, text, TypeRef.list]⟩

def FieldType.node (keepNonNull : Bool) (name : String) : FieldType → TypeNode
  | .named _ => .named name
  | .list of => .list (node keepNonNull name of)
  | .nonNull of => if keepNonNull then .nonNull (node keepNonNull name of) else node keepNonNull name of

theorem FieldType.node_text (keepNonNull : Bool) (name : String) (type : FieldType) :
    (type.node keepNonNull name).text = (type.wrap keepNonNull ⟨name⟩).text := by
  induction type with
  | named _ => rfl
  | list of ih => rw [node, wrap, TypeNode.text, ih, TypeRef.list]
  | nonNull of ih =>
      cases keepNonNull with
      | true => rw [node, wrap, if_pos rfl, if_pos rfl, TypeNode.text, ih, TypeRef.nonNull]
      | false => exact ih

theorem FieldType.node_proper (name : String) (named : IsName name) (type : FieldType) :
    (type.node false name).Proper ∧ (type.MarkedOnce → (type.node true name).Proper ∧
      ∀ inner, type.node true name = .nonNull inner → ∃ of, type = .nonNull of) := by
  induction type with
  | named _ => exact ⟨named, fun _ => ⟨named, nofun⟩⟩
  | list of ih => exact ⟨ih.1, fun once => ⟨(ih.2 once).1, nofun⟩⟩
  | nonNull of ih =>
      refine ⟨ih.1, fun once => ⟨⟨(ih.2 once.1).1, fun inner same => ?_⟩, fun _ _ => ⟨of, rfl⟩⟩⟩
      obtain ⟨again, twice⟩ := (ih.2 once.1).2 inner same
      exact once.2 again twice

theorem FieldType.wrap_spelled (keepNonNull : Bool) (name : String) (named : IsName name) (type : FieldType)
    (once : type.MarkedOnce) : (type.wrap keepNonNull ⟨name⟩).Spelled := by
  refine ⟨type.node keepNonNull name, ?_, type.node_text keepNonNull name⟩
  cases keepNonNull with
  | true => exact ((type.node_proper name named).2 once).1
  | false => exact (type.node_proper name named).1

theorem FieldType.nullable_marked (type : FieldType) (once : type.MarkedOnce) : type.nullable.MarkedOnce := by
  cases type with
  | nonNull of => exact once.1
  | _ => exact once

theorem InputValue.spelled_active (value : InputValue) (named : IsName value.name) (typed : value.type.Spelled)
    (active : value.deprecation = .active) : value.Spelled :=
  ⟨named, typed, fun _ other => nomatch active.symm.trans other⟩

theorem InputType.object_spelled (name : String) (description : Option String) (fields : List InputValue) (named : IsName name)
    (each : ∀ field ∈ fields, field.Spelled) : (InputType.object (.make name description fields)).Spelled := by
  refine ⟨named, ?_, nofun⟩
  intro object same field member
  cases same
  exact each field (Keyed.mem_of_mem_collect _ field fields member)

theorem InputType.enum_spelled (name : String) (description : Option String) (values : List EnumValue) (named : IsName name)
    (each : ∀ value ∈ values, IsEnumName value.name ∧ value.deprecation = .active) :
    (InputType.enum (.make name description values)).Spelled := by
  refine ⟨named, nofun, ?_⟩
  intro enum same value member
  cases same
  obtain ⟨free, active⟩ := each value (Keyed.mem_of_mem_collect _ value values member)
  exact ⟨free, fun _ other => nomatch active.symm.trans other⟩

namespace Derivation

theorem suffixed_named (name : String) (named : IsName name) (family : Family) : IsName (suffixed name family.suffix) := by
  have suffix : IsName family.suffix ∧ family.suffix.toList.all isNamePart = true := by cases family <;> decide
  rw [suffixed_eq, stem]
  split
  · rename_i base found
    have split := (Text.before?_eq_some_iff _ _ _).mp found
    cases base with
    | nil => simpa using suffix.1
    | cons first rest =>
        obtain ⟨held, parts, text, starts, others⟩ := named
        rw [split, List.cons_append, List.cons.injEq] at text
        obtain ⟨rfl, rfl⟩ := text
        refine GraphQL.IsName.append _ _ ⟨first, rest, String.toList_ofList, starts, fun c member => ?_⟩ suffix.2
        exact others c (List.mem_append_left _ member)
  · exact GraphQL.IsName.append name _ named suffix.2

theorem filter_names (leaf : String) (named : IsName leaf) :
    IsName (leafFilterName leaf) ∧ IsName (negatedLeafFilterName leaf) :=
  ⟨GraphQL.IsName.append leaf "Filter" named (by decide), GraphQL.IsName.append leaf "NotFilter" named (by decide)⟩

section

variable (schema : Schema) (spelled : schema.Spelled)

include spelled

theorem composite_named_properly (family : Family) (id : CompositeIndex) (name : String)
    (named : compositeName schema family id = .ok name) : IsName name := by
  obtain ⟨composite, found, rfl⟩ := (composite_name_ok schema family id name).mp named
  exact suffixed_named composite.name (spelled.composites composite (Schema.composite_mem schema id composite found)) family

theorem target_leaf_named (target : Target) (of : target.Of schema) (leaf : String) (given : target.leaf? = some leaf) :
    IsName leaf := by
  have same : target.bare.leaf? = some leaf := by rw [← given]; cases target <;> rfl
  rcases target_cases schema _ of with ⟨_, _, shape, _⟩ | ⟨type, used, inside⟩ | shared
  · rw [shape] at same
    cases same
  · obtain ⟨plain, held, named, shape | shape | ⟨_, _, shape⟩⟩ := leaf_target_shape schema type _ inside
    all_goals
      rw [shape] at same
      cases same
    · exact leaf_named_properly schema spelled.leaves type leaf used plain named
    · exact leaf_named_properly schema spelled.leaves type leaf used plain named
  · simp only [sharedTargets, List.mem_cons, List.not_mem_nil, or_false] at shared
    rcases shared with shape | shape | shape | shape
    all_goals
      rw [shape] at same
      cases same

theorem reference_named (family : Family) (type : FieldType) (used : type ∈ schema.fieldTypes) (reference : TypeRef)
    (referred : fieldReference schema family type = .ok reference) : ∃ name, IsName name ∧ reference = ⟨name⟩ := by
  obtain ⟨name, found, rfl⟩ := (except_map_ok _ _ _).mp referred
  refine ⟨name, ?_, rfl⟩
  cases composite : type.composite? with
  | some id =>
      rw [composite] at found
      exact composite_named_properly schema spelled (family.nested type) id name found
  | none =>
      rw [composite] at found
      have leaf (leaf : String) (named : leafName schema type = .ok leaf) : IsName leaf :=
        leaf_named_properly schema spelled.leaves type leaf used composite named
      have filter (called : leafFilterName <$> leafName schema type = .ok name) : IsName name := by
        obtain ⟨held, named, rfl⟩ := (except_map_ok _ _ _).mp called
        exact (filter_names held (leaf held named)).1
      cases family with
      | filter | objectFilter => exact filter found
      | sort =>
          cases Except.ok.inj found
          decide
      | _ => exact leaf name found

theorem input_field_spelled (family : Family) (scope : Scope) (composite : Composite) (listed : composite ∈ schema.composites)
    (field : Field) (member : field ∈ composite.fields) (input : InputValue)
    (derived : inputField schema family scope field = .ok input) : input.Spelled := by
  have once := spelled.types composite listed field member
  have used := mem_field_types schema composite field listed member
  obtain ⟨reference, referred, same⟩ := (except_bind_ok _ _ _).mp derived
  cases Except.ok.inj same
  obtain ⟨name, named, rfl⟩ := reference_named schema spelled family field.type used reference referred
  refine InputValue.spelled_active _ (spelled.fields composite listed field member) ?_ rfl
  change (wrapped family scope field ⟨name⟩).Spelled
  unfold wrapped
  cases family with
  | insert =>
      by_cases root : (scope.isRoot && field.name == "_id") = true
      · simpa [root] using FieldType.wrap_spelled true name named _ (field.type.nullable_marked once)
      · simpa [root] using FieldType.wrap_spelled true name named _ once
  | setOnInsert | set | setObject | setListObject => exact FieldType.wrap_spelled false name named _ once
  | _ => exact TypeRef.name_spelled name named

end

theorem own_field_spelled (family : Family) (name : String) (named : IsName name) (noneTaken : Bool) :
    ∀ own ∈ ownFields family name noneTaken, own.Spelled := by
  have alone (field : InputValue) (spelled : field.Spelled) : ∀ own ∈ [field], own.Spelled := by
    intro own member
    cases List.mem_singleton.mp member
    exact spelled
  cases family with
  | filter =>
      intro own member
      obtain ⟨combinator, _, rfl⟩ := List.mem_map.mp member
      refine InputValue.spelled_active _ ?_ (TypeRef.list_spelled _ (TypeRef.name_spelled name named)) rfl
      change IsName combinator.word
      cases combinator <;> decide
  | objectFilter => exact alone _ (InputValue.spelled_active _ (by decide) (TypeRef.name_spelled _ (by decide)) rfl)
  | sort =>
      cases noneTaken with
      | true => exact alone _ ⟨by decide, TypeRef.name_spelled _ (by decide), nofun⟩
      | false => nofun
  | inc =>
      cases noneTaken with
      | true => exact alone _ (InputValue.spelled_active _ (by decide) (TypeRef.name_spelled _ (by decide)) rfl)
      | false => nofun
  | set | setObject => exact alone _ (InputValue.spelled_active _ (by decide) (TypeRef.name_spelled _ (by decide)) rfl)
  | _ => nofun

section

variable (leaf : String) (named : IsName leaf)

include named

theorem operand_field_spelled (isString : Bool) : ∀ input ∈ operandFields leaf isString, input.Spelled := by
  intro input member
  obtain ⟨operator, _, rfl⟩ := List.mem_map.mp member
  refine InputValue.spelled_active _ ?_ ?_ rfl
  · change IsName operator.word
    cases operator <;> decide
  · have single := TypeRef.name_spelled leaf named
    change (if operator.comparesWithList then TypeRef.list ⟨leaf⟩ else ⟨leaf⟩ : TypeRef).Spelled
    split
    · exact TypeRef.list_spelled _ single
    · exact single

theorem leaf_filter_field_spelled (isString : Bool) : ∀ input ∈ leafFilterFields leaf isString, input.Spelled := by
  have single := TypeRef.name_spelled leaf named
  have reasons (text : String) (plain : ∀ c ∈ text.toList, Printer.Kept c) (reason : String)
      (given : Deprecation.deprecated (some text) = .deprecated (some reason)) : ∀ c ∈ reason.toList, Printer.Kept c := by
    cases given
    exact plain
  have switched := reasons "Switched to the more intuitive operator fields" (by decide)
  intro input member
  rcases List.mem_append.mp member with operand | other
  · exact operand_field_spelled leaf named isString input operand
  · have words : ∀ word ∈ [Operator.not.word, "opr", "value", "values", "NEQ"], IsName word := by decide
    have word := words input.name (List.mem_map_of_mem (f := InputValue.name) other)
    simp only [List.mem_cons, List.not_mem_nil, or_false] at other
    rcases other with rfl | rfl | rfl | rfl | rfl
    · exact InputValue.spelled_active _ word (TypeRef.name_spelled _ (filter_names leaf named).2) rfl
    · exact ⟨word, TypeRef.name_spelled _ (by decide), switched⟩
    · exact ⟨word, single, switched⟩
    · exact ⟨word, TypeRef.list_spelled _ single, switched⟩
    · exact ⟨word, single, reasons "use NE" (by decide)⟩

end

variable (schema : Schema) (spelled : schema.Spelled)

include spelled

theorem definition_spelled (target : Target) (of : target.Of schema) (type : InputType)
    (defined : target.definition schema = .ok type) : type.Spelled := by
  cases target with
  | composite family id scope =>
      by_cases update : family = .update
      · subst update
        obtain ⟨name, named, later⟩ := (except_bind_ok _ _ _).mp defined
        obtain ⟨fields, listed, whole⟩ := (except_bind_ok _ _ _).mp later
        obtain ⟨_, _, parts⟩ := (except_bind_ok _ _ _).mp listed
        cases Except.ok.inj whole
        refine InputType.object_spelled name none fields (composite_named_properly schema spelled .update id name named) ?_
        intro input member
        obtain ⟨part, among, derived⟩ := (except_map_list_ok _ _ _ parts).2 input member
        obtain ⟨held, called, same⟩ := (except_bind_ok _ _ _).mp derived
        cases Except.ok.inj same
        have words : ∀ part ∈ updateParts, IsName part.1 := by decide
        exact InputValue.spelled_active _ (words part among)
          (TypeRef.name_spelled held (composite_named_properly schema spelled part.2 id held called)) rfl
      · obtain ⟨name, named, _⟩ := (except_bind_ok _ _ _).mp defined
        have proper := composite_named_properly schema spelled family id name named
        obtain ⟨composite, located, rfl⟩ := (composite_name_ok schema family id name).mp named
        have listed := Schema.composite_mem schema id composite located
        obtain ⟨fields, mapped, rfl⟩ := composite_definition schema family id scope composite type located update defined
        refine InputType.object_spelled _ none _ proper (fun input member => ?_)
        rcases List.mem_append.mp member with taken | own
        · obtain ⟨field, among, derived⟩ := (except_map_list_ok _ _ _ mapped).2 input taken
          exact input_field_spelled schema spelled family scope composite listed field
            (taken_field composite family scope field among).1 input derived
        · exact own_field_spelled family _ proper _ input own
  | enumCopy id =>
      obtain ⟨held, found, whole⟩ := (except_bind_ok _ _ _).mp defined
      cases Except.ok.inj whole
      have listed := Schema.enumeration_mem schema id held found
      refine InputType.enum_spelled held.name held.description _ (spelled.leaves.named.enums held listed) (fun value member => ?_)
      obtain ⟨name, given, rfl⟩ := List.mem_map.mp member
      exact ⟨spelled.values held listed name given, rfl⟩
  | leafFilter leaf isString =>
      cases Except.ok.inj defined
      have named := target_leaf_named schema spelled _ of leaf rfl
      exact InputType.object_spelled _ _ _ (filter_names leaf named).1 (leaf_filter_field_spelled leaf named isString)
  | negatedLeafFilter leaf isString =>
      cases Except.ok.inj defined
      have named := target_leaf_named schema spelled _ of leaf rfl
      exact InputType.object_spelled _ _ _ (filter_names leaf named).2 (operand_field_spelled leaf named isString)
  | deprecatedOperators =>
      cases Except.ok.inj defined
      have words : ∀ operator ∈ DeprecatedOperator.all, IsEnumName operator.word := by decide
      refine InputType.enum_spelled _ none _ (by decide) (List.forall_mem_map.mpr (fun operator member => ?_))
      exact ⟨words operator member, rfl⟩
  | presenceOperators =>
      cases Except.ok.inj defined
      have words : ∀ operator ∈ PresenceOperator.all, IsEnumName operator.word := by decide
      refine InputType.enum_spelled _ none _ (by decide) (List.forall_mem_map.mpr (fun operator member => ?_))
      exact ⟨words operator member, rfl⟩
  | sortDirections =>
      cases Except.ok.inj defined
      have words : ∀ direction ∈ Direction.all, IsEnumName direction.word := by decide
      refine InputType.enum_spelled _ none _ (by decide) (List.forall_mem_map.mpr (fun direction member => ?_))
      exact ⟨words direction member, rfl⟩
  | page =>
      cases Except.ok.inj defined
      refine InputType.object_spelled _ none _ (by decide) (fun input member => ?_)
      simp only [List.mem_cons, List.not_mem_nil, or_false] at member
      rcases member with rfl | rfl
      · exact InputValue.spelled_active _ (by decide) (TypeRef.name_spelled "Int" (by decide)) rfl
      · exact InputValue.spelled_active _ (by decide) (TypeRef.name_spelled "Int" (by decide)) rfl

end Derivation

end DocGraph
