import DocGraph.Proofs.Derivation.Entries
import DocGraph.Proofs.Schema.Leaves

set_option autoImplicit false

namespace DocGraph

theorem GraphQL.IsName.reference (name : String) (named : GraphQL.IsName name) : TypeRef.IsName ⟨name⟩ := by
  obtain ⟨first, rest, text, starts, parts⟩ := named
  have last : ∃ c, name.toList.getLast? = some c ∧ (c = first ∨ c ∈ rest) := by
    rw [text]
    cases found : (first :: rest).getLast? with
    | none => cases List.getLast?_eq_none_iff.mp found
    | some c => exact ⟨c, rfl, List.mem_cons.mp (List.mem_of_getLast? found)⟩
  obtain ⟨c, ends, member⟩ := last
  have other (stop : Char) (start : isNameStart stop = false) (part : isNamePart stop = false) : c ≠ stop := by
    intro same
    rw [same] at member
    rcases member with here | behind
    · rw [here, starts] at start
      cases start
    · rw [parts stop behind] at part
      cases part
  exact TypeRef.is_name_of_last _ c ends (other '!' (by decide) (by decide)) (other ']' (by decide) (by decide))

theorem FieldType.wrap_named (keepNonNull : Bool) (reference : TypeRef) (type : FieldType) :
    (type.wrap keepNonNull reference).named = reference.named := by
  induction type with
  | named type => rfl
  | list of ih => rw [wrap, TypeRef.named_list, ih]
  | nonNull of ih =>
      cases keepNonNull with
      | true => rw [wrap, if_pos rfl, TypeRef.named_non_null, ih]
      | false => exact ih

namespace Derivation

variable (schema : Schema) (leaves : schema.HasLeaves) (registry : Registry)

def Target.leaf? : Target → Option String
  | .leafFilter leaf _ | .negatedLeafFilter leaf _ => some leaf
  | _ => none

def Leads (type : TypeRef) : Prop := registry.resolves schema.scalars type.named = true

theorem wrapped_leads (family : Family) (scope : Scope) (field : Field) (reference : TypeRef)
    (leads : Leads schema registry reference) : Leads schema registry (wrapped family scope field reference) := by
  have same : (wrapped family scope field reference).named = reference.named := by
    unfold wrapped
    cases family with
    | insert => by_cases root : (scope.isRoot && field.name == "_id") = true <;> simp [root, FieldType.wrap_named]
    | setOnInsert | set | setObject | setListObject => exact FieldType.wrap_named _ _ _
    | _ => rfl
  rw [Leads, same]
  exact leads

theorem contained_leads (name : String) (plain : TypeRef.IsName ⟨name⟩) (held : registry.contains name = true) :
    Leads schema registry ⟨name⟩ := by
  rw [Leads, TypeRef.named_of_name _ plain]
  simp [Registry.resolves, held]

include leaves in
theorem target_is_name (target : Target) (name : String) (named : target.name schema = .ok name) :
    TypeRef.IsName ⟨name⟩ := by
  cases target with
  | composite family id scope =>
      obtain ⟨composite, _, rfl⟩ := (composite_name_ok schema family id name).mp named
      exact composite_is_name composite.name family
  | enumCopy id =>
      obtain ⟨definition, found, same⟩ := (except_bind_ok _ _ _).mp named
      cases Except.ok.inj same
      exact GraphQL.IsName.reference _ (leaves.named.enums definition (Schema.enumeration_mem schema id definition found))
  | leafFilter leaf isString =>
      cases Except.ok.inj named
      exact TypeRef.is_name_append leaf "Filter" 'r' (by decide) (by decide) (by decide)
  | negatedLeafFilter leaf isString =>
      cases Except.ok.inj named
      exact TypeRef.is_name_append leaf "NotFilter" 'r' (by decide) (by decide) (by decide)
  | _ =>
      cases Except.ok.inj named
      rfl

include leaves in
theorem leaf_named_properly (type : FieldType) (leaf : String) (used : type ∈ schema.fieldTypes)
    (plain : type.composite? = none) (named : leafName schema type = .ok leaf) : GraphQL.IsName leaf := by
  obtain ⟨composite, declared, inside⟩ := List.mem_flatMap.mp used
  obtain ⟨field, listed, rfl⟩ := List.mem_map.mp inside
  unfold leafName at named
  cases innermost : field.type.innermost with
  | scalar scalar =>
      rw [innermost] at named
      cases Except.ok.inj named
      cases scalar with
      | custom name => exact leaves.named.scalars name (leaves.declared composite declared field listed name innermost)
      | _ => decide
  | enum id =>
      rw [innermost] at named
      obtain ⟨definition, found, same⟩ := (except_bind_ok _ _ _).mp named
      cases Except.ok.inj same
      exact leaves.named.enums definition (Schema.enumeration_mem schema id definition found)
  | composite kind id => simp [FieldType.composite?, innermost] at plain

include leaves in
theorem leaf_name_is_name (type : FieldType) (leaf : String) (used : type ∈ schema.fieldTypes)
    (plain : type.composite? = none) (named : leafName schema type = .ok leaf) : TypeRef.IsName ⟨leaf⟩ :=
  GraphQL.IsName.reference leaf (leaf_named_properly schema leaves type leaf used plain named)

include leaves in
theorem answer_target (call : Call) (within : call.Within schema) (needs : List Need) (answer : Answer)
    (listed : call.needs schema = .ok needs) (replied : call.answer schema = .ok answer) :
    ∀ type ∈ answer.types, ∃ target, .type target ∈ needs ∧ target.name schema = .ok type.named := by
  obtain ⟨_, again, refers⟩ := call_answers schema call within needs listed
  cases again.symm.trans replied
  intro type member
  obtain ⟨target, name, needed, named, shape⟩ := refers type member
  have plain := target_is_name schema leaves target name named
  refine ⟨target, needed, named.trans (congrArg Except.ok ?_)⟩
  rcases shape with rfl | rfl
  · exact (TypeRef.named_of_name _ plain).symm
  · rw [TypeRef.named_non_null, TypeRef.named_of_name _ plain]

include leaves in
theorem registered_leads (target : Target) (name : String) (named : target.name schema = .ok name)
    (registered : Registered schema registry target) : Leads schema registry ⟨name⟩ := by
  obtain ⟨other, again, held⟩ := registered
  cases again.symm.trans named
  exact contained_leads schema registry name (target_is_name schema leaves target name named) held

theorem builtin_leads (name : String) (plain : TypeRef.IsName ⟨name⟩)
    (known : (ScalarType.builtin? name).isSome = true) : Leads schema registry ⟨name⟩ := by
  rw [Leads, TypeRef.named_of_name _ plain]
  simp [Registry.resolves, known]

include leaves in
theorem leaf_leads (type : FieldType) (leaf : String) (used : type ∈ schema.fieldTypes)
    (plain : type.composite? = none) (named : leafName schema type = .ok leaf)
    (copied : ∀ needed, .type needed ∈ leafNeeds type → Registered schema registry needed) :
    Leads schema registry ⟨leaf⟩ := by
  obtain ⟨composite, listed, inside⟩ := List.mem_flatMap.mp used
  obtain ⟨field, given, rfl⟩ := List.mem_map.mp inside
  unfold leafName at named
  unfold leafNeeds at copied
  unfold FieldType.composite? at plain
  cases innermost : field.type.innermost with
  | scalar scalar =>
      rw [innermost] at named
      cases Except.ok.inj named
      cases scalar with
      | custom custom =>
          have declared := leaves.declared composite listed field given custom innermost
          have name := GraphQL.IsName.reference custom (leaves.named.scalars custom declared)
          change registry.resolves schema.scalars (TypeRef.named ⟨custom⟩) = true
          rw [TypeRef.named_of_name _ name]
          simp [Registry.resolves, declared]
      | _ => exact builtin_leads schema registry _ rfl rfl
  | enum id =>
      rw [innermost] at named copied
      exact registered_leads schema leaves registry (.enumCopy id) leaf named (copied _ (List.mem_singleton.mpr rfl))
  | composite kind id =>
      rw [innermost] at plain
      cases plain

include leaves in
theorem field_reference_leads (family : Family) (field : Field) (used : field.type ∈ schema.fieldTypes)
    (reference : TypeRef) (referred : fieldReference schema family field.type = .ok reference)
    (registered : ∀ needed, FieldNeeds schema family field.type needed → Registered schema registry needed) :
    Leads schema registry reference := by
  obtain ⟨name, found, rfl⟩ := (except_map_ok _ _ _).mp referred
  cases composite : field.type.composite? with
  | some id =>
      rw [composite] at found
      exact registered_leads schema leaves registry (.composite _ id .nested) name found (registered _ (.nested id composite))
  | none =>
      rw [composite] at found
      have filter (filters : family = .filter ∨ family = .objectFilter)
          (called : leafFilterName <$> leafName schema field.type = .ok name) : Leads schema registry ⟨name⟩ := by
        obtain ⟨leaf, named, rfl⟩ := (except_map_ok _ _ _).mp called
        exact registered_leads schema leaves registry (.leafFilter leaf (isStringLeaf field.type)) _ rfl
          (registered _ (.filter leaf composite named filters))
      cases family with
      | filter => exact filter (.inl rfl) found
      | objectFilter => exact filter (.inr rfl) found
      | sort =>
          cases Except.ok.inj found
          exact registered_leads schema leaves registry .sortDirections _ rfl (registered _ (.directions composite rfl))
      | _ =>
          refine leaf_leads schema leaves registry field.type name used composite found (fun needed inside => ?_)
          obtain ⟨id, innermost, same⟩ := leaf_needs_copy field.type _ inside
          cases same
          exact registered _ (.copy id innermost (by decide))

include leaves in
theorem own_field_leads (family : Family) (id : CompositeIndex) (name : String) (noneTaken : Bool)
    (plain : TypeRef.IsName ⟨name⟩) (itself : registry.contains name = true)
    (registered : ∀ needed, .type needed ∈ ownNeeds family id noneTaken → Registered schema registry needed)
    (input : InputValue) (member : input ∈ ownFields family name noneTaken) : Leads schema registry input.type := by
  cases family with
  | filter =>
      obtain ⟨combinator, _, rfl⟩ := List.mem_map.mp member
      rw [Leads, TypeRef.named_list]
      exact contained_leads schema registry name plain itself
  | objectFilter =>
      cases List.mem_singleton.mp member
      exact registered_leads schema leaves registry .presenceOperators _ rfl (registered _ (by simp [ownNeeds]))
  | sort =>
      cases noneTaken with
      | false => cases member
      | true =>
          cases List.mem_singleton.mp member
          exact registered_leads schema leaves registry .sortDirections _ rfl (registered _ (by simp [ownNeeds]))
  | inc =>
      cases noneTaken with
      | false => cases member
      | true =>
          cases List.mem_singleton.mp member
          exact builtin_leads schema registry "Int" rfl rfl
  | set | setObject =>
      cases List.mem_singleton.mp member
      exact builtin_leads schema registry "Boolean" rfl rfl
  | insert | setOnInsert | setListObject | update => cases member

theorem operand_leads (leaf : String) (leads : Leads schema registry ⟨leaf⟩) (operator : Operator) :
    Leads schema registry (operandField leaf operator).type := by
  unfold operandField Leads
  by_cases listed : operator.comparesWithList = true
  · rw [if_pos listed, TypeRef.named_list]
    exact leads
  · rw [if_neg listed]
    exact leads

theorem operand_fields_lead (leaf : String) (isString : Bool) (leads : Leads schema registry ⟨leaf⟩) (input : InputValue)
    (member : input ∈ operandFields leaf isString) : Leads schema registry input.type := by
  obtain ⟨operator, _, rfl⟩ := List.mem_map.mp member
  exact operand_leads schema registry leaf leads operator

theorem leaf_filter_fields_lead (leaf : String) (isString : Bool) (leads : Leads schema registry ⟨leaf⟩)
    (negated : Leads schema registry ⟨negatedLeafFilterName leaf⟩)
    (operators : Leads schema registry ⟨deprecatedOperatorsName⟩) (input : InputValue)
    (member : input ∈ leafFilterFields leaf isString) : Leads schema registry input.type := by
  have many : Leads schema registry (TypeRef.list ⟨leaf⟩) := by
    rw [Leads, TypeRef.named_list]
    exact leads
  rcases List.mem_append.mp member with operand | other
  · exact operand_fields_lead schema registry leaf isString leads input operand
  · simp only [List.mem_cons, List.not_mem_nil, or_false] at other
    rcases other with rfl | rfl | rfl | rfl | rfl
    · exact negated
    · exact operators
    · exact leads
    · exact many
    · exact leads

include leaves in
theorem update_leads (id : CompositeIndex) (scope : Scope) (object : InputObject)
    (defined : (Target.composite .update id scope).definition schema = .ok (.object object))
    (registered : ∀ needed, Needed schema (.composite .update id scope) needed → Registered schema registry needed)
    (input : InputValue) (member : input ∈ object.fields) : Leads schema registry input.type := by
  obtain ⟨_, _, later⟩ := (except_bind_ok _ _ _).mp defined
  obtain ⟨fields, made, whole⟩ := (except_bind_ok _ _ _).mp later
  cases Except.ok.inj whole
  obtain ⟨_, _, parts⟩ := (except_bind_ok _ _ _).mp made
  obtain ⟨part, among, derived⟩ :=
    (except_map_list_ok _ _ _ parts).2 input (Keyed.mem_of_mem_collect _ input fields member)
  obtain ⟨name, called, filled⟩ := (except_bind_ok _ _ _).mp derived
  cases Except.ok.inj filled
  exact registered_leads schema leaves registry (.composite part.2 id scope) name called
    (registered _ (.part id scope part among))

include leaves in
theorem composite_leads (family : Family) (id : CompositeIndex) (scope : Scope) (composite : Composite)
    (object : InputObject) (located : schema.composite id = .ok composite) (other : family ≠ .update)
    (defined : (Target.composite family id scope).definition schema = .ok (.object object))
    (registered : ∀ needed, Needed schema (.composite family id scope) needed → Registered schema registry needed)
    (held : registry.contains (suffixed composite.name family.suffix) = true) (input : InputValue)
    (member : input ∈ object.fields) : Leads schema registry input.type := by
  obtain ⟨fields, mapped, whole⟩ := composite_definition schema family id scope composite _ located other defined
  cases whole
  rcases List.mem_append.mp (Keyed.mem_of_mem_collect _ input _ member) with taken | own
  · obtain ⟨field, given, derived⟩ := (except_map_list_ok _ _ _ mapped).2 input taken
    obtain ⟨reference, referred, _, typed⟩ := input_field_ok schema family scope field input derived
    have used := mem_field_types schema composite field (Schema.composite_mem schema id composite located)
      (taken_field composite family scope field given).1
    rw [typed]
    exact wrapped_leads schema registry family scope field reference
      (field_reference_leads schema leaves registry family field used reference referred
        (fun needed owed => registered needed (.field family id scope composite field located given needed owed)))
  · exact own_field_leads schema leaves registry family id _ _ (composite_is_name composite.name family) held
      (fun needed listed => registered needed (.own family id scope composite located needed listed)) input own

include leaves in
theorem settled_leads (sound : schema.Sound) (allowed : Target → Prop) (of : ∀ target, allowed target → target.Of schema)
    (key : String) (object : InputObject) (target : Target)
    (settled : Settled schema allowed registry key (.object object) target) (held : registry.contains key = true)
    (leafy : ∀ leaf, target.leaf? = some leaf → Leads schema registry ⟨leaf⟩) :
    ∀ input ∈ object.fields, Leads schema registry input.type := by
  have ours := of target settled.allowed
  obtain ⟨needs, listed⟩ := target_needs schema sound target ours
  have registered (needed : Target) (owed : Needed schema target needed) : Registered schema registry needed :=
    settled.needs needed needs listed ((needs_iff schema target needs listed needed).mpr owed)
  have defined := settled.defined
  have named := settled.named
  intro input member
  cases target with
  | composite family id scope =>
      obtain ⟨composite, located, rfl⟩ := (composite_name_ok schema family id key).mp named
      by_cases update : family = .update
      · subst update
        exact update_leads schema leaves registry id scope object defined registered input member
      · exact composite_leads schema leaves registry family id scope composite object located update defined registered held
          input member
  | leafFilter leaf isString =>
      cases Except.ok.inj defined
      refine leaf_filter_fields_lead schema registry leaf isString (leafy leaf rfl) ?_ ?_ input
        (Keyed.mem_of_mem_collect _ input _ member)
      · exact registered_leads schema leaves registry (.negatedLeafFilter leaf isString) _ rfl
          (registered _ (.negated leaf isString))
      · exact registered_leads schema leaves registry .deprecatedOperators _ rfl (registered _ (.operators leaf isString))
  | negatedLeafFilter leaf isString =>
      cases Except.ok.inj defined
      exact operand_fields_lead schema registry leaf isString (leafy leaf rfl) input
        (Keyed.mem_of_mem_collect _ input _ member)
  | enumCopy id =>
      obtain ⟨_, _, same⟩ := (except_bind_ok _ _ _).mp defined
      cases Except.ok.inj same
  | deprecatedOperators | presenceOperators | sortDirections => cases Except.ok.inj defined
  | page =>
      cases Except.ok.inj defined
      have among := Keyed.mem_of_mem_collect _ input _ member
      simp only [List.mem_cons, List.not_mem_nil, or_false] at among
      rcases among with rfl | rfl <;> exact builtin_leads schema registry "Int" rfl rfl

end Derivation

end DocGraph
