import DocGraph.Proofs.Derivation.Targets

set_option autoImplicit false

namespace DocGraph.Derivation

variable (schema : Schema)

theorem refers_composite (type : FieldType) (id : CompositeIndex) (refers : type.Refers schema)
    (composite : type.composite? = some id) : id.index < schema.composites.length := by
  unfold FieldType.Refers at refers
  unfold FieldType.composite? at composite
  cases innermost : type.innermost with
  | scalar scalar => simp [innermost] at composite
  | enum held => simp [innermost] at composite
  | composite kind held =>
      simp only [innermost, Option.some.injEq] at composite
      simp only [innermost] at refers
      obtain ⟨target, found, _⟩ := refers
      exact composite ▸ (List.getElem?_eq_some_iff.mp found).1

theorem composite_found (id : CompositeIndex) (within : id.index < schema.composites.length) :
    ∃ composite, schema.composite id = .ok composite :=
  ⟨schema.composites[id.index], (Schema.composite_ok schema id _).mpr (List.getElem?_eq_getElem within)⟩

theorem enumeration_found (id : EnumIndex) (within : id.index < schema.enums.length) :
    ∃ definition, schema.enumeration id = .ok definition :=
  ⟨schema.enums[id.index], (Schema.enumeration_ok schema id _).mpr (List.getElem?_eq_getElem within)⟩

theorem composite_name_ok (family : Family) (id : CompositeIndex) (name : String) :
    compositeName schema family id = .ok name ↔
      ∃ composite, schema.composite id = .ok composite ∧ suffixed composite.name family.suffix = name := by
  rw [compositeName, except_bind_ok]
  constructor
  · rintro ⟨composite, found, same⟩
    exact ⟨composite, found, Except.ok.inj same⟩
  · rintro ⟨composite, found, rfl⟩
    exact ⟨composite, found, rfl⟩

theorem composite_named (family : Family) (id : CompositeIndex) (within : id.index < schema.composites.length) :
    ∃ name, compositeName schema family id = .ok name := by
  obtain ⟨composite, found⟩ := composite_found schema id within
  exact ⟨_, (composite_name_ok schema family id _).mpr ⟨composite, found, rfl⟩⟩

theorem leaf_named (type : FieldType) (refers : type.Refers schema) : ∃ leaf, leafName schema type = .ok leaf := by
  unfold FieldType.Refers at refers
  unfold leafName
  cases innermost : type.innermost with
  | scalar scalar => exact ⟨scalar.name, rfl⟩
  | enum id =>
      simp only [innermost] at refers
      obtain ⟨definition, found⟩ := enumeration_found schema id refers
      exact ⟨definition.name, by simp only [found]; rfl⟩
  | composite kind id =>
      simp only [innermost] at refers
      obtain ⟨target, found, _⟩ := refers
      exact ⟨target.name, by simp only [(Schema.composite_ok schema id target).mpr found]; rfl⟩

theorem target_named (sound : schema.Sound) (target : Target) (of : target.Of schema) :
    ∃ name, target.name schema = .ok name := by
  rw [← Target.bare_name]
  rcases target_cases schema _ of with ⟨family, id, same, within⟩ | ⟨type, used, inside⟩ | shared
  · rw [same]
    exact composite_named schema family id within
  · obtain ⟨_, _, _, same | same | ⟨id, innermost, same⟩⟩ := leaf_target_shape schema type _ inside
    · exact ⟨_, by rw [same]; rfl⟩
    · exact ⟨_, by rw [same]; rfl⟩
    · have refers := field_type_refers schema sound type used
      simp only [FieldType.Refers, innermost] at refers
      obtain ⟨definition, found⟩ := enumeration_found schema id refers
      exact ⟨definition.name, by rw [same, Target.name, found]; rfl⟩
  · simp only [sharedTargets, List.mem_cons, List.not_mem_nil, or_false] at shared
    rcases shared with same | same | same | same
    all_goals exact ⟨_, by rw [same]; rfl⟩

theorem taken_field (composite : Composite) (family : Family) (scope : Scope) (field : Field)
    (taken : field ∈ takenFields composite family scope) :
    field ∈ composite.fields ∧ field.isStored = true ∧ family.takes field = true ∧
      field.name ∉ scope.excluded := by
  have parts := List.mem_filter.mp taken
  have kept := List.mem_filter.mp parts.1
  simp only [Bool.and_eq_true, Bool.not_eq_true', List.contains_eq_mem, decide_eq_false_iff_not] at kept
  exact ⟨kept.1, kept.2.2, parts.2, kept.2.1⟩

theorem input_field_ok (family : Family) (scope : Scope) (field : Field) (input : InputValue)
    (derived : inputField schema family scope field = .ok input) :
    ∃ reference, fieldReference schema family field.type = .ok reference ∧ input.name = field.name ∧
      input.type = wrapped family scope field reference := by
  obtain ⟨reference, referred, same⟩ := (except_bind_ok _ _ _).mp derived
  cases Except.ok.inj same
  exact ⟨reference, referred, rfl, rfl⟩

theorem input_field_succeeds (family : Family) (scope : Scope) (field : Field) (refers : field.type.Refers schema) :
    ∃ input, inputField schema family scope field = .ok input := by
  have referred : ∃ reference, fieldReference schema family field.type = .ok reference := by
    unfold fieldReference
    cases composite : field.type.composite? with
    | some id =>
        obtain ⟨name, named⟩ := composite_named schema (family.nested field.type) id
          (refers_composite schema field.type id refers composite)
        exact ⟨⟨name⟩, by simp only [named]; rfl⟩
    | none =>
        obtain ⟨leaf, named⟩ := leaf_named schema field.type refers
        unfold leafReference
        cases family
        all_goals exact ⟨_, by simp only [named]; rfl⟩
  obtain ⟨reference, found⟩ := referred
  exact ⟨_, (except_bind_ok _ _ _).mpr ⟨reference, found, rfl⟩⟩

theorem composite_definition (family : Family) (id : CompositeIndex) (scope : Scope) (composite : Composite)
    (type : InputType) (found : schema.composite id = .ok composite) (other : family ≠ .update)
    (defined : (Target.composite family id scope).definition schema = .ok type) :
    ∃ fields, (takenFields composite family scope).mapM (inputField schema family scope) = .ok fields ∧
      type = .object (.make (suffixed composite.name family.suffix) none
        (fields ++ ownFields family (suffixed composite.name family.suffix)
          (takenFields composite family scope).isEmpty)) := by
  obtain ⟨name, named, later⟩ := (except_bind_ok _ _ _).mp defined
  obtain ⟨all, listed, last⟩ := (except_bind_ok _ _ _).mp later
  obtain ⟨held, again, rfl⟩ := (composite_name_ok schema family id name).mp named
  cases again.symm.trans found
  obtain ⟨_, again, body⟩ := (except_bind_ok _ _ _).mp listed
  cases again.symm.trans found
  cases Except.ok.inj last
  cases family with
  | update => exact absurd rfl other
  | _ =>
      obtain ⟨fields, mapped, joined⟩ := (except_bind_ok _ _ _).mp body
      exact ⟨fields, mapped, by rw [← Except.ok.inj joined]⟩

theorem composite_needs (family : Family) (id : CompositeIndex) (scope : Scope) (composite : Composite)
    (needs : List Need) (found : schema.composite id = .ok composite) (other : family ≠ .update)
    (needed : (Target.composite family id scope).needs schema = .ok needs) :
    ∃ each, (takenFields composite family scope).mapM (fieldNeeds schema family) = .ok each ∧
      needs = each.flatten ++ ownNeeds family id (takenFields composite family scope).isEmpty := by
  obtain ⟨_, again, body⟩ := (except_bind_ok _ _ _).mp needed
  cases again.symm.trans found
  cases family with
  | update => exact absurd rfl other
  | _ =>
      obtain ⟨each, mapped, joined⟩ := (except_bind_ok _ _ _).mp body
      exact ⟨each, mapped, (Except.ok.inj joined).symm⟩

theorem field_needs_succeed (family : Family) (field : Field) (refers : field.type.Refers schema) :
    ∃ needs, fieldNeeds schema family field = .ok needs := by
  unfold fieldNeeds
  cases composite : field.type.composite? with
  | some id => exact ⟨_, rfl⟩
  | none =>
      obtain ⟨leaf, named⟩ := leaf_named schema field.type refers
      have filters : ∃ needs, leafFilterNeeds schema field.type = .ok needs :=
        ⟨_, (except_bind_ok _ _ _).mpr ⟨leaf, named, rfl⟩⟩
      unfold leafFieldNeeds
      cases family
      all_goals first
        | exact filters
        | exact ⟨_, rfl⟩

theorem target_defined (sound : schema.Sound) (target : Target) (of : target.Of schema) :
    ∃ type, target.definition schema = .ok type := by
  obtain ⟨name, named⟩ := target_named schema sound target of
  cases target with
  | composite family id scope =>
      obtain ⟨composite, found⟩ := composite_found schema id ((composite_of schema family id scope).mp of)
      have declared := Schema.composite_mem schema id composite found
      have fields : ∃ fields, compositeFields schema family id scope = .ok fields := by
        cases family with
        | update =>
            have parts : ∀ part ∈ updateParts, ∃ input, partField schema id part = .ok input := by
              intro part _
              obtain ⟨held, named⟩ := composite_named schema part.2 id ((composite_of schema _ id scope).mp of)
              exact ⟨_, (except_bind_ok _ _ _).mpr ⟨held, named, rfl⟩⟩
            obtain ⟨fields, mapped⟩ := except_map_list_succeeds updateParts (partField schema id) parts
            exact ⟨fields, (except_bind_ok _ _ _).mpr ⟨composite, found, mapped⟩⟩
        | _ =>
            obtain ⟨fields, mapped⟩ := except_map_list_succeeds (takenFields composite _ scope)
              (inputField schema _ scope) (fun field taken => input_field_succeeds schema _ scope field
                (sound.refers composite declared field (taken_field composite _ scope field taken).1))
            exact ⟨_, (except_bind_ok _ _ _).mpr ⟨composite, found,
              (except_bind_ok _ _ _).mpr ⟨fields, mapped, rfl⟩⟩⟩
      obtain ⟨fields, listed⟩ := fields
      exact ⟨_, (except_bind_ok _ _ _).mpr ⟨name, named, (except_bind_ok _ _ _).mpr ⟨fields, listed, rfl⟩⟩⟩
  | enumCopy id =>
      obtain ⟨definition, found, _⟩ := (except_bind_ok _ _ _).mp named
      exact ⟨_, (except_bind_ok _ _ _).mpr ⟨definition, found, rfl⟩⟩
  | _ => exact ⟨_, rfl⟩

theorem target_needs (sound : schema.Sound) (target : Target) (of : target.Of schema) :
    ∃ needs, target.needs schema = .ok needs := by
  cases target with
  | composite family id scope =>
      obtain ⟨composite, found⟩ := composite_found schema id ((composite_of schema family id scope).mp of)
      have declared := Schema.composite_mem schema id composite found
      cases family with
      | update => exact ⟨_, (except_bind_ok _ _ _).mpr ⟨composite, found, rfl⟩⟩
      | _ =>
          obtain ⟨each, mapped⟩ := except_map_list_succeeds (takenFields composite _ scope)
            (fieldNeeds schema _) (fun field taken => field_needs_succeed schema _ field
              (sound.refers composite declared field (taken_field composite _ scope field taken).1))
          exact ⟨_, (except_bind_ok _ _ _).mpr ⟨composite, found, (except_bind_ok _ _ _).mpr ⟨each, mapped, rfl⟩⟩⟩
  | _ => exact ⟨_, rfl⟩

theorem leaf_targets_eq (type : FieldType) (leaf : String) (plain : type.composite? = none)
    (named : leafName schema type = .ok leaf) :
    leafTargets schema type =
      [.leafFilter leaf (isStringLeaf type), .negatedLeafFilter leaf (isStringLeaf type)] ++ enumTargets type := by
  rw [leafTargets, plain, named]

theorem leaf_target_of (type : FieldType) (target : Target) (used : type ∈ schema.fieldTypes)
    (inside : target ∈ leafTargets schema type) : target.Of schema := by
  have itself : target.bare = target := by
    obtain ⟨_, _, _, same | same | ⟨_, _, same⟩⟩ := leaf_target_shape schema type target inside
    all_goals rw [same]; rfl
  rw [Target.Of, itself]
  exact leaf_of schema type target used inside

theorem leaf_needs_copy (type : FieldType) (need : Need) (member : need ∈ leafNeeds type) :
    ∃ id, type.innermost = .enum id ∧ need = .type (.enumCopy id) := by
  unfold leafNeeds at member
  cases innermost : type.innermost with
  | enum id =>
      rw [innermost] at member
      exact ⟨id, rfl, List.mem_singleton.mp member⟩
  | _ =>
      rw [innermost] at member
      exact absurd member List.not_mem_nil

inductive FieldNeeds (family : Family) (type : FieldType) : Target → Prop where
  | nested (id : CompositeIndex) (leads : type.composite? = some id) :
      FieldNeeds family type (.composite (family.nested type) id .nested)
  | copy (id : EnumIndex) (innermost : type.innermost = .enum id) (unsorted : family ≠ .sort) :
      FieldNeeds family type (.enumCopy id)
  | filter (leaf : String) (plain : type.composite? = none) (named : leafName schema type = .ok leaf)
      (filters : family = .filter ∨ family = .objectFilter) : FieldNeeds family type (.leafFilter leaf (isStringLeaf type))
  | directions (plain : type.composite? = none) (sorts : family = .sort) : FieldNeeds family type .sortDirections

theorem leaf_filter_needs_iff (family : Family) (filters : family = .filter ∨ family = .objectFilter) (type : FieldType)
    (plain : type.composite? = none) (needs : List Need) (listed : leafFilterNeeds schema type = .ok needs) (needed : Target) :
    .type needed ∈ needs ↔ FieldNeeds schema family type needed := by
  obtain ⟨leaf, named, same⟩ := (except_bind_ok _ _ _).mp listed
  cases Except.ok.inj same
  constructor
  · intro member
    rcases List.mem_append.mp member with copy | filter
    · obtain ⟨id, innermost, same⟩ := leaf_needs_copy type _ copy
      cases same
      exact .copy id innermost (by rcases filters with rfl | rfl <;> decide)
    · cases List.mem_singleton.mp filter
      exact .filter leaf plain named filters
  · intro needs
    cases needs with
    | nested id leads => cases plain.symm.trans leads
    | copy id innermost _ => exact List.mem_append.mpr (.inl (by simp [leafNeeds, innermost]))
    | filter other _ again _ =>
        cases again.symm.trans named
        exact List.mem_append.mpr (.inr (List.mem_singleton.mpr rfl))
    | directions _ sorts => rcases filters with rfl | rfl <;> cases sorts

theorem field_needs_iff (family : Family) (field : Field) (needs : List Need)
    (listed : fieldNeeds schema family field = .ok needs) (needed : Target) :
    .type needed ∈ needs ↔ FieldNeeds schema family field.type needed := by
  unfold fieldNeeds at listed
  split at listed
  · rename_i id leads
    cases Except.ok.inj listed
    constructor
    · intro member
      cases List.mem_singleton.mp member
      exact .nested id leads
    · intro needs
      cases needs with
      | nested other again =>
          cases again.symm.trans leads
          exact List.mem_singleton.mpr rfl
      | copy copied innermost _ => simp [FieldType.composite?, innermost] at leads
      | filter _ plain _ _ => cases plain.symm.trans leads
      | directions plain _ => cases plain.symm.trans leads
  · rename_i plain
    have copies (unsorted : family ≠ .sort) (filters : ¬ (family = .filter ∨ family = .objectFilter)) :
        .type needed ∈ leafNeeds field.type ↔ FieldNeeds schema family field.type needed := by
      constructor
      · intro member
        obtain ⟨id, innermost, same⟩ := leaf_needs_copy field.type _ member
        cases same
        exact .copy id innermost unsorted
      · intro needs
        cases needs with
        | nested id leads => cases plain.symm.trans leads
        | copy id innermost _ => simp [leafNeeds, innermost]
        | filter _ _ _ filter => exact absurd filter filters
        | directions _ sorts => exact absurd sorts unsorted
    unfold leafFieldNeeds at listed
    cases family with
    | filter => exact leaf_filter_needs_iff schema .filter (.inl rfl) field.type plain needs listed needed
    | objectFilter => exact leaf_filter_needs_iff schema .objectFilter (.inr rfl) field.type plain needs listed needed
    | sort =>
        cases Except.ok.inj listed
        constructor
        · intro member
          cases List.mem_singleton.mp member
          exact .directions plain rfl
        · intro needs
          cases needs with
          | nested id leads => cases plain.symm.trans leads
          | copy _ _ unsorted => exact absurd rfl unsorted
          | filter _ _ _ filters => simp at filters
          | directions => exact List.mem_singleton.mpr rfl
    | _ =>
        cases Except.ok.inj listed
        exact copies nofun (by simp)

inductive Needed : Target → Target → Prop where
  /-- An update needs its parts. -/
  | part (id : CompositeIndex) (scope : Scope) (part : String × Family) (among : part ∈ updateParts) :
      Needed (.composite .update id scope) (.composite part.2 id scope)
  | field (family : Family) (id : CompositeIndex) (scope : Scope) (composite : Composite) (field : Field)
      (found : schema.composite id = .ok composite) (taken : field ∈ takenFields composite family scope) (needed : Target)
      (needs : FieldNeeds schema family field.type needed) : Needed (.composite family id scope) needed
  | own (family : Family) (id : CompositeIndex) (scope : Scope) (composite : Composite)
      (found : schema.composite id = .ok composite) (needed : Target)
      (listed : .type needed ∈ ownNeeds family id (takenFields composite family scope).isEmpty) :
      Needed (.composite family id scope) needed
  | negated (leaf : String) (isString : Bool) : Needed (.leafFilter leaf isString) (.negatedLeafFilter leaf isString)
  | operators (leaf : String) (isString : Bool) : Needed (.leafFilter leaf isString) .deprecatedOperators

theorem needs_iff (target : Target) (needs : List Need) (listed : target.needs schema = .ok needs) (needed : Target) :
    .type needed ∈ needs ↔ Needed schema target needed := by
  cases target with
  | composite family id scope =>
      obtain ⟨composite, found, body⟩ := (except_bind_ok _ _ _).mp listed
      by_cases update : family = .update
      · subst update
        cases Except.ok.inj body
        constructor
        · intro member
          obtain ⟨part, among, same⟩ := List.mem_map.mp member
          cases same
          exact .part id scope part among
        · intro needs
          cases needs with
          | part _ _ part among => exact List.mem_map.mpr ⟨part, among, rfl⟩
          | field _ _ _ other field _ taken => cases (taken_field other .update scope field taken).2.2.1
          | own _ _ _ _ _ _ member => cases member
      · obtain ⟨each, mapped, rfl⟩ := composite_needs schema family id scope composite needs found update listed
        constructor
        · intro member
          rcases List.mem_append.mp member with fields | own
          · obtain ⟨gathered, inside, here⟩ := List.mem_flatten.mp fields
            obtain ⟨field, taken, theirs⟩ := (except_map_list_ok _ _ _ mapped).2 gathered inside
            exact .field family id scope composite field found taken needed
              ((field_needs_iff schema family field gathered theirs needed).mp here)
          · exact .own family id scope composite found needed own
        · intro needs
          cases needs with
          | part => exact absurd rfl update
          | field _ _ _ other field again taken _ inside =>
              cases again.symm.trans found
              obtain ⟨mine, gathered, theirs⟩ := (except_map_list_ok _ _ _ mapped).1 field taken
              exact List.mem_append.mpr (.inl (List.mem_flatten.mpr
                ⟨mine, gathered, (field_needs_iff schema family field mine theirs needed).mpr inside⟩))
          | own _ _ _ other again _ member =>
              cases again.symm.trans found
              exact List.mem_append.mpr (.inr member)
  | leafFilter leaf isString =>
      cases Except.ok.inj listed
      constructor
      · intro member
        simp only [List.mem_cons, Need.type.injEq, List.not_mem_nil, or_false] at member
        rcases member with rfl | rfl
        · exact .negated leaf isString
        · exact .operators leaf isString
      · intro needs
        cases needs <;> simp
  | _ =>
      cases Except.ok.inj listed
      exact ⟨fun none => absurd none List.not_mem_nil, fun needs => nomatch needs⟩

theorem field_needs_of (sound : schema.Sound) (family : Family) (type : FieldType) (used : type ∈ schema.fieldTypes)
    (needed : Target) (needs : FieldNeeds schema family type needed) : needed.Of schema := by
  have refers := field_type_refers schema sound type used
  cases needs with
  | nested id leads => exact (composite_of schema _ id .nested).mpr (refers_composite schema type id refers leads)
  | copy id innermost _ =>
      obtain ⟨leaf, named⟩ := leaf_named schema type refers
      apply leaf_target_of schema type _ used
      rw [leaf_targets_eq schema type leaf (by simp [FieldType.composite?, innermost]) named, enumTargets, innermost]
      exact List.mem_append.mpr (.inr (List.mem_singleton.mpr rfl))
  | filter leaf plain named _ =>
      apply leaf_target_of schema type _ used
      rw [leaf_targets_eq schema type leaf plain named]
      exact List.mem_cons_self ..
  | directions => exact shared_of schema _ (by simp [sharedTargets, Target.bare])

theorem own_needs_of (family : Family) (id : CompositeIndex) (noneTaken : Bool) (needed : Target)
    (member : .type needed ∈ ownNeeds family id noneTaken) : needed ∈ sharedTargets := by
  cases family with
  | sort => cases noneTaken <;> simp [ownNeeds] at member; simp [member, sharedTargets]
  | objectFilter => simp [ownNeeds] at member; simp [member, sharedTargets]
  | _ => simp [ownNeeds] at member

theorem needed_of (sound : schema.Sound) (target needed : Target) (of : target.Of schema)
    (needs : Needed schema target needed) : needed.Of schema := by
  cases needs with
  | part id scope part _ => exact (composite_of schema part.2 id scope).mpr ((composite_of schema .update id scope).mp of)
  | field family id scope composite field found taken _ needs =>
      have listed := (taken_field composite family scope field taken).1
      exact field_needs_of schema sound family field.type
        (mem_field_types schema composite field (Schema.composite_mem schema id composite found) listed) needed needs
  | own family id scope composite _ _ member =>
      have shared := own_needs_of family id _ needed member
      have itself : needed.bare = needed := by
        simp only [sharedTargets, List.mem_cons, List.not_mem_nil, or_false] at shared
        rcases shared with rfl | rfl | rfl | rfl <;> rfl
      rw [Target.Of, itself]
      exact shared_of schema needed shared
  | negated leaf isString =>
      rcases target_cases schema _ of with ⟨_, _, same, _⟩ | ⟨type, used, inside⟩ | shared
      · cases same
      · obtain ⟨plain, held, named, same | same | ⟨_, _, same⟩⟩ := leaf_target_shape schema type _ inside
        · cases same
          apply leaf_target_of schema type _ used
          rw [leaf_targets_eq schema type _ plain named]
          simp
        · cases same
        · cases same
      · simp [Target.bare, sharedTargets] at shared
  | operators leaf isString => exact shared_of schema _ (by simp [sharedTargets, Target.bare])

end DocGraph.Derivation
