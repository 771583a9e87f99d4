import DocGraph.Proofs.Derivation.Sessions
import DocGraph.Proofs.InputType.Conforms
import DocGraph.Proofs.Schema.Names

set_option autoImplicit false

namespace DocGraph

theorem InputObject.make_field (name : String) (description : Option String) (taken own : List InputValue)
    (key : String) (input : InputValue)
    (found : (InputObject.make name description (taken ++ own)).field? key = some input) :
    input ∈ own ∧ input.name = key ∨
      (∀ other ∈ own, other.name ≠ key) ∧ input ∈ taken ∧ input.name = key := by
  unfold field? make at found
  rw [Keyed.find_collect, List.reverse_append, List.find?_append, Option.or_eq_some_iff] at found
  rcases found with mine | ⟨absent, theirs⟩
  · have named := List.find?_some mine
    exact .inl ⟨List.mem_reverse.mp (List.mem_of_find?_eq_some mine), by simpa using named⟩
  · have named := List.find?_some theirs
    refine .inr ⟨?_, List.mem_reverse.mp (List.mem_of_find?_eq_some theirs), by simpa using named⟩
    intro other member
    have missed := List.find?_eq_none.mp absent other (List.mem_reverse.mpr member)
    simpa using missed

theorem InputObject.make_field_found (name : String) (description : Option String) (fields : List InputValue)
    (input : InputValue) (member : input ∈ fields) :
    ∃ found, (make name description fields).field? input.name = some found := by
  rw [field?, make, Keyed.find_collect, ← Option.isSome_iff_exists, List.find?_isSome]
  exact ⟨input, List.mem_reverse.mpr member, by simp⟩

namespace Derivation

theorem suffixed_ends (name suffix : String) : ∃ front, suffixed name suffix = front ++ suffix := by
  unfold suffixed
  split
  · exact ⟨_, rfl⟩
  · exact ⟨name, rfl⟩

theorem suffix_last (family : Family) : family.suffix.toList.getLast? = some 'e' := by
  cases family <;> decide

theorem composite_is_name (name : String) (family : Family) :
    TypeRef.IsName ⟨suffixed name family.suffix⟩ := by
  obtain ⟨front, same⟩ := suffixed_ends name family.suffix
  rw [same]
  exact TypeRef.is_name_append front _ 'e' (suffix_last family) (by decide) (by decide)

variable (schema : Schema) (sound : schema.Sound) (free : CollisionFree schema) (registry : Registry)
  (grounded : Grounded schema registry)

structure Taken (family : Family) (composite : Composite) (key : String) (input : InputValue) (field : Field) :
    Prop where
  found : composite.field? key = some field
  stored : field.isStored = true
  takes : family.takes field = true
  typed : ∃ scope reference, fieldReference schema family field.type = .ok reference ∧
    input.type = wrapped family scope field reference
  needs : ∀ needed needs, fieldNeeds schema family field = .ok needs → .type needed ∈ needs →
    Registered schema registry needed

theorem bare_other (derived target : Target) (same : derived.bare = target.bare)
    (other : ∀ family id scope, target ≠ .composite family id scope) : derived = target := by
  cases target with
  | composite family id scope => exact absurd rfl (other family id scope)
  | _ =>
      cases derived with
      | composite family id scope => cases same
      | _ => exact same

include sound free grounded in
theorem composite_entry (family : Family) (id : CompositeIndex) (scope : Scope) (ordinary : family ≠ .update)
    (within : id.index < schema.composites.length)
    (registered : Registered schema registry (.composite family id scope)) :
    ∃ composite object noneTaken, schema.composite id = .ok composite ∧
      registry.lookup? (suffixed composite.name family.suffix) = some (.object object) ∧
      (∀ needed, .type needed ∈ ownNeeds family id noneTaken → Registered schema registry needed) ∧
      ∀ key input, object.field? key = some input →
        (input ∈ ownFields family (suffixed composite.name family.suffix) noneTaken ∧ input.name = key) ∨
        ((∀ own ∈ ownFields family (suffixed composite.name family.suffix) noneTaken, own.name ≠ key) ∧
          ∃ field, Taken schema registry family composite key input field) := by
  have of := (composite_of schema family id scope).mpr within
  obtain ⟨name, type, derived, named, found, bare, settled⟩ :=
    entry_of_target schema free registry grounded _ of registered
  obtain ⟨composite, located, rfl⟩ := (composite_name_ok schema family id name).mp named
  have declared := Schema.composite_mem schema id composite located
  cases derived with
  | composite family' id' scope' =>
      simp only [Target.bare, Target.composite.injEq, and_true] at bare
      obtain ⟨rfl, rfl⟩ := bare
      obtain ⟨fields, mapped, rfl⟩ :=
        composite_definition schema family' id' scope' composite type located ordinary settled.defined
      obtain ⟨needs, listed⟩ := target_needs schema sound _ settled.allowed
      obtain ⟨each, needed, split⟩ :=
        composite_needs schema family' id' scope' composite needs located ordinary listed
      refine ⟨composite, _, (takenFields composite family' scope').isEmpty, located, found, ?_, ?_⟩
      · intro target member
        exact settled.needs target needs listed (split ▸ List.mem_append.mpr (.inr member))
      · intro key input given
        rcases InputObject.make_field _ _ _ _ key input given with own | ⟨others, member, same⟩
        · exact .inl own
        · obtain ⟨field, taken, derived⟩ := (except_map_list_ok _ _ _ mapped).2 input member
          obtain ⟨reference, referred, called, typed⟩ := input_field_ok schema family' scope' field input derived
          obtain ⟨listed', stored, takes, _⟩ := taken_field composite family' scope' field taken
          have hit := Composite.field_of_mem composite field (sound.distinct composite declared) listed'
          rw [← called, same] at hit
          refine .inr ⟨others, field, hit, stored, takes, ⟨scope', reference, referred, typed⟩, ?_⟩
          intro target needs' fieldListed inside
          obtain ⟨mine, gathered, again⟩ := (except_map_list_ok _ _ _ needed).1 field taken
          cases again.symm.trans fieldListed
          exact settled.needs target needs listed (split ▸ List.mem_append.mpr (.inl
            (List.mem_flatten.mpr ⟨needs', gathered, inside⟩)))
  | _ => cases bare

include sound in
theorem settled_update (key : String) (object : InputObject) (id : CompositeIndex) (scope : Scope)
    (settled : Settled schema (Target.Of schema) registry key (.object object) (.composite .update id scope)) :
    ∀ word input, object.field? word = some input → ∃ part ∈ updateParts, part.1 = word ∧
      ∃ partName, compositeName schema part.2 id = .ok partName ∧ registry.contains partName = true ∧
        input.type = ⟨partName⟩ := by
  obtain ⟨called, _, later⟩ := (except_bind_ok _ _ _).mp settled.defined
  obtain ⟨fields, listed, whole⟩ := (except_bind_ok _ _ _).mp later
  cases Except.ok.inj whole
  obtain ⟨composite, located, parts⟩ := (except_bind_ok _ _ _).mp listed
  obtain ⟨needs, needed⟩ := target_needs schema sound _ settled.allowed
  have split : needs = updateParts.map (fun part => Need.type (.composite part.2 id scope)) := by
    obtain ⟨_, _, same⟩ := (except_bind_ok _ _ _).mp needed
    exact (Except.ok.inj same).symm
  intro word input given
  obtain ⟨member, same⟩ := InputObject.make_field_mem _ _ fields word input given
  obtain ⟨part, among, derived⟩ := (except_map_list_ok _ _ _ parts).2 input member
  obtain ⟨partName, partNamed, made⟩ := (except_bind_ok _ _ _).mp derived
  cases Except.ok.inj made
  obtain ⟨other, again, contained⟩ := settled.needs (.composite part.2 id scope) needs needed
    (split ▸ List.mem_map.mpr ⟨part, among, rfl⟩)
  cases again.symm.trans partNamed
  exact ⟨part, among, same, partName, partNamed, contained, rfl⟩

include sound free grounded in
theorem update_entry (id : CompositeIndex) (scope : Scope) (within : id.index < schema.composites.length)
    (registered : Registered schema registry (.composite .update id scope)) :
    ∃ name object, compositeName schema .update id = .ok name ∧ registry.lookup? name = some (.object object) ∧
      ∀ key input, object.field? key = some input → ∃ part ∈ updateParts, part.1 = key ∧
        ∃ partName, compositeName schema part.2 id = .ok partName ∧ registry.contains partName = true ∧
          input.type = ⟨partName⟩ := by
  have of := (composite_of schema .update id scope).mpr within
  obtain ⟨name, type, derived, named, found, bare, settled⟩ :=
    entry_of_target schema free registry grounded _ of registered
  cases derived with
  | composite family' id' scope' =>
      simp only [Target.bare, Target.composite.injEq, and_true] at bare
      obtain ⟨rfl, rfl⟩ := bare
      cases type with
      | object object => exact ⟨name, object, named, found, settled_update schema sound registry name object id' scope' settled⟩
      | enum _ =>
          obtain ⟨_, _, later⟩ := (except_bind_ok _ _ _).mp settled.defined
          obtain ⟨_, _, whole⟩ := (except_bind_ok _ _ _).mp later
          cases Except.ok.inj whole
  | _ => cases bare

include free grounded in
theorem other_entry (target : Target) (of : target.Of schema) (registered : Registered schema registry target)
    (other : ∀ family id scope, target ≠ .composite family id scope) :
    ∃ name type, target.name schema = .ok name ∧ target.definition schema = .ok type ∧
      registry.lookup? name = some type ∧
      ∀ needed needs, target.needs schema = .ok needs → .type needed ∈ needs → Registered schema registry needed := by
  obtain ⟨name, type, derived, named, found, bare, settled⟩ :=
    entry_of_target schema free registry grounded target of registered
  cases bare_other derived target bare other
  exact ⟨name, type, named, settled.defined, found, settled.needs⟩

theorem builtin_last (scalar : ScalarType) (builtin : scalar.isCustom = false) :
    ∃ last, scalar.name.toList.getLast? = some last ∧ last ∉ ['e', 'r', 's'] := by
  cases scalar with
  | custom name => cases builtin
  | id => exact ⟨'D', by decide⟩
  | string => exact ⟨'g', by decide⟩
  | int => exact ⟨'t', by decide⟩
  | float => exact ⟨'t', by decide⟩
  | boolean => exact ⟨'n', by decide⟩

include grounded in
theorem builtin_entry (scalar : ScalarType) (builtin : scalar.isCustom = false) (type : InputType)
    (found : registry.lookup? scalar.name = some type) : ∃ used ∈ schema.fieldTypes, ∃ id,
      used.innermost = .enum id ∧ Target.name schema (.enumCopy id) = .ok scalar.name := by
  obtain ⟨last, ends, unlike⟩ := builtin_last scalar builtin
  obtain ⟨derived, settled⟩ := grounded scalar.name type found
  have named : derived.bare.name schema = .ok scalar.name := (Target.bare_name schema derived).trans settled.named
  have other (front back : String) (c : Char) (closes : back.toList.getLast? = some c) (among : c ∈ ['e', 'r', 's']) :
      front ++ back ≠ scalar.name := by
    intro same
    rw [← same, String.toList_append, List.getLast?_append, closes] at ends
    exact unlike (Option.some.inj ends ▸ among)
  rcases target_cases schema _ settled.allowed with ⟨family, id, same, _⟩ | ⟨used, listed, inside⟩ | shared
  · rw [same] at named
    obtain ⟨held, _, text⟩ := (composite_name_ok schema family id scalar.name).mp named
    obtain ⟨front, split⟩ := suffixed_ends held.name family.suffix
    exact absurd (split.symm.trans text) (other front family.suffix 'e' (suffix_last family) (by decide))
  · obtain ⟨_, leaf, _, same | same | ⟨id, innermost, same⟩⟩ := leaf_target_shape schema used _ inside
    · rw [same] at named
      exact absurd (Except.ok.inj named) (other leaf "Filter" 'r' (by decide) (by decide))
    · rw [same] at named
      exact absurd (Except.ok.inj named) (other leaf "NotFilter" 'r' (by decide) (by decide))
    · exact ⟨used, listed, id, innermost, same ▸ named⟩
  · simp only [sharedTargets, List.mem_cons, List.not_mem_nil, or_false] at shared
    rcases shared with same | same | same | same
    · rw [same] at named
      exact absurd (Except.ok.inj named) (other "" "Opr" 'r' (by decide) (by decide))
    · rw [same] at named
      exact absurd (Except.ok.inj named) (other "" "OprExists" 's' (by decide) (by decide))
    · rw [same] at named
      exact absurd (Except.ok.inj named) (other "" "SortType" 'e' (by decide) (by decide))
    · rw [same] at named
      exact absurd (Except.ok.inj named) (other "" "PaginationType" 'e' (by decide) (by decide))

theorem own_field_plain (family : Family) (name : String) (noneTaken : Bool) :
    ∀ own ∈ ownFields family name noneTaken, IsPlainName own.name := by
  have alone (field : InputValue) (plain : IsPlainName field.name) : ∀ own ∈ [field], IsPlainName own.name := by
    intro own member
    cases List.mem_singleton.mp member
    exact plain
  cases family with
  | filter =>
      intro own member
      obtain ⟨combinator, _, rfl⟩ := List.mem_map.mp member
      change IsPlainName combinator.word
      cases combinator <;> decide
  | objectFilter => exact alone _ (by decide)
  | sort | inc =>
      cases noneTaken with
      | true => exact alone _ (by decide)
      | false => nofun
  | set | setObject => exact alone _ (by decide)
  | _ => nofun

theorem operand_field_plain (leaf : String) (isString : Bool) :
    ∀ input ∈ operandFields leaf isString, IsPlainName input.name := by
  intro input member
  obtain ⟨operator, _, rfl⟩ := List.mem_map.mp member
  change IsPlainName operator.word
  cases operator <;> decide

theorem definition_plain_names (names : schema.HasPlainNames) (target : Target) (object : InputObject)
    (defined : target.definition schema = .ok (.object object)) (key : String) (input : InputValue)
    (found : object.field? key = some input) : IsPlainName key := by
  have made (name : String) (description : Option String) (fields : List InputValue)
      (plain : ∀ input ∈ fields, IsPlainName input.name) (same : object = .make name description fields) :
      IsPlainName key := by
    subst same
    obtain ⟨member, rfl⟩ := InputObject.make_field_mem name description fields key input found
    exact plain input member
  cases target with
  | composite family id scope =>
      by_cases update : family = .update
      · subst update
        obtain ⟨name, _, later⟩ := (except_bind_ok _ _ _).mp defined
        obtain ⟨fields, listed, whole⟩ := (except_bind_ok _ _ _).mp later
        obtain ⟨_, _, parts⟩ := (except_bind_ok _ _ _).mp listed
        refine made name none fields ?_ (InputType.object.inj (Except.ok.inj whole)).symm
        intro input member
        obtain ⟨part, among, derived⟩ := (except_map_list_ok _ _ _ parts).2 input member
        obtain ⟨_, _, same⟩ := (except_bind_ok _ _ _).mp derived
        cases Except.ok.inj same
        have words : ∀ part ∈ updateParts, IsPlainName part.1 := by decide
        exact words part among
      · obtain ⟨name, named, _⟩ := (except_bind_ok _ _ _).mp defined
        obtain ⟨composite, located, rfl⟩ := (composite_name_ok schema family id name).mp named
        obtain ⟨fields, mapped, same⟩ := composite_definition schema family id scope composite _ located update defined
        refine made _ none _ ?_ (InputType.object.inj same)
        intro input member
        rcases List.mem_append.mp member with taken | own
        · obtain ⟨field, among, derived⟩ := (except_map_list_ok _ _ _ mapped).2 input taken
          obtain ⟨_, _, called, _⟩ := input_field_ok schema family scope field input derived
          rw [called]
          exact names composite (Schema.composite_mem schema id composite located) field
            (taken_field composite family scope field among).1
        · exact own_field_plain family _ _ input own
  | leafFilter leaf isString =>
      refine made _ _ _ ?_ (InputType.object.inj (Except.ok.inj defined)).symm
      intro input member
      rcases List.mem_append.mp member with operand | other
      · exact operand_field_plain leaf isString input operand
      · have words : ∀ word ∈ [Operator.not.word, "opr", "value", "values", "NEQ"], IsPlainName word := by decide
        exact words input.name (List.mem_map_of_mem (f := InputValue.name) other)
  | negatedLeafFilter leaf isString =>
      exact made _ _ _ (operand_field_plain leaf isString) (InputType.object.inj (Except.ok.inj defined)).symm
  | page =>
      refine made _ _ _ ?_ (InputType.object.inj (Except.ok.inj defined)).symm
      intro input member
      simp only [List.mem_cons, List.not_mem_nil, or_false] at member
      rcases member with rfl | rfl <;> decide
  | enumCopy id =>
      obtain ⟨_, _, same⟩ := (except_bind_ok _ _ _).mp defined
      cases Except.ok.inj same
  | _ => cases defined

theorem definition_internal (target : Target) (enum : InputEnum) (defined : target.definition schema = .ok (.enum enum))
    (member : EnumValue) (listed : member ∈ enum.values) (object : Members) : member.value ≠ some (.obj object) := by
  have made (name : String) (description : Option String) (values : List EnumValue)
      (plain : ∀ value ∈ values, value.value ≠ some (.obj object)) (same : enum = .make name description values) :
      member.value ≠ some (.obj object) := by
    subst same
    exact plain member (Keyed.mem_of_mem_collect _ _ _ listed)
  have given {α : Type} (items : List α) (make : α → EnumValue) (plain : ∀ item, (make item).value ≠ some (.obj object)) :
      ∀ value ∈ items.map make, value.value ≠ some (.obj object) := by
    intro _ among
    obtain ⟨item, _, rfl⟩ := List.mem_map.mp among
    exact plain item
  cases target with
  | composite family id scope =>
      obtain ⟨_, _, later⟩ := (except_bind_ok _ _ _).mp defined
      obtain ⟨_, _, same⟩ := (except_bind_ok _ _ _).mp later
      cases Except.ok.inj same
  | enumCopy id =>
      obtain ⟨held, _, same⟩ := (except_bind_ok _ _ _).mp defined
      exact made _ _ _ (given held.values _ (by simp)) (InputType.enum.inj (Except.ok.inj same)).symm
  | deprecatedOperators => exact made _ _ _ (given _ _ (by simp)) (InputType.enum.inj (Except.ok.inj defined)).symm
  | presenceOperators => exact made _ _ _ (given _ _ (by simp)) (InputType.enum.inj (Except.ok.inj defined)).symm
  | sortDirections => exact made _ _ _ (given _ _ (by simp [Json.int])) (InputType.enum.inj (Except.ok.inj defined)).symm
  | _ => cases defined

include grounded in
theorem conforms_entry (scalars : List String) (type : TypeRef) (object : Members) (name : type.IsName)
    (contained : registry.contains type.text = true) (conforms : type.Conforms registry scalars (.obj object)) :
    (registry.inputObject? type.text).isSome = true := by
  obtain ⟨entry, found⟩ := (Registry.contains_iff registry type.text).mp contained
  unfold Registry.inputObject?
  rw [found]
  cases entry with
  | object entry => rfl
  | enum enum =>
      obtain ⟨target, settled⟩ := grounded type.text _ found
      rcases TypeRef.conforms_enum type enum _ name found conforms with null | ⟨member, listed, text | internal⟩
      · cases null
      · cases text
      · exact absurd internal (definition_internal schema target enum settled.defined member listed object)

end Derivation

end DocGraph
