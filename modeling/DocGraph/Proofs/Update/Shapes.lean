import DocGraph.Proofs.Derivation.References
import DocGraph.Proofs.Update.SetTypes

set_option autoImplicit false

namespace DocGraph

inductive CustomAt (schema : Schema) : FieldType → Json → Json → Prop where
  | self (name : String) (value : Json) : CustomAt schema (.named (.scalar (.custom name))) value value
  | nonNull (of : FieldType) (value inner : Json) (below : CustomAt schema of value inner) :
      CustomAt schema (.nonNull of) value inner
  | element (of : FieldType) (elements : List Json) (element inner : Json) (member : element ∈ elements)
      (below : CustomAt schema of element inner) : CustomAt schema (.list of) (.arr elements) inner
  | member (kind : CompositeKind) (id : CompositeIndex) (composite : Composite) (object : Members) (key : String)
      (field : Field) (value inner : Json) (found : schema.composite id = .ok composite)
      (declared : composite.field? key = some field) (given : (key, value) ∈ object)
      (below : CustomAt schema field.type value inner) : CustomAt schema (.named (.composite kind id)) (.obj object) inner

namespace Update

open DocGraph.Derivation

def LeafHolds (custom : Json → Prop) : NamedType → Json → Prop
  | .scalar (.custom _), value => custom value
  | .scalar scalar, value => scalar.Accepts value
  | .enum _, value => ∃ text, value = .str text
  | .composite _ _, _ => False

-- A value of a type in a part of an update, whose objects outside lists have `own` for themselves.
inductive Shaped (schema : Schema) (part : Family) (custom marks : Json → Prop) :
    Option String → FieldType → Json → Prop where
  | null (own : Option String) (type : FieldType) : Shaped schema part custom marks own type .null
  | nonNull (own : Option String) (of : FieldType) (value : Json) (shaped : Shaped schema part custom marks own of value) :
      Shaped schema part custom marks own (.nonNull of) value
  | list (own : Option String) (of : FieldType) (elements : List Json)
      (each : ∀ element ∈ elements, Shaped schema part custom marks none of element) :
      Shaped schema part custom marks own (.list of) (.arr elements)
  | leaf (own : Option String) (type : NamedType) (value : Json) (holds : LeafHolds custom type value) :
      Shaped schema part custom marks own (.named type) value
  | object (own : Option String) (kind : CompositeKind) (id : CompositeIndex) (composite : Composite) (object : Members)
      (found : schema.composite id = .ok composite) (distinct : (Members.keys object).Nodup)
      (marked : own = some Overwrite.marker → ∀ value, (Overwrite.marker, value) ∈ object → marks value)
      (declared : ∀ key ∈ Members.keys object, own ≠ some key →
        ∃ field, composite.field? key = some field ∧ field.isStored = true ∧ part.takes field = true)
      (fields : ∀ key value field, (key, value) ∈ object → own ≠ some key → composite.field? key = some field →
        Shaped schema part custom marks own field.type value) :
      Shaped schema part custom marks own (.named (.composite kind id)) (.obj object)

section

variable {schema : Schema} {part : Family} {custom marks : Json → Prop} {own : Option String}

theorem shaped_object (type : FieldType) (object : Members) (shaped : Shaped schema part custom marks own type (.obj object)) :
    type.isList = false ∧ ((∃ name, type.innermost = .scalar (.custom name)) ∧ custom (.obj object) ∨
      ∃ kind id, type.innermost = .composite kind id ∧
        Shaped schema part custom marks own (.named (.composite kind id)) (.obj object)) := by
  generalize same : Json.obj object = value at shaped
  induction shaped with
  | null => cases same
  | nonNull own of value shaped ih => exact ih same
  | list => cases same
  | leaf own type value holds =>
      subst same
      refine ⟨rfl, .inl ?_⟩
      cases type with
      | scalar scalar =>
          cases scalar with
          | custom name => exact ⟨⟨name, rfl⟩, holds⟩
          | _ => cases holds
      | enum id =>
          obtain ⟨_, other⟩ := holds
          cases other
      | composite kind id => cases holds
  | object own kind id composite members found distinct marked declared fields =>
      cases same
      exact ⟨rfl, .inr ⟨kind, id, rfl, .object own kind id composite object found distinct marked declared fields⟩⟩

theorem shaped_number (type : FieldType) (number : Number)
    (shaped : Shaped schema part custom marks own type (.num number)) : type.composite? = none := by
  generalize same : Json.num number = value at shaped
  induction shaped with
  | nonNull own of value shaped ih => exact ih same
  | leaf own type value holds =>
      cases type with
      | composite kind id => cases holds
      | _ => rfl
  | _ => cases same

theorem shaped_composite (kind : CompositeKind) (id : CompositeIndex) (value : Json)
    (shaped : Shaped schema part custom marks own (.named (.composite kind id)) value) :
    value = .null ∨ ∃ object, value = .obj object := by
  cases shaped with
  | null => exact .inl rfl
  | leaf _ _ _ holds => cases holds
  | object _ _ _ _ object => exact .inr ⟨object, rfl⟩

structure MembersShaped (schema : Schema) (part : Family) (custom marks : Json → Prop) (own : Option String)
    (composite : Composite) (object : Members) : Prop where
  distinct : (Members.keys object).Nodup
  marked : own = some Overwrite.marker → ∀ value, (Overwrite.marker, value) ∈ object → marks value
  fields : ∀ key value, (key, value) ∈ object → own ≠ some key → ∃ field, composite.field? key = some field ∧
    field.isStored = true ∧ part.takes field = true ∧ Shaped schema part custom marks own field.type value

theorem shaped_members (kind : CompositeKind) (id : CompositeIndex) (object : Members)
    (shaped : Shaped schema part custom marks own (.named (.composite kind id)) (.obj object)) :
    ∃ composite, schema.composite id = .ok composite ∧ MembersShaped schema part custom marks own composite object := by
  cases shaped with
  | leaf _ _ _ holds => cases holds
  | object _ _ _ composite _ found distinct marked declared fields =>
      refine ⟨composite, found, distinct, marked, ?_⟩
      intro key value member other
      obtain ⟨field, known, stored, takes⟩ := declared key (Members.mem_keys_of_mem key value object member) other
      exact ⟨field, known, stored, takes, fields key value field member other known⟩

theorem shaped_of_members (kind : CompositeKind) (id : CompositeIndex) (composite : Composite) (object : Members)
    (found : schema.composite id = .ok composite) (members : MembersShaped schema part custom marks own composite object) :
    Shaped schema part custom marks own (.named (.composite kind id)) (.obj object) := by
  refine .object own kind id composite object found members.distinct members.marked ?_ ?_
  · intro key listed other
    obtain ⟨⟨_, value⟩, member, rfl⟩ := List.mem_map.mp listed
    obtain ⟨field, known, stored, takes, _⟩ := members.fields _ value member other
    exact ⟨field, known, stored, takes⟩
  · intro key value field member other known
    obtain ⟨same, again, _, _, shaped⟩ := members.fields key value member other
    cases again.symm.trans known
    exact shaped

theorem shaped_element (of : FieldType) (elements : List Json) (element : Json) (member : element ∈ elements)
    (shaped : Shaped schema part custom marks own (.list of) (.arr elements)) :
    Shaped schema part custom marks none of element := by
  cases shaped with
  | list _ _ _ each => exact each element member

end

theorem part_nested (family : Family) (part : IsPartFamily family) (type : FieldType) :
    IsPartFamily (family.nested type) := by
  rcases part with sets | rfl
  · exact .inl (set_family_nested family type sets)
  · exact .inr rfl

theorem nested_takes (family : Family) (part : IsPartFamily family) (type : FieldType) (field : Field) :
    (family.nested type).takes field = family.takes field := by
  rcases part with sets | rfl
  · have all (other : Family) (writes : IsSetFamily other) : other.takes field = true := by
      rcases writes with rfl | rfl | rfl | rfl <;> rfl
    rw [all family sets, all _ (set_family_nested family type sets)]
  · rfl

theorem own_marker_field (family : Family) (part : IsPartFamily family) (own : ownKey family = some Overwrite.marker)
    (name : String) (noneTaken : Bool) : overwriteField ∈ ownFields family name noneTaken ∧
      ∀ input ∈ ownFields family name noneTaken, input = overwriteField := by
  rcases part with (rfl | rfl | rfl | rfl) | rfl
  · exact ⟨List.mem_singleton.mpr rfl, fun _ member => List.mem_singleton.mp member⟩
  · exact ⟨List.mem_singleton.mpr rfl, fun _ member => List.mem_singleton.mp member⟩
  all_goals exact absurd own (by decide)

theorem nested_own_key (family : Family) (part : IsPartFamily family) (field : Field) (takes : family.takes field = true) :
    ownKey (family.nested field.type) = if field.type.isList then none else ownKey family := by
  cases lists : field.type.isList with
  | true =>
      rcases part with (rfl | rfl | rfl | rfl) | rfl
      all_goals simp [Family.nested, Family.takes, lists, ownKey] at takes ⊢
  | false =>
      rcases part with (rfl | rfl | rfl | rfl) | rfl
      all_goals simp [Family.nested, lists, ownKey]

variable (schema : Schema) (registry : Registry) (part : Family) (custom marks : Json → Prop)

theorem wrapped_shaped (type : FieldType) (reference : TypeRef) (own : Option String) (value : Json)
    (conforms : (type.wrap false reference).Conforms registry schema.scalars value)
    (customs : ∀ inner, CustomAt schema type value inner → custom inner)
    (innermost : ∀ inner : Json, inner.depth ≤ value.depth → reference.Conforms registry schema.scalars inner →
      (∀ held, CustomAt schema (.named type.innermost) inner held → custom held) →
      Shaped schema part custom marks (if type.isList then none else own) (.named type.innermost) inner) :
    Shaped schema part custom marks own type value := by
  induction type generalizing own value with
  | named type => exact innermost value (Nat.le_refl _) conforms customs
  | nonNull of ih =>
      exact .nonNull own of value (ih own value conforms (fun inner below => customs inner (.nonNull of value inner below))
        innermost)
  | list of ih =>
      rcases TypeRef.conforms_list _ value conforms with rfl | ⟨elements, rfl, each⟩
      · exact .null own _
      · refine .list own of elements (fun element member => ?_)
        refine ih none element (each element member)
          (fun inner below => customs inner (.element of elements element inner member below)) ?_
        intro inner deep conforms held
        have shaped := innermost inner (Nat.le_trans deep (Nat.le_trans (Json.element_depth element elements member)
          (Nat.le_succ _))) conforms held
        rwa [ite_self]

section

variable (text : String) (read : Schema.ofText text = .ok schema) (free : CollisionFree schema)
  (grounded : Grounded schema registry)

include grounded in
theorem builtin_unregistered (scalar : ScalarType) (builtin : scalar.isCustom = false)
    (apart : scalar.name ∉ schema.enums.map Enumeration.name) : registry.lookup? scalar.name = none := by
  cases found : registry.lookup? scalar.name with
  | none => rfl
  | some type =>
      obtain ⟨_, _, id, _, named⟩ := builtin_entry schema registry grounded scalar builtin type found
      obtain ⟨definition, held, same⟩ := (except_bind_ok _ _ _).mp named
      have mine := List.mem_map_of_mem (f := Enumeration.name) (Schema.enumeration_mem schema id definition held)
      rw [Except.ok.inj same] at mine
      exact absurd mine apart

include free grounded in
theorem enum_text (type : FieldType) (id : EnumIndex) (leaf : String) (value : Json) (used : type ∈ schema.fieldTypes)
    (innermost : type.innermost = .enum id) (named : leafName schema type = .ok leaf) (name : TypeRef.IsName ⟨leaf⟩)
    (registered : Registered schema registry (.enumCopy id))
    (conforms : TypeRef.Conforms registry schema.scalars ⟨leaf⟩ value) : value = .null ∨ ∃ text, value = .str text := by
  have plain : type.composite? = none := by rw [FieldType.composite?, innermost]
  have copied : Target.enumCopy id ∈ leafTargets schema type := by
    rw [leaf_targets_eq schema type leaf plain named, enumTargets, innermost]
    simp
  obtain ⟨other, entry, again, defined, found, _⟩ := other_entry schema free registry grounded (.enumCopy id)
    (leaf_of schema type _ used copied) registered (by simp)
  have same : leafName schema type = .ok other := by rw [leafName, innermost]; exact again
  cases same.symm.trans named
  obtain ⟨definition, held, made⟩ := (except_bind_ok _ _ _).mp defined
  cases Except.ok.inj made
  rcases TypeRef.conforms_enum _ _ value name found conforms with null | ⟨member, listed, given⟩
  · exact .inl null
  · obtain ⟨text, _, same⟩ := List.mem_map.mp (Keyed.mem_of_mem_collect _ _ _ listed)
    subst same
    rcases given with same | internal
    · exact .inr ⟨text, same⟩
    · cases internal

include read free grounded in
theorem leaf_shaped (field : Field) (composite : Composite) (own : Option String) (leaf : String) (value : Json)
    (declared : composite ∈ schema.composites) (listed : field ∈ composite.fields) (plain : field.type.composite? = none)
    (named : leafName schema field.type = .ok leaf)
    (registered : ∀ id, field.type.innermost = .enum id → Registered schema registry (.enumCopy id))
    (conforms : TypeRef.Conforms registry schema.scalars ⟨leaf⟩ value)
    (customs : ∀ inner, CustomAt schema (.named field.type.innermost) value inner → custom inner) :
    Shaped schema part custom marks own (.named field.type.innermost) value := by
  have used := mem_field_types schema composite field declared listed
  have name := leaf_name_is_name schema (Schema.leaves_of_text text schema read) field.type leaf used plain named
  have apart := Schema.builtins_of_text text schema read composite declared field listed
  cases innermost : field.type.innermost with
  | scalar scalar =>
      rw [innermost] at customs
      rw [leafName, innermost] at named
      cases Except.ok.inj named
      by_cases builtin : scalar.isCustom = true
      · cases scalar with
        | custom held => exact .leaf own _ value (customs value (.self held value))
        | _ => cases builtin
      · have unlike := apart scalar innermost (Bool.eq_false_iff.mpr builtin)
        rw [List.mem_append, not_or] at unlike
        have free := builtin_unregistered schema registry grounded scalar (Bool.eq_false_iff.mpr builtin) unlike.1
        have known : ScalarType.builtin? scalar.name = some scalar := by
          cases scalar <;> first | rfl | exact absurd rfl builtin
        rcases TypeRef.conforms_builtin _ scalar value name free known conforms with rfl | accepted
        · exact .null own _
        · refine .leaf own _ value ?_
          cases scalar <;> first | exact accepted | exact absurd rfl builtin
  | enum id =>
      rcases enum_text schema registry free grounded field.type id leaf value used innermost named name
        (registered id innermost) conforms with rfl | text
      · exact .null own _
      · exact .leaf own _ value text
  | composite kind id => simp [FieldType.composite?, innermost] at plain

include read free grounded in
theorem held_shaped (family : Family) (composite : Composite) (key : String) (value : Json) (field : Field)
    (ours : IsPartFamily family) (declared : composite ∈ schema.composites)
    (held : Held schema registry schema.scalars family composite key value field)
    (customs : ∀ inner, CustomAt schema field.type value inner → custom inner)
    (nested : ∀ kind id name inner, field.type.innermost = .composite kind id →
      compositeName schema (family.nested field.type) id = .ok name → registry.contains name = true →
      inner.depth ≤ value.depth → TypeRef.Conforms registry schema.scalars ⟨name⟩ inner →
      (∀ deeper, CustomAt schema (.named (.composite kind id)) inner deeper → custom deeper) →
      Shaped schema part custom marks (ownKey (family.nested field.type)) (.named (.composite kind id)) inner) :
    Shaped schema part custom marks (ownKey family) field.type value := by
  have listed := (Composite.name_of_field?_eq_some held.found).2
  cases leads : field.type.composite? with
  | some id =>
      obtain ⟨name, named, registered, conforms⟩ :=
        held_composite schema registry schema.scalars family composite key value field held id leads
      obtain ⟨kind, innermost⟩ : ∃ kind, field.type.innermost = .composite kind id := by
        unfold FieldType.composite? at leads
        split at leads
        · rename_i kind other innermost
          cases leads
          exact ⟨kind, innermost⟩
        · cases leads
      refine wrapped_shaped schema registry part custom marks field.type ⟨name⟩ (ownKey family) value conforms customs ?_
      intro inner deep conforms below
      rw [← nested_own_key family ours field held.takes]
      rw [innermost] at below ⊢
      exact nested kind id name inner innermost named registered deep conforms below
  | none =>
      obtain ⟨reference, referred, conforms⟩ := held.typed
      rw [fieldReference, leads] at referred
      obtain ⟨leaf, named, rfl⟩ := (except_map_ok _ _ _).mp referred
      have called : leafName schema field.type = .ok leaf := by
        rcases ours with (rfl | rfl | rfl | rfl) | rfl <;> exact named
      refine wrapped_shaped schema registry part custom marks field.type ⟨leaf⟩ (ownKey family) value conforms customs ?_
      intro inner _ conforms below
      refine leaf_shaped schema registry part custom marks text read free grounded field composite _ leaf inner declared
        listed leads called ?_ conforms below
      intro id innermost
      have copies : fieldNeeds schema family field = .ok [.type (.enumCopy id)] := by
        rw [fieldNeeds, leads]
        rcases ours with (rfl | rfl | rfl | rfl) | rfl <;> simp only [leafFieldNeeds, leafNeeds, innermost]
      exact held.needs _ _ copies (List.mem_singleton.mpr rfl)

include read free grounded in
theorem composite_shaped (marker : ∀ value, TypeRef.Conforms registry schema.scalars ⟨"Boolean"⟩ value → marks value)
    (depth : Nat) : ∀ (family : Family) (kind : CompositeKind) (id : CompositeIndex) (name : String) (value : Json),
    IsPartFamily family → (∀ field, family.takes field = part.takes field) → compositeName schema family id = .ok name →
    registry.contains name = true → value.depth ≤ depth → TypeRef.Conforms registry schema.scalars ⟨name⟩ value →
    (∀ inner, CustomAt schema (.named (.composite kind id)) value inner → custom inner) →
    Shaped schema part custom marks (ownKey family) (.named (.composite kind id)) value := by
  have sound := Schema.sound_of_text text schema read
  induction depth with
  | zero =>
      intro family kind id name value ours _ named contained deep conforms _
      rcases members_held schema registry schema.scalars sound free grounded family ours id name value named contained
        conforms with rfl | ⟨object, _, _, rfl, _⟩
      · exact .null _ _
      · exact absurd deep (Nat.not_succ_le_zero _)
  | succ depth ih =>
      intro family kind id name value ours takes named contained deep conforms customs
      rcases members_held schema registry schema.scalars sound free grounded family ours id name value named contained
        conforms with rfl | ⟨object, composite, noneTaken, rfl, found, distinct, members⟩
      · exact .null _ _
      · have held (key : String) (value : Json) (member : (key, value) ∈ object) (other : ownKey family ≠ some key) :
            ∃ field, Held schema registry schema.scalars family composite key value field := by
          rcases members key value member with ⟨own, among, same, _⟩ | ⟨_, held⟩
          · exact absurd ((part_family_own family ours name noneTaken own among).trans (congrArg some same)) other
          · exact held
        refine shaped_of_members kind id composite object found ⟨distinct, ?_, ?_⟩
        · intro own value member
          obtain ⟨given, only⟩ := own_marker_field family ours own name noneTaken
          rcases members _ value member with ⟨input, among, _, conforms⟩ | ⟨others, _⟩
          · cases only input among
            exact marker value conforms
          · exact absurd rfl (others overwriteField given)
        · intro key value member other
          obtain ⟨field, held⟩ := held key value member other
          refine ⟨field, held.found, held.stored, takes field ▸ held.takes, ?_⟩
          refine held_shaped schema registry part custom marks text read free grounded family composite key value field ours
            (Schema.composite_mem schema id composite found) held (fun inner below =>
              customs inner (.member kind id composite object key field value inner found held.found member below)) ?_
          intro kind nested name inner _ named contained shallow conforms below
          refine ih (family.nested field.type) kind nested name inner (part_nested family ours field.type)
            (fun other => (nested_takes family ours field.type other).trans (takes other)) named contained ?_ conforms below
          exact Nat.le_trans shallow (Nat.le_trans (Json.member_depth key value object member) (Nat.le_of_succ_le_succ deep))

end

def PartsShaped (id : CompositeIndex) (update : Members) : Prop :=
  ∀ family ∈ updateParts, ∀ value, Members.get? family.1 update = some value →
    Shaped schema family.2 custom marks (ownKey family.2) (.named (.composite .object id)) value

theorem update_parts_shaped (text : String) (read : Schema.ofText text = .ok schema) (free : CollisionFree schema)
    (grounded : Grounded schema registry)
    (marker : ∀ value, TypeRef.Conforms registry schema.scalars ⟨"Boolean"⟩ value → marks value) (id : CompositeIndex)
    (within : id.index < schema.composites.length) (name : String) (update : Members)
    (named : compositeName schema .update id = .ok name) (contained : registry.contains name = true)
    (conforms : TypeRef.Conforms registry schema.scalars ⟨name⟩ (.obj update))
    (customs : ∀ key value, (key, value) ∈ update → ∀ inner,
      CustomAt schema (.named (.composite .object id)) value inner → custom inner) :
    PartsShaped schema custom marks id update := by
  intro family among value given
  have member := Members.mem_of_get? family.1 value update given
  obtain ⟨other, listed, word, partName, partNamed, registered, conforms⟩ := update_part_conforms schema registry schema.scalars
    (Schema.sound_of_text text schema read) free grounded id .nested within name update named contained conforms family.1 value
    member
  cases update_part_word family other among listed word
  have ours : ∀ family ∈ updateParts, IsPartFamily family.2 := by
    simp [updateParts, IsPartFamily, IsSetFamily]
  exact composite_shaped schema registry family.2 custom marks text read free grounded marker value.depth family.2 .object id
    partName value (ours family among) (fun _ => rfl) partNamed registered (Nat.le_refl _) conforms (customs family.1 value member)

end Update

end DocGraph
