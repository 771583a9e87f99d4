import DocGraph.Proofs.Derivation.Entries
import DocGraph.Proofs.Update.Validated

set_option autoImplicit false

namespace DocGraph.Update

open DocGraph.Derivation

def IsSetFamily (family : Family) : Prop :=
  family = .set ∨ family = .setObject ∨ family = .setListObject ∨ family = .setOnInsert

theorem set_family_nested (family : Family) (type : FieldType) (sets : IsSetFamily family) :
    IsSetFamily (family.nested type) := by
  have either : IsSetFamily (if type.isList then .setListObject else .setObject) := by
    by_cases lists : type.isList = true
    · exact .inr (.inr (.inl (if_pos lists)))
    · exact .inr (.inl (if_neg lists))
  rcases sets with rfl | rfl | rfl | rfl
  · exact either
  · exact either
  · exact .inr (.inr (.inl rfl))
  · exact .inr (.inr (.inr rfl))

def IsPartFamily (family : Family) : Prop := IsSetFamily family ∨ family = .inc

theorem wrap_single (reference : TypeRef) (type : FieldType) (single : type.isList = false) :
    type.wrap false reference = reference := by
  induction type with
  | named type => rfl
  | list of ih => cases single
  | nonNull of ih => exact ih single

theorem part_family_wraps (family : Family) (part : IsPartFamily family) (scope : Scope) (field : Field)
    (reference : TypeRef) (takes : family.takes field = true) :
    wrapped family scope field reference = field.type.wrap false reference := by
  rcases part with (rfl | rfl | rfl | rfl) | rfl
  · rfl
  · rfl
  · rfl
  · rfl
  · have single : field.type.isList = false := by
      rw [Family.takes, Bool.and_eq_true, Bool.not_eq_true'] at takes
      exact takes.1
    exact (wrap_single reference field.type single).symm

def ownKey : Family → Option String
  | .set | .setObject => some Overwrite.marker
  | .inc => some incPlaceholder
  | _ => none

theorem own_key_marker (family : Family) (sets : IsSetFamily family) (key : String) (own : ownKey family = some key) :
    key = Overwrite.marker := by
  rcases sets with rfl | rfl | rfl | rfl
  · exact (Option.some.inj own).symm
  · exact (Option.some.inj own).symm
  · cases own
  · cases own

theorem part_family_own (family : Family) (part : IsPartFamily family) (name : String) (noneTaken : Bool)
    (own : InputValue) (member : own ∈ ownFields family name noneTaken) : ownKey family = some own.name := by
  rcases part with (rfl | rfl | rfl | rfl) | rfl
  · cases List.mem_singleton.mp member
    rfl
  · cases List.mem_singleton.mp member
    rfl
  · cases member
  · cases member
  · cases noneTaken with
    | true =>
        cases List.mem_singleton.mp member
        rfl
    | false => cases member

theorem update_part_word (part other : String × Family) (among : part ∈ updateParts) (listed : other ∈ updateParts)
    (same : other.1 = part.1) : other = part := by
  have distinct : ∀ first ∈ updateParts, ∀ second ∈ updateParts, first.1 = second.1 → first = second := by decide
  exact distinct other listed part among same

variable (schema : Schema) (registry : Registry) (scalars : List String)

def FitsSet (type : FieldType) (value : Json) : Prop :=
  ∀ nested, type.composite? = some nested → ∃ family name, IsSetFamily family ∧
    compositeName schema family nested = .ok name ∧ registry.contains name = true ∧
    (type.wrap false ⟨name⟩).Conforms registry scalars value

structure Held (family : Family) (composite : Composite) (key : String) (value : Json) (field : Field) : Prop where
  found : composite.field? key = some field
  stored : field.isStored = true
  takes : family.takes field = true
  typed : ∃ reference, fieldReference schema family field.type = .ok reference ∧
    (field.type.wrap false reference).Conforms registry scalars value
  needs : ∀ needed needs, fieldNeeds schema family field = .ok needs → .type needed ∈ needs →
    Registered schema registry needed

theorem held_composite (family : Family) (composite : Composite) (key : String) (value : Json) (field : Field)
    (held : Held schema registry scalars family composite key value field) (nested : CompositeIndex)
    (leads : field.type.composite? = some nested) : ∃ name, compositeName schema (family.nested field.type) nested = .ok name ∧
      registry.contains name = true ∧ (field.type.wrap false ⟨name⟩).Conforms registry scalars value := by
  obtain ⟨reference, referred, conforms⟩ := held.typed
  have needs : fieldNeeds schema family field = .ok [.type (.composite (family.nested field.type) nested .nested)] := by
    rw [fieldNeeds, leads]
  obtain ⟨name, named, registered⟩ := held.needs _ _ needs (List.mem_singleton.mpr rfl)
  rw [fieldReference, leads] at referred
  obtain ⟨_, again, rfl⟩ := (except_map_ok _ _ _).mp referred
  cases again.symm.trans named
  exact ⟨name, named, registered, conforms⟩

variable (sound : schema.Sound) (free : CollisionFree schema) (grounded : Grounded schema registry)

include sound free grounded

theorem members_held (family : Family) (part : IsPartFamily family) (id : CompositeIndex) (name : String) (value : Json)
    (named : compositeName schema family id = .ok name) (contained : registry.contains name = true)
    (conforms : TypeRef.Conforms registry scalars ⟨name⟩ value) :
    value = .null ∨ ∃ object composite noneTaken, value = .obj object ∧ schema.composite id = .ok composite ∧
      (Members.keys object).Nodup ∧ ∀ key held, (key, held) ∈ object →
        (∃ own ∈ ownFields family name noneTaken, own.name = key ∧ own.type.Conforms registry scalars held) ∨
        ((∀ own ∈ ownFields family name noneTaken, own.name ≠ key) ∧
          ∃ field, Held schema registry scalars family composite key held field) := by
  obtain ⟨composite, found, rfl⟩ := (composite_name_ok schema family id name).mp named
  have within : id.index < schema.composites.length :=
    (List.getElem?_eq_some_iff.mp ((Schema.composite_ok schema id composite).mp found)).1
  have ordinary : family ≠ .update := by
    rcases part with (rfl | rfl | rfl | rfl) | rfl <;> nofun
  obtain ⟨other, entry, noneTaken, located, looked, _, keys⟩ := composite_entry schema sound free registry grounded
    family id .nested ordinary within ⟨_, named, contained⟩
  cases located.symm.trans found
  rcases TypeRef.conforms_object _ entry _ (composite_is_name composite.name family) looked conforms with
    null | ⟨object, same, distinct, each⟩
  · exact .inl null
  · refine .inr ⟨object, composite, noneTaken, same, found, distinct, ?_⟩
    intro key held member
    obtain ⟨input, offered, conforms⟩ := each key held member
    rcases keys key input offered with ⟨own, same⟩ | ⟨others, field, taken⟩
    · exact .inl ⟨input, own, same, conforms⟩
    · obtain ⟨scope, reference, referred, typed⟩ := taken.typed
      rw [typed, part_family_wraps family part scope field reference taken.takes] at conforms
      exact .inr ⟨others, field, taken.found, taken.stored, taken.takes, ⟨reference, referred, conforms⟩, taken.needs⟩

theorem set_member_fits (kind : CompositeKind) (id : CompositeIndex) (object : Members) (composite : Composite)
    (key : String) (field : Field) (value : Json)
    (fit : FitsSet schema registry scalars (.named (.composite kind id)) (.obj object))
    (found : schema.composite id = .ok composite) (declared : composite.field? key = some field)
    (given : Members.get? key object = some value) (plain : key ≠ Overwrite.marker) :
    field.isStored = true ∧ FitsSet schema registry scalars field.type value := by
  obtain ⟨family, name, sets, named, contained, conforms⟩ := fit id rfl
  rcases members_held schema registry scalars sound free grounded family (.inl sets) id name _ named contained conforms with
    null | ⟨members, other, noneTaken, same, located, _, each⟩
  · cases null
  · cases same
    cases located.symm.trans found
    rcases each key value (Members.mem_of_get? key value object given) with ⟨own, among, same, _⟩ | ⟨_, _, held⟩
    · have kept := part_family_own family (.inl sets) name noneTaken own among
      exact absurd (same.symm.trans (own_key_marker family sets own.name kept)) plain
    · cases held.found.symm.trans declared
      refine ⟨held.stored, ?_⟩
      intro nested leads
      obtain ⟨below, belowNamed, registered, conforms⟩ :=
        held_composite schema registry scalars family composite key value field held nested leads
      exact ⟨family.nested field.type, below, set_family_nested family field.type sets, belowNamed, registered, conforms⟩

theorem set_types_stored : StoredOnly schema (FitsSet schema registry scalars) where
  nonNull of value fit nested leads := fit nested leads
  list of object nested leads fit := by
    obtain ⟨family, name, _, _, _, conforms⟩ := fit nested leads
    rcases TypeRef.conforms_list _ _ conforms with null | ⟨_, same, _⟩
    · cases null
    · cases same
  element of elements element fit member nested leads := by
    obtain ⟨family, name, sets, named, contained, conforms⟩ := fit nested leads
    rcases TypeRef.conforms_list _ _ conforms with null | ⟨_, same, each⟩
    · cases null
    · cases same
      exact ⟨family, name, sets, named, contained, each element member⟩
  member := set_member_fits schema registry scalars sound free grounded

theorem update_part_conforms (id : CompositeIndex) (scope : Scope) (within : id.index < schema.composites.length)
    (name : String) (update : Members) (named : compositeName schema .update id = .ok name)
    (contained : registry.contains name = true) (conforms : TypeRef.Conforms registry scalars ⟨name⟩ (.obj update))
    (key : String) (value : Json) (member : (key, value) ∈ update) : ∃ part ∈ updateParts, part.1 = key ∧ ∃ partName,
      compositeName schema part.2 id = .ok partName ∧ registry.contains partName = true ∧
        TypeRef.Conforms registry scalars ⟨partName⟩ value := by
  obtain ⟨again, entry, same, looked, keys⟩ := update_entry schema sound free registry grounded id scope within
    ⟨name, named, contained⟩
  cases same.symm.trans named
  obtain ⟨composite, _, rfl⟩ := (composite_name_ok schema .update id name).mp named
  rcases TypeRef.conforms_object _ entry _ (composite_is_name composite.name .update) looked conforms with
    null | ⟨members, same, _, each⟩
  · cases null
  · cases same
    obtain ⟨input, offered, conforms⟩ := each key value member
    obtain ⟨part, among, word, partName, partNamed, registered, typed⟩ := keys key input offered
    exact ⟨part, among, word, partName, partNamed, registered, typed ▸ conforms⟩

theorem update_part_fits (part : String × Family) (among : part ∈ updateParts) (sets : IsSetFamily part.2)
    (id : CompositeIndex) (scope : Scope) (within : id.index < schema.composites.length) (name : String)
    (update object : Members) (kind : CompositeKind) (named : compositeName schema .update id = .ok name)
    (contained : registry.contains name = true) (conforms : TypeRef.Conforms registry scalars ⟨name⟩ (.obj update))
    (given : Members.get? part.1 update = some (.obj object)) :
    FitsSet schema registry scalars (.named (.composite kind id)) (.obj object) := by
  obtain ⟨other, listed, word, partName, partNamed, registered, conforms⟩ := update_part_conforms schema registry scalars
    sound free grounded id scope within name update named contained conforms part.1 _
    (Members.mem_of_get? part.1 _ update given)
  cases update_part_word part other among listed word
  intro nested leads
  cases leads
  exact ⟨part.2, partName, sets, partNamed, registered, conforms⟩

end DocGraph.Update
