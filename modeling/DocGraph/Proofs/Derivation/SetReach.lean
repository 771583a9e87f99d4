import DocGraph.Proofs.Derivation.Order
import Mathlib.Data.List.Forall2

set_option autoImplicit false

namespace DocGraph

theorem except_map_list_each {ε α β : Type} (items : List α) (act : α → Except ε β) (values : List β)
    (mapped : items.mapM act = .ok values) : List.Forall₂ (fun item value => act item = .ok value) items values := by
  induction items generalizing values with
  | nil =>
      cases Except.ok.inj mapped
      exact .nil
  | cons head rest ih =>
      obtain ⟨first, here, others, behind, rfl⟩ := (except_map_list_cons head rest act values).mp mapped
      exact .cons here (ih others behind)

def FieldType.listDepth : FieldType → Nat
  | .named _ => 0
  | .list of => of.listDepth + 1
  | .nonNull of => of.listDepth

def TypeRef.inLists (reference : TypeRef) : Nat → TypeRef
  | 0 => reference
  | depth + 1 => (reference.inLists depth).list

theorem FieldType.wrap_in_lists (reference : TypeRef) (type : FieldType) :
    type.wrap false reference = reference.inLists type.listDepth := by
  induction type with
  | named type => rfl
  | list of ih => rw [wrap, ih, listDepth, TypeRef.inLists]
  | nonNull of ih => exact ih

namespace Derivation

variable (schema : Schema)

inductive StoredPath (root : CompositeIndex) : List Field → CompositeIndex → Prop where
  | here : StoredPath root [] root
  | step (path : List Field) (last nested : CompositeIndex) (composite : Composite) (field : Field)
      (walk : StoredPath root path last) (found : schema.composite last = .ok composite)
      (listed : field ∈ composite.fields) (stored : field.isStored = true) (leads : field.type.composite? = some nested) :
      StoredPath root (path ++ [field]) nested

-- The family of what a set reaches by some fields.
def SetContext (path : List Field) : Family → Prop
  | .set => path = []
  | .setObject => path ≠ [] ∧ ∀ field ∈ path, field.type.isList = false
  | .setListObject => ∃ field ∈ path, field.type.isList = true
  | _ => False

def SetReached (root : CompositeIndex) (family : Family) (last : CompositeIndex) : Prop :=
  ∃ path, StoredPath schema root path last ∧ SetContext path family

inductive SetReference (family : Family) (type : FieldType) : String → Prop where
  | leaf (name : String) (plain : type.composite? = none) (named : leafName schema type = .ok name) :
      SetReference family type name
  | object (id : CompositeIndex) (name : String) (leads : type.composite? = some id) (outside : family ≠ .setListObject)
      (single : type.isList = false) (named : compositeName schema .setObject id = .ok name) : SetReference family type name
  | list (id : CompositeIndex) (name : String) (leads : type.composite? = some id)
      (inside : family = .setListObject ∨ type.isList = true) (named : compositeName schema .setListObject id = .ok name) :
      SetReference family type name

structure SetField (family : Family) (field : Field) (input : InputValue) : Prop where
  name : input.name = field.name
  type : ∃ reference, SetReference schema family field.type reference ∧
    input.type = TypeRef.inLists ⟨reference⟩ field.type.listDepth
  undescribed : input.description = none
  active : input.deprecation = .active

structure SetShape (family : Family) (composite : Composite) (object : InputObject) : Prop where
  name : object.name = suffixed composite.name family.suffix
  undescribed : object.description = none
  fields : ∃ taken, List.Forall₂ (SetField schema family) (composite.fields.filter Field.isStored) taken ∧
    object.fields = taken ++ (if family = .setListObject then [] else [overwriteField])
  marked : Overwrite.marker ∈ object.fields.map InputValue.name ↔ family ≠ .setListObject

def IsSetKind (family : Family) : Prop := family = .set ∨ family = .setObject ∨ family = .setListObject

theorem set_context_family (path : List Field) (family : Family) (context : SetContext path family) :
    IsSetKind family := by
  cases family with
  | set => exact .inl rfl
  | setObject => exact .inr (.inl rfl)
  | setListObject => exact .inr (.inr rfl)
  | _ => cases context

theorem set_context_exists (path : List Field) : ∃ family, SetContext path family := by
  by_cases start : path = []
  · exact ⟨.set, start⟩
  · by_cases lists : ∃ field ∈ path, field.type.isList = true
    · exact ⟨.setListObject, lists⟩
    · exact ⟨.setObject, start, fun field member => Bool.eq_false_iff.mpr (fun list => lists ⟨field, member, list⟩)⟩

theorem set_context_unique (path : List Field) (family other : Family) (context : SetContext path family)
    (again : SetContext path other) : family = other := by
  have apart (single : ∀ field ∈ path, field.type.isList = false) : ¬ ∃ field ∈ path, field.type.isList = true := by
    rintro ⟨field, member, list⟩
    cases (single field member).symm.trans list
  rcases set_context_family path family context with rfl | rfl | rfl <;>
    rcases set_context_family path other again with rfl | rfl | rfl
  · rfl
  · exact absurd context again.1
  · cases context
    obtain ⟨_, none, _⟩ := again
    cases none
  · exact absurd again context.1
  · rfl
  · exact absurd again (apart context.2)
  · cases again
    obtain ⟨_, none, _⟩ := context
    cases none
  · exact absurd context (apart again.2)
  · rfl

theorem set_context_step (path : List Field) (field : Field) (family : Family) (context : SetContext path family) :
    SetContext (path ++ [field]) (family.nested field.type) := by
  have outside (plain : ∀ field ∈ path, field.type.isList = false) :
      SetContext (path ++ [field]) (if field.type.isList then .setListObject else .setObject) := by
    by_cases list : field.type.isList = true
    · rw [if_pos list]
      exact ⟨field, by simp, list⟩
    · rw [if_neg list]
      refine ⟨by simp, List.forall_mem_append.mpr ⟨plain, ?_⟩⟩
      exact List.forall_mem_singleton.mpr (Bool.eq_false_iff.mpr list)
  rcases set_context_family path family context with rfl | rfl | rfl
  · cases context
    exact outside nofun
  · exact outside context.2
  · obtain ⟨held, member, list⟩ := context
    exact ⟨held, List.mem_append.mpr (.inl member), list⟩

theorem set_reached_step (root last nested : CompositeIndex) (family : Family) (composite : Composite) (field : Field)
    (reached : SetReached schema root family last) (found : schema.composite last = .ok composite)
    (listed : field ∈ composite.fields) (stored : field.isStored = true) (leads : field.type.composite? = some nested) :
    SetReached schema root (family.nested field.type) nested := by
  obtain ⟨path, walk, context⟩ := reached
  exact ⟨path ++ [field], .step path last nested composite field walk found listed stored leads,
    set_context_step path field family context⟩

theorem stored_path_within (sound : schema.Sound) (root : CompositeIndex) (within : root.index < schema.composites.length)
    (path : List Field) (last : CompositeIndex) (walk : StoredPath schema root path last) :
    last.index < schema.composites.length := by
  cases walk with
  | here => exact within
  | step path last _ composite field _ found listed _ leads =>
      have declared := Schema.composite_mem schema last composite found
      exact refers_composite schema field.type _ (sound.refers composite declared field listed) leads

inductive SetTarget (root : CompositeIndex) : Target → Prop where
  | composite (family : Family) (last : CompositeIndex) (scope : Scope) (reached : SetReached schema root family last)
      (whole : scope.excluded = []) : SetTarget root (.composite family last scope)
  | copy (id : EnumIndex) (of : (Target.enumCopy id).Of schema) : SetTarget root (.enumCopy id)

theorem set_target_of (sound : schema.Sound) (root : CompositeIndex) (within : root.index < schema.composites.length)
    (target : Target) (sets : SetTarget schema root target) : target.Of schema := by
  cases sets with
  | composite family last scope reached _ =>
      obtain ⟨path, walk, _⟩ := reached
      exact (composite_of schema family last scope).mpr (stored_path_within schema sound root within path last walk)
  | copy id of => exact of

theorem set_target_needs (sound : schema.Sound) (root : CompositeIndex) (within : root.index < schema.composites.length)
    (target needed : Target) (sets : SetTarget schema root target) (needs : Needed schema target needed) :
    SetTarget schema root needed := by
  have of := needed_of schema sound target needed (set_target_of schema sound root within target sets) needs
  cases sets with
  | composite family last scope reached whole =>
      obtain ⟨path, _, context⟩ := id reached
      have families := set_context_family path family context
      cases needs with
      | part => simp [IsSetKind] at families
      | field _ _ _ composite field found taken _ inside =>
          obtain ⟨listed, stored, _, _⟩ := taken_field composite family scope field taken
          cases inside with
          | nested nested leads =>
              exact .composite _ nested .nested
                (set_reached_step schema root last nested family composite field reached found listed stored leads) rfl
          | copy id _ _ => exact .copy id of
          | filter leaf _ _ filters => rcases filters with rfl | rfl <;> simp [IsSetKind] at families
          | directions _ sorts => simp [IsSetKind, sorts] at families
      | own _ _ _ composite _ _ member =>
          rcases families with rfl | rfl | rfl <;> cases member
  | copy id _ => cases needs

theorem set_supplied (sound : schema.Sound) (root : CompositeIndex) (within : root.index < schema.composites.length)
    (known : Registry) : Supplied schema (SetTarget schema root) known where
  of := set_target_of schema sound root within
  needs := fun target needs sets listed _ needed member =>
    set_target_needs schema sound root within target needed sets ((needs_iff schema target needs listed needed).mp member)

theorem set_takes (family : Family) (sets : IsSetKind family) (field : Field) :
    family.takes field = true := by
  rcases sets with rfl | rfl | rfl <;> rfl

theorem set_taken (composite : Composite) (family : Family) (scope : Scope) (whole : scope.excluded = [])
    (sets : IsSetKind family) :
    takenFields composite family scope = composite.fields.filter Field.isStored := by
  rw [takenFields, whole, List.filter_eq_self.mpr (fun field _ => set_takes family sets field)]
  simp [Composite.storedFields, Composite.fieldsExcept]

theorem set_own_fields (family : Family) (name : String) (noneTaken : Bool)
    (sets : IsSetKind family) :
    ownFields family name noneTaken = if family = .setListObject then [] else [overwriteField] := by
  rcases sets with rfl | rfl | rfl <;> rfl

theorem set_nested (family : Family) (type : FieldType)
    (sets : IsSetKind family) :
    family.nested type = if family = .setListObject ∨ type.isList = true then .setListObject else .setObject := by
  rcases sets with rfl | rfl | rfl <;> simp [Family.nested]

theorem set_field_derived (family : Family) (scope : Scope) (field : Field) (input : InputValue)
    (sets : IsSetKind family)
    (derived : inputField schema family scope field = .ok input) : SetField schema family field input := by
  obtain ⟨reference, referred, same⟩ := (except_bind_ok _ _ _).mp derived
  have wraps : wrapped family scope field reference = reference.inLists field.type.listDepth := by
    rw [← FieldType.wrap_in_lists]
    rcases sets with rfl | rfl | rfl <;> rfl
  have refers : ∃ name, reference = ⟨name⟩ ∧ SetReference schema family field.type name := by
    unfold fieldReference at referred
    obtain ⟨name, named, rfl⟩ := (except_map_ok _ _ _).mp referred
    refine ⟨name, rfl, ?_⟩
    split at named
    · rename_i id leads
      rw [set_nested family field.type sets] at named
      split at named
      · rename_i inside
        exact .list id name leads inside named
      · rename_i outside
        obtain ⟨out, single⟩ := not_or.mp outside
        exact .object id name leads out (Bool.eq_false_iff.mpr single) named
    · rename_i plain
      refine .leaf name plain ?_
      rcases sets with rfl | rfl | rfl <;> exact named
  obtain ⟨name, rfl, refers⟩ := refers
  cases Except.ok.inj same
  refine ⟨rfl, ⟨name, refers, wraps⟩, ?_, rfl⟩
  rcases sets with rfl | rfl | rfl <;> rfl

theorem set_field_names (family : Family) (fields : List Field) (taken : List InputValue)
    (each : List.Forall₂ (SetField schema family) fields taken) :
    taken.map InputValue.name = fields.map Field.name := by
  induction each with
  | nil => rfl
  | cons first _ ih => rw [List.map_cons, List.map_cons, first.name, ih]

theorem set_shape (family : Family) (id : CompositeIndex) (scope : Scope) (composite : Composite) (object : InputObject)
    (sets : IsSetKind family) (whole : scope.excluded = [])
    (found : schema.composite id = .ok composite) (distinct : (composite.fields.map Field.name).Nodup)
    (unmarked : ∀ field ∈ composite.fields, field.name ≠ Overwrite.marker)
    (defined : (Target.composite family id scope).definition schema = .ok (.object object)) :
    SetShape schema family composite object := by
  have other : family ≠ .update := by rcases sets with rfl | rfl | rfl <;> decide
  obtain ⟨fields, mapped, same⟩ := composite_definition schema family id scope composite _ found other defined
  cases same
  rw [set_own_fields family _ _ sets]
  have each : List.Forall₂ (SetField schema family) (composite.fields.filter Field.isStored) fields := by
    rw [set_taken composite family scope whole sets] at mapped
    exact (except_map_list_each _ _ fields mapped).imp
      (fun field input derived => set_field_derived schema family scope field input sets derived)
  have names := set_field_names schema family _ fields each
  have absent : Overwrite.marker ∉ fields.map InputValue.name := by
    rw [names]
    intro member
    obtain ⟨field, among, same⟩ := List.mem_map.mp member
    exact unmarked field (List.mem_filter.mp among).1 same
  have apart : (fields.map InputValue.name).Nodup :=
    names ▸ distinct.sublist (List.filter_sublist.map Field.name)
  have kept : (InputObject.make (suffixed composite.name family.suffix) none
      (fields ++ if family = .setListObject then [] else [overwriteField])).fields =
        fields ++ if family = .setListObject then [] else [overwriteField] := by
    refine Keyed.collect_distinct InputValue.name _ ?_
    split
    · rw [List.append_nil]
      exact apart
    · rw [List.map_append, List.nodup_append]
      refine ⟨apart, List.pairwise_singleton _ _, ?_⟩
      rintro name member _ own rfl
      cases List.mem_singleton.mp own
      exact absent member
  refine ⟨rfl, rfl, ⟨fields, each, kept⟩, ?_⟩
  rw [kept, List.map_append, List.mem_append]
  by_cases list : family = .setListObject
  · rw [if_pos list]
    exact iff_of_false (fun member => member.elim absent nofun) (fun differs => differs list)
  · rw [if_neg list]
    exact iff_of_true (.inr (List.mem_singleton.mpr rfl)) list

section

variable (sound : schema.Sound) (free : CollisionFree schema) (root : CompositeIndex)
  (within : root.index < schema.composites.length) (registry : Registry)
  (grown : Grows schema (SetTarget schema root) {} registry)

include sound free within grown in
theorem set_entry (family : Family) (last : CompositeIndex) (reached : SetReached schema root family last)
    (registered : Registered schema registry (.composite family last .nested)) :
    ∃ name type scope, compositeName schema family last = .ok name ∧ registry.lookup? name = some type ∧
      scope.excluded = [] ∧ Settled schema (SetTarget schema root) registry name type (.composite family last scope) := by
  have inside := set_target_of schema sound root within _ (.composite family last .nested reached rfl)
  obtain ⟨name, type, built, named, bare, found, settled⟩ := grown_entry schema free _
    (set_target_of schema sound root within) registry grown _ inside registered
  cases built with
  | composite held id scope =>
      simp only [Target.bare, Target.composite.injEq, and_true] at bare
      obtain ⟨rfl, rfl⟩ := bare
      cases settled.allowed with
      | composite _ _ _ _ whole => exact ⟨name, type, scope, named, found, whole, settled⟩
  | _ => cases bare

include sound free within grown in
theorem set_registered (start : Registered schema registry (.composite .set root .nested)) (path : List Field)
    (last : CompositeIndex) (walk : StoredPath schema root path last) :
    ∀ family, SetContext path family → Registered schema registry (.composite family last .nested) := by
  induction walk with
  | here =>
      intro family context
      cases set_context_unique [] .set family rfl context
      exact start
  | step path last nested composite field walk found listed stored leads ih =>
      intro family context
      obtain ⟨before, held⟩ := set_context_exists path
      cases set_context_unique _ _ family (set_context_step path field before held) context
      obtain ⟨name, type, scope, _, _, whole, settled⟩ :=
        set_entry schema sound free root within registry grown before last ⟨path, walk, held⟩ (ih before held)
      obtain ⟨needs, needed⟩ := target_needs schema sound _ (set_target_of schema sound root within _ settled.allowed)
      have taken : field ∈ takenFields composite before scope := by
        rw [set_taken composite before scope whole (set_context_family path before held)]
        exact List.mem_filter.mpr ⟨listed, stored⟩
      exact settled.needs _ needs needed ((needs_iff schema _ needs needed _).mpr
        (.field before last scope composite field found taken _ (.nested nested leads)))

end

-- For every schema read from text whose targets do not share names and which has no field named like the marker, and every
-- composite of it, cyclic or not.
theorem set_derivation_reaches (text : String) (read : Schema.ofText text = .ok schema) (free : CollisionFree schema)
    (unmarked : ∀ composite ∈ schema.composites, ∀ field ∈ composite.fields, field.name ≠ Overwrite.marker)
    (root : CompositeIndex) (within : root.index < schema.composites.length) :
    ∃ name after notices, compositeName schema .set root = .ok name ∧
      Session.call schema {} (.composite .set root []) = (after, notices, .ok (.reference ⟨name⟩)) ∧
      (∀ key object, after.registry.lookup? key = some (.object object) → ∃ family last composite,
        SetReached schema root family last ∧ schema.composite last = .ok composite ∧
        key = suffixed composite.name family.suffix ∧ SetShape schema family composite object) ∧
      ∀ family last, SetReached schema root family last → ∃ composite object, schema.composite last = .ok composite ∧
        after.registry.lookup? (suffixed composite.name family.suffix) = some (.object object) ∧
        SetShape schema family composite object := by
  have sound := Schema.sound_of_text text schema read
  have shape (family : Family) (last : CompositeIndex) (scope : Scope) (composite : Composite) (object : InputObject)
      (reached : SetReached schema root family last) (whole : scope.excluded = [])
      (found : schema.composite last = .ok composite)
      (defined : (Target.composite family last scope).definition schema = .ok (.object object)) :
      SetShape schema family composite object := by
    obtain ⟨path, _, context⟩ := reached
    have declared := Schema.composite_mem schema last composite found
    exact set_shape schema family last scope composite object (set_context_family path family context) whole found
      (sound.distinct composite declared) (unmarked composite declared) defined
  cases call_ends schema sound {} (.composite .set root []) trivial with
  | refused id about outside _ => exact absurd (Option.some.inj about ▸ within) outside
  | answered needs draft answer _ listed met replied result =>
      cases Except.ok.inj listed
      obtain ⟨name, named, same⟩ := (except_bind_ok _ _ _).mp replied
      cases Except.ok.inj same
      have grown : Grows schema (SetTarget schema root) {} draft.registry :=
        met_grows schema _ draft.registry (set_supplied schema sound root within _) _ _ draft met (fun _ held => held)
          (fun target member => by
            cases List.mem_singleton.mp member
            exact .composite .set root (.root []) ⟨[], .here, rfl⟩ rfl)
      refine ⟨name, _, _, named, result, ?_, ?_⟩
      · intro key object found
        rcases grown.added key _ found with none | ⟨target, settled⟩
        · cases none
        · cases settled.allowed with
          | composite family last scope reached whole =>
              obtain ⟨composite, located, same⟩ := (composite_name_ok schema family last key).mp settled.named
              exact ⟨family, last, composite, reached, located, same.symm,
                shape family last scope composite object reached whole located settled.defined⟩
          | copy id _ =>
              obtain ⟨_, _, same⟩ := (except_bind_ok _ _ _).mp settled.defined
              cases Except.ok.inj same
      · intro family last reached
        obtain ⟨path, walk, context⟩ := id reached
        have start : Registered schema draft.registry (.composite .set root .nested) :=
          registered_bare schema _ (.composite .set root (.root [])) _ rfl
            (met_registers schema _ _ draft met _ (List.mem_singleton.mpr rfl))
        obtain ⟨key, type, scope, called, found, whole, settled⟩ := set_entry schema sound free root within draft.registry
          grown family last reached (set_registered schema sound free root within draft.registry grown start path last walk
            family context)
        obtain ⟨composite, located, rfl⟩ := (composite_name_ok schema family last key).mp called
        cases type with
        | object object =>
            exact ⟨composite, object, located, found,
              shape family last scope composite object reached whole located settled.defined⟩
        | enum _ =>
            obtain ⟨_, _, later⟩ := (except_bind_ok _ _ _).mp settled.defined
            obtain ⟨_, _, same⟩ := (except_bind_ok _ _ _).mp later
            cases Except.ok.inj same

def friendsField : Field := { name := "friends", type := .nonNull (.list (.nonNull (.named (.composite .object ⟨0⟩)))) }

def homeField : Field := { name := "home", type := .named (.composite .object ⟨1⟩) }

theorem person_set_reaches : Schema.ofText peopleText = .ok people ∧ CollisionFree people ∧
    ∃ after notices, Session.call people {} (.composite .set ⟨0⟩ []) = (after, notices, .ok (.reference ⟨"PersonSetType"⟩)) ∧
      (∃ object, after.registry.lookup? "PlaceSetListObjectType" = some (.object object) ∧
        Overwrite.marker ∉ object.fields.map InputValue.name) ∧
      ∃ object, after.registry.lookup? "PlaceSetObjectType" = some (.object object) ∧
        Overwrite.marker ∈ object.fields.map InputValue.name := by
  have read : Schema.ofText peopleText = .ok people := by decide +kernel
  have free : CollisionFree people := by decide +kernel
  obtain ⟨name, after, notices, named, called, _, registers⟩ :=
    set_derivation_reaches people peopleText read free (by decide) ⟨0⟩ (by decide)
  cases named
  have home : StoredPath people ⟨0⟩ [homeField] ⟨1⟩ := .step [] ⟨0⟩ ⟨1⟩ _ homeField .here rfl (by decide) rfl rfl
  have friends : StoredPath people ⟨0⟩ [friendsField] ⟨0⟩ := .step [] ⟨0⟩ ⟨0⟩ _ friendsField .here rfl (by decide) rfl rfl
  have theirs : StoredPath people ⟨0⟩ [friendsField, homeField] ⟨1⟩ :=
    .step [friendsField] ⟨0⟩ ⟨1⟩ _ homeField friends rfl (by decide) rfl rfl
  obtain ⟨_, listed, found, inList, listShape⟩ := registers .setListObject ⟨1⟩ ⟨_, theirs, friendsField, by decide, rfl⟩
  obtain ⟨_, single, again, alone, shape⟩ := registers .setObject ⟨1⟩ ⟨_, home, by decide, by decide⟩
  cases found
  cases again
  exact ⟨read, free, after, notices, called, ⟨listed, inList, fun member => listShape.marked.mp member rfl⟩,
    single, alone, shape.marked.mpr (by decide)⟩

end Derivation

end DocGraph
