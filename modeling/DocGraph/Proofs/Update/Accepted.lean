import DocGraph.Proofs.Operation.Update
import DocGraph.Proofs.Update.Layouts

set_option autoImplicit false

namespace DocGraph

def Schema.LeavesReserved (schema : Schema) : Prop :=
  ∀ composite ∈ schema.composites, ∀ field ∈ composite.fields,
    field.name ≠ Overwrite.marker ∧ field.name ≠ Update.incPlaceholder

instance (schema : Schema) : Decidable schema.LeavesReserved :=
  inferInstanceAs (Decidable (∀ composite ∈ schema.composites, ∀ field ∈ composite.fields, _))

namespace Update

open DocGraph.Derivation

def ObjectFree (value : Json) : Prop := ∀ object, ¬ Json.ObjectIn value object

theorem not_object_free (object : Members) : ¬ ObjectFree (.obj object) := fun free => free object (.self object)

theorem leaf_not_object (type : NamedType) (object : Members) : ¬ LeafHolds ObjectFree type (.obj object) := by
  intro holds
  cases type with
  | scalar scalar =>
      cases scalar with
      | custom name => exact not_object_free object holds
      | _ => cases holds
  | enum id =>
      obtain ⟨_, other⟩ := holds
      cases other
  | composite kind id => cases holds

theorem members_readable (object : Members)
    (each : ∀ key value, (key, value) ∈ object → key = Overwrite.marker ∨ readable value = true) :
    membersReadable object = true := by
  induction object with
  | nil => rfl
  | cons entry rest ih =>
      rcases entry with ⟨key, value⟩
      simp only [membersReadable, Bool.and_eq_true, Bool.or_eq_true, beq_iff_eq]
      exact ⟨each key value (List.mem_cons_self ..), ih (fun name held member => each name held (List.mem_cons_of_mem _ member))⟩

variable (schema : Schema) {part : Family} {own : Option String}

theorem reserved_key (reserved : schema.LeavesReserved) (id : CompositeIndex) (composite : Composite) (key : String)
    (field : Field) (found : schema.composite id = .ok composite) (declared : composite.field? key = some field) :
    key ≠ Overwrite.marker ∧ key ≠ incPlaceholder := by
  obtain ⟨rfl, listed⟩ := Composite.name_of_field?_eq_some declared
  exact reserved composite (Schema.composite_mem schema id composite found) field listed

abbrev Plain (part : Family) (own : Option String) (type : FieldType) (value : Json) : Prop :=
  Shaped schema part ObjectFree (fun value => Overwrite.isFlag value = true) own type value

theorem shaped_opened (names : schema.HasPlainNames) (kind : CompositeKind) (id : CompositeIndex) (object : Members)
    (shaped : Plain schema part own (.named (.composite kind id)) (.obj object))
    (marker : own = none ∨ own = some Overwrite.marker) : isExtended object = false := by
  obtain ⟨composite, found, members⟩ := shaped_members kind id object shaped
  cases object with
  | nil => rfl
  | cons entry rest =>
      rcases entry with ⟨key, value⟩
      have member : (key, value) ∈ (key, value) :: rest := List.mem_cons_self ..
      refine opened_of_plain key value _ member ?_
      by_cases mine : own = some key
      · rcases marker with none | marks
        · cases none.symm.trans mine
        · cases marks.symm.trans mine
          decide
      · obtain ⟨field, declared, _⟩ := members.fields key value member mine
        exact Schema.plain_field_name schema names composite (Schema.composite_mem schema id composite found) key field declared

section

variable (reserved : schema.LeavesReserved)

include reserved

theorem object_readable (kind : CompositeKind) (id : CompositeIndex) (object : Members)
    (shaped : Plain schema part own (.named (.composite kind id)) (.obj object)) : Overwrite.readable object = true := by
  obtain ⟨composite, found, members⟩ := shaped_members kind id object shaped
  unfold Overwrite.readable
  cases given : Members.get? Overwrite.marker object with
  | none => rfl
  | some value =>
      have member := Members.mem_of_get? Overwrite.marker value object given
      by_cases mine : own = some Overwrite.marker
      · exact members.marked mine value member
      · obtain ⟨field, declared, _⟩ := members.fields Overwrite.marker value member mine
        exact absurd rfl (reserved_key schema reserved id composite _ field found declared).1

theorem shaped_readable (type : FieldType) (value : Json) (shaped : Plain schema part (some Overwrite.marker) type value) :
    readable value = true := by
  generalize mine : some Overwrite.marker = own at shaped
  induction shaped with
  | null => rfl
  | nonNull own of value shaped ih => exact ih mine
  | list => rfl
  | leaf own type value holds =>
      cases value with
      | obj object => exact absurd holds (leaf_not_object type object)
      | _ => rfl
  | object own kind id composite object found distinct marked declared fields ih =>
      have flag := object_readable schema reserved kind id object
        (.object own kind id composite object found distinct marked declared fields)
      have inside : membersReadable object = true := by
        refine members_readable object ?_
        intro key value member
        by_cases marks : key = Overwrite.marker
        · exact .inl marks
        · have other : own ≠ some key := by
            rw [← mine]
            exact fun same => marks (Option.some.inj same).symm
          obtain ⟨field, known, _⟩ := declared key (Members.mem_keys_of_mem key value object member) other
          exact .inr (ih key value field member other known mine)
      rw [readable, flag, inside]
      simp

theorem set_document_succeeds (names : schema.HasPlainNames) (kind : CompositeKind) (id : CompositeIndex) (object : Members)
    (mode : WriteMode) (place : String)
    (shaped : Plain schema part (some Overwrite.marker) (.named (.composite kind id)) (.obj object)) :
    ∃ document, setDocument mode place object = .ok document := by
  have reads := shaped_readable schema reserved _ _ shaped
  rw [readable, shaped_opened schema names kind id object shaped (.inr rfl), Bool.false_or, Bool.and_eq_true] at reads
  obtain ⟨entries, written⟩ :=
    set_members_succeeds (WriteMode.passedOn (mode.replaces (Overwrite.flag? object))) place object reads.2
  refine ⟨Members.ofEntries entries, ?_⟩
  rw [setDocument, Overwrite.explicit_readable object place reads.1]
  exact (except_bind_ok _ _ _).mpr ⟨_, rfl, (except_bind_ok _ _ _).mpr ⟨entries, written, rfl⟩⟩

end

theorem inc_value_succeeds {custom marks : Json → Prop} (type : FieldType) (value : Json)
    (shaped : Shaped schema .inc custom marks (some incPlaceholder) type value) (single : type.isList = false)
    (counts : type.composite?.isSome = true ∨ type.isNumeric = true) : ∀ place, ∃ entries, incValue place value = .ok entries := by
  generalize mine : some incPlaceholder = own at shaped
  induction shaped with
  | null => exact fun place => ⟨[], rfl⟩
  | nonNull own of value shaped ih => exact ih single counts mine
  | list => cases single
  | leaf own type value holds =>
      intro place
      cases type with
      | scalar scalar =>
          have numeric : scalar.isNumeric = true := by
            rcases counts with leads | numeric
            · cases leads
            · exact numeric
          cases scalar with
          | int | float =>
              cases value with
              | num number => exact ⟨[(place, .num number)], rfl⟩
              | _ => cases holds
          | _ => cases numeric
      | enum id =>
          rcases counts with leads | numeric
          · cases leads
          · cases numeric
      | composite kind id => cases holds
  | object own kind id composite object found distinct marked declared fields ih =>
      intro place
      rw [incValue, inc_members_joined]
      apply join_members_succeeds
      intro key value member plain
      have other : own ≠ some key := by
        rw [← mine]
        exact fun same => plain (Option.some.inj same).symm
      obtain ⟨field, known, _, takes⟩ := declared key (Members.mem_keys_of_mem key value object member) other
      rw [Family.takes, Bool.and_eq_true, Bool.not_eq_true', Bool.or_eq_true] at takes
      exact ih key value field member other known takes.1 takes.2 mine (DotPath.under place key)

theorem inc_document_succeeds {custom marks : Json → Prop} (kind : CompositeKind) (id : CompositeIndex) (object : Members)
    (shaped : Shaped schema .inc custom marks (some incPlaceholder) (.named (.composite kind id)) (.obj object)) :
    ∃ document, incDocument object = .ok document := by
  obtain ⟨entries, written⟩ := inc_value_succeeds schema _ _ shaped rfl (.inl rfl) ""
  rw [incValue] at written
  exact ⟨Members.ofEntries entries, (except_bind_ok _ _ _).mpr ⟨entries, written, rfl⟩⟩

def Writes (type : FieldType) (value : Json) : Prop :=
  ∃ part own, (own = none ∨ own = some Overwrite.marker) ∧ Plain schema part own type value

theorem writes_element (of : FieldType) (elements : List Json) (element : Json) (member : element ∈ elements)
    (writes : Writes schema (.list of) (.arr elements)) : Writes schema of element := by
  obtain ⟨part, own, _, shaped⟩ := writes
  exact ⟨part, none, .inl rfl, shaped_element of elements element member shaped⟩

theorem writes_list (of : FieldType) (value : Json) (writes : Writes schema (.list of) value) :
    value = .null ∨ ∃ elements, value = .arr elements := by
  obtain ⟨part, own, _, shaped⟩ := writes
  cases shaped with
  | null => exact .inl rfl
  | list _ _ elements _ => exact .inr ⟨elements, rfl⟩

theorem writes_non_null (of : FieldType) (value : Json) (writes : Writes schema (.nonNull of) value) : Writes schema of value := by
  obtain ⟨part, own, marker, shaped⟩ := writes
  cases shaped with
  | null => exact ⟨part, own, marker, .null own of⟩
  | nonNull _ _ _ shaped => exact ⟨part, own, marker, shaped⟩

theorem writes_innermost (type : FieldType) (values : List Json) (writes : ∀ value ∈ values, Writes schema type value) :
    ∀ element ∈ innermostElements type values, Writes schema (.named type.innermost) element := by
  induction type generalizing values with
  | named type => exact writes
  | nonNull of ih => exact ih values (fun value member => writes_non_null schema of value (writes value member))
  | list of ih =>
      refine ih _ (fun element opened => ?_)
      obtain ⟨value, member, inside⟩ := List.mem_flatMap.mp (List.mem_filter.mp opened).1
      rcases writes_list schema of value (writes value member) with rfl | ⟨elements, rfl⟩
      · cases inside
      · exact writes_element schema of elements element inside (writes _ member)

def ObjectWrites (id : CompositeIndex) (object : Members) : Prop :=
  ∃ kind, Writes schema (.named (.composite kind id)) (.obj object)

theorem writes_member (id : CompositeIndex) (object : Members) (composite : Composite) (key : String) (value : Json)
    (writes : ObjectWrites schema id object) (found : schema.composite id = .ok composite) (member : (key, value) ∈ object)
    (plain : key ≠ Overwrite.marker) : ∃ field, composite.field? key = some field ∧ Writes schema field.type value := by
  obtain ⟨kind, part, own, marker, shaped⟩ := writes
  obtain ⟨other, again, members⟩ := shaped_members kind id object shaped
  cases found.symm.trans again
  have different : own ≠ some key := by
    rcases marker with rfl | rfl
    · nofun
    · exact fun same => plain (Option.some.inj same).symm
  obtain ⟨field, declared, _, _, below⟩ := members.fields key value member different
  exact ⟨field, declared, part, own, marker, below⟩

theorem writes_object (type : FieldType) (nested : CompositeIndex) (object : Members) (leads : type.composite? = some nested)
    (writes : Writes schema type (.obj object)) : ObjectWrites schema nested object := by
  obtain ⟨part, own, marker, shaped⟩ := writes
  obtain ⟨_, ⟨⟨name, innermost⟩, _⟩ | ⟨kind, id, innermost, shaped⟩⟩ := shaped_object type object shaped
  · rw [FieldType.composite?, innermost] at leads
    cases leads
  · rw [FieldType.composite?, innermost] at leads
    cases leads
    exact ⟨kind, part, own, marker, shaped⟩

theorem first_explicit_succeeds (path : String) (objects : List Members)
    (reads : ∀ object ∈ objects, Overwrite.readable object = true) :
    ∃ flag, Overwrite.firstExplicit path objects = .ok flag := by
  induction objects with
  | nil => exact ⟨none, rfl⟩
  | cons object rest ih =>
      obtain ⟨flag, later⟩ := ih (fun other member => reads other (List.mem_cons_of_mem object member))
      have here := Overwrite.explicit_readable object path (reads object (List.mem_cons_self ..))
      cases own : Overwrite.flag? object with
      | none => exact ⟨flag, (except_bind_ok _ _ _).mpr ⟨none, own ▸ here, later⟩⟩
      | some value => exact ⟨some value, (except_bind_ok _ _ _).mpr ⟨some value, own ▸ here, rfl⟩⟩

theorem object_of_members (values : List Json) (object : Members) (member : object ∈ values.filterMap Json.members?) :
    Json.obj object ∈ values := by
  obtain ⟨value, listed, same⟩ := List.mem_filterMap.mp member
  cases value with
  | obj held =>
      cases same
      exact listed
  | _ => cases same

variable (sound : schema.Sound) (reserved : schema.LeavesReserved)

include sound in
theorem violations_below_succeed
    (check : List Members → CompositeIndex → String → WriteMode → Except Error (List Violation))
    (succeeds : ∀ objects id path mode, id.index < schema.composites.length →
      (∀ object ∈ objects, ObjectWrites schema id object) → ∃ found, check objects id path mode = .ok found)
    (composite : Composite) (id : CompositeIndex) (objects : List Members) (path : String) (mode : WriteMode) (key : String)
    (found : schema.composite id = .ok composite) (writes : ∀ object ∈ objects, ObjectWrites schema id object)
    (written : key ∈ writtenKeys objects) :
    ∃ below, violationsBelow check Field.isComputed composite objects path mode key = .ok below := by
  obtain ⟨listed, plain⟩ := List.mem_filter.mp ((mem_firsts key _).mp written)
  have unmarked : key ≠ Overwrite.marker := by simpa using plain
  obtain ⟨object, member, among⟩ := List.mem_flatMap.mp listed
  obtain ⟨value, held⟩ := Members.exists_of_mem_keys key object among
  obtain ⟨field, declared, _⟩ := writes_member schema id object composite key value (writes object member) found held unmarked
  have values : ∀ value ∈ valuesOf objects key, Writes schema field.type value := by
    intro value given
    obtain ⟨holder, listed, got⟩ := List.mem_filterMap.mp given
    obtain ⟨other, again, fits⟩ := writes_member schema id holder composite key value (writes holder listed) found
      (Members.mem_of_get? key value holder got) unmarked
    cases declared.symm.trans again
    exact fits
  have present : ∀ value ∈ (valuesOf objects key).filter (fun value => !value.isNull), Writes schema field.type value :=
    fun value kept => values value (List.mem_filter.mp kept).1
  unfold violationsBelow
  simp only [(Composite.field_ok composite key field).mpr declared, bind, Except.bind]
  split
  · exact ⟨[], rfl⟩
  · rename_i nested leads
    have within := refers_composite schema field.type nested
      (sound.refers composite (Schema.composite_mem schema id composite found) field
        (Composite.name_of_field?_eq_some declared).2) leads
    split
    · exact ⟨[], rfl⟩
    · split
      · obtain ⟨each, checked⟩ := except_map_list_succeeds
          ((innermostElements field.type ((valuesOf objects key).filter (fun value => !value.isNull))).filterMap Json.members?)
          (fun element => check [element] nested (DotPath.under path key) .replace) (fun element member => by
            have inside := writes_innermost schema field.type _ present _ (object_of_members _ element member)
            refine succeeds [element] nested _ _ within (fun object single => ?_)
            cases List.mem_singleton.mp single
            exact writes_object schema (.named field.type.innermost) nested element leads inside)
        exact ⟨each.flatten, by rw [checked]; rfl⟩
      · refine succeeds _ nested _ _ within (fun object member => ?_)
        exact writes_object schema field.type nested object leads (present _ (object_of_members _ object member))

include sound reserved in
theorem violations_succeed (depth : Nat) : ∀ (objects : List Members) (id : CompositeIndex) (path : String) (mode : WriteMode),
    id.index < schema.composites.length → (∀ object ∈ objects, ObjectWrites schema id object) →
    ∃ found, violationsAt schema Field.isComputed depth objects id path mode = .ok found := by
  induction depth with
  | zero => exact fun _ _ _ _ _ _ => ⟨[], rfl⟩
  | succ depth ih =>
      intro objects id path mode within writes
      have found := (Schema.composite_ok schema id _).mpr (List.getElem?_eq_getElem within)
      obtain ⟨flag, first⟩ := first_explicit_succeeds path objects (fun object member => by
        obtain ⟨kind, part, own, _, shaped⟩ := writes object member
        exact object_readable schema reserved kind id object shaped)
      obtain ⟨below, checked⟩ := except_map_list_succeeds (writtenKeys objects)
        (violationsBelow (violationsAt schema Field.isComputed depth) Field.isComputed _ objects path
          (WriteMode.passedOn (mode.replaces flag)))
        (fun key written => violations_below_succeed schema sound _ ih _ id objects path _ key found writes written)
      exact ⟨_, (except_bind_ok _ _ _).mpr ⟨flag, first, (except_bind_ok _ _ _).mpr ⟨_, found,
        (except_bind_ok _ _ _).mpr ⟨below, checked, rfl⟩⟩⟩⟩

end Update

end DocGraph
