import DocGraph.Proofs.Update.Validated

set_option autoImplicit false

namespace DocGraph.Update

variable (schema : Schema) (names : schema.HasPlainNames) (fits : FieldType → Json → Prop)
  (closed : StoredOnly schema fits)

include closed in
theorem fits_object (type : FieldType) (nested : CompositeIndex) (object : Members)
    (leads : type.composite? = some nested) (fit : fits type (.obj object)) :
    type.isList = false ∧ ∃ kind, fits (.named (.composite kind nested)) (.obj object) := by
  induction type with
  | named type =>
      cases type with
      | composite kind id =>
          cases leads
          exact ⟨rfl, kind, fit⟩
      | _ => cases leads
  | nonNull of ih => exact ih leads (closed.nonNull of _ fit)
  | list of ih => exact absurd fit (closed.list of object nested leads)

include names in
theorem valid_not_extended (depth : Nat) (object : Members) (type : CompositeIndex) (path : String) (mode : WriteMode)
    (deep : (Json.obj object).depth ≤ depth)
    (valid : violationsAt schema Field.isComputed depth [object] type path mode = .ok []) : isExtended object = false := by
  cases depth with
  | zero => exact absurd deep (Nat.not_succ_le_zero _)
  | succ depth =>
      obtain ⟨composite, found, passes⟩ := passes_of_valid schema depth object type path mode valid
      cases object with
      | nil => rfl
      | cons entry rest =>
          rcases entry with ⟨key, value⟩
          cases rest with
          | cons _ _ => rfl
          | nil =>
              by_cases marks : key = Overwrite.marker
              · subst marks
                rfl
              · obtain ⟨field, declared⟩ := passes.declared key value (if_pos rfl) marks
                have plain := Schema.plain_field_name schema names composite (Schema.composite_mem schema type composite found)
                  key field declared
                simpa [isExtended] using plain.2

theorem replaces_passed_on (loose strict : Bool) (stricter : loose = true → strict = true) (flag : Option Bool)
    (replaces : (WriteMode.passedOn loose).replaces flag = true) : (WriteMode.passedOn strict).replaces flag = true := by
  cases strict with
  | true => rfl
  | false =>
      cases loose with
      | true => cases stricter rfl
      | false => exact replaces

structure Stands (depth : Nat) (object : Members) (path : String) (mode : WriteMode) (composite : Composite)
    (key : String) (field : Field) (value : Json) : Prop where
  passes : Passes schema depth object path mode composite
  given : Members.get? key object = some value
  plain : key ≠ Overwrite.marker
  declared : composite.field? key = some field
  segment : DotPath.IsSegment key
  stored : field.isStored = true
  fit : fits field.type value
  deep : value.depth ≤ depth

section

variable (depth : Nat) (object : Members) (path : String) (mode : WriteMode) (composite : Composite) (key : String)
  (field : Field)

include closed in
theorem stands_object (nested : CompositeIndex) (child : Members)
    (stands : Stands schema fits depth object path mode composite key field (.obj child))
    (leads : field.type.composite? = some nested) :
    field.type.isList = false ∧ (∃ kind, fits (.named (.composite kind nested)) (.obj child)) ∧
      violationsAt schema Field.isComputed depth [child] nested (DotPath.under path key)
        (WriteMode.passedOn (mode.replaces (Overwrite.flag? object))) = .ok [] := by
  obtain ⟨single, kind⟩ := fits_object schema fits closed field.type nested child leads stands.fit
  exact ⟨single, kind, stands.passes.objects key field nested child stands.given stands.plain stands.declared stands.stored
    leads single⟩

include names closed

theorem whole_member_complete (value : Json) (stands : Stands schema fits depth object path mode composite key field value)
    (whole : setWhole value = true) (listed : Bool) (type : CompositeIndex) (inner : Members)
    (position : ObjectAt schema field.type value listed type inner) : Complete schema listed type inner := by
  apply complete_widen
  refine (checked_whole schema names fits closed field.type value listed type inner position depth
    (DotPath.under path key) (DotPath.under_ne_empty path key stands.segment.1) stands.deep stands.fit ?_).complete
  intro nested child leads inside
  rcases object_at_holder schema field.type value listed type inner position with ⟨other, rfl⟩ | ⟨lists, _, rfl⟩
  · obtain ⟨_, _, checked⟩ :=
      stands_object schema fits closed depth object path mode composite key field nested other stands leads
    have opened := valid_not_extended schema names depth other nested _ _ stands.deep checked
    cases opened.symm.trans whole
  · exact stands.passes.elements key _ field nested child stands.given stands.plain stands.declared stands.stored leads lists
      rfl inside

theorem replaced_member_complete (child : Members) (replaces : Bool)
    (stands : Stands schema fits depth object path mode composite key field (.obj child))
    (stricter : replaces = true → mode.replaces (Overwrite.flag? object) = true)
    (nests : (WriteMode.passedOn replaces).replaces (Overwrite.flag? child) = true) (listed : Bool)
    (type : CompositeIndex) (inner : Members)
    (position : ObjectAt schema field.type (unmarked (.obj child)) listed type inner) : Complete schema listed type inner := by
  obtain ⟨original, position, shape⟩ :=
    unmarked_positions schema field.type (.obj child) _ listed type inner rfl position
  refine unmarked_complete schema listed type original inner shape ?_
  refine (checked_whole schema names fits closed field.type (.obj child) listed type original position depth
    (DotPath.under path key) (DotPath.under_ne_empty path key stands.segment.1) stands.deep stands.fit ?_).complete
  intro nested other leads inside
  obtain ⟨single, _, checked⟩ :=
    stands_object schema fits closed depth object path mode composite key field nested child stands leads
  rw [innermost_plain field.type _ single, List.mem_singleton, Json.obj.injEq] at inside
  subst other
  exact valid_of_replacing schema depth child nested _ _
    (replaces_passed_on replaces _ stricter (Overwrite.flag? child) nests) checked

end

theorem stored_at_segment (id : CompositeIndex) (composite : Composite) (key : String) (through field : Field)
    (segment : DotPath.IsSegment key) (found : schema.composite id = .ok composite)
    (declared : composite.field? key = some through) (position : StoredAt schema id (DotPath.segments key) field) :
    field = through := by
  rw [DotPath.segments_segment key segment] at position
  obtain ⟨other, same, again, named, _, ⟨_, whole⟩ | ⟨nested, _, later⟩⟩ := stored_at_cons schema id key [] field position
  · cases again.symm.trans found
    cases named.symm.trans declared
    exact whole.symm
  · exact absurd later (stored_at_some schema nested field)

theorem stored_at_under (id : CompositeIndex) (composite : Composite) (key path : String) (through field : Field)
    (segment : DotPath.IsSegment key) (found : schema.composite id = .ok composite)
    (declared : composite.field? key = some through)
    (position : StoredAt schema id (DotPath.segments (DotPath.under key path)) field) :
    ∃ nested, through.type.composite? = some nested ∧ StoredAt schema nested (DotPath.segments path) field := by
  rw [DotPath.segments_under_segment key path segment] at position
  obtain ⟨other, same, again, named, _, ⟨none, _⟩ | deeper⟩ := stored_at_cons schema id key _ field position
  · exact absurd none (DotPath.segments_ne_nil path)
  · cases again.symm.trans found
    cases named.symm.trans declared
    exact deeper

include names closed

theorem set_members_complete (depth : Nat) : ∀ (kind : CompositeKind) (object : Members) (id : CompositeIndex)
    (path place : String) (mode : WriteMode) (replaces : Bool) (entries : Members),
    (Json.obj object).depth ≤ depth → fits (.named (.composite kind id)) (.obj object) → Json.UniqueKeys (.obj object) →
    violationsAt schema Field.isComputed depth [object] id path mode = .ok [] →
    (replaces = true → mode.replaces (Overwrite.flag? object) = true) →
    setMembers (WriteMode.passedOn replaces) place object = .ok entries →
    ∀ entry ∈ entries, ∀ field, StoredAt schema id (DotPath.segments entry.1) field →
      (¬ (path = "" ∧ entry.1 = "_id") → field.type.Respected entry.2) ∧
      ∀ listed type inner, ObjectAt schema field.type entry.2 listed type inner → Complete schema listed type inner := by
  induction depth with
  | zero => exact fun _ _ _ _ _ _ _ _ deep => absurd deep (Nat.not_succ_le_zero _)
  | succ depth ih =>
      intro kind object id path place mode replaces entries deep fit unique valid stricter written entry member field position
      obtain ⟨composite, found, passes⟩ := passes_of_valid schema depth object id path mode valid
      obtain ⟨key, value, first, held, plain, here, inside⟩ :=
        set_members_entry (WriteMode.passedOn replaces) place object entries written entry member
      have given := Members.get?_of_mem key value object unique.1 held
      obtain ⟨through, declared⟩ := passes.declared key value given plain
      have segment := (Schema.plain_field_name schema names composite (Schema.composite_mem schema id composite found)
        key through declared).1
      obtain ⟨stored, suits⟩ := closed.member kind id object composite key through value fit found declared given plain
      have stands : Stands schema fits depth object path mode composite key through value :=
        ⟨passes, given, plain, declared, segment, stored, suits,
          Nat.le_trans (Json.member_depth key value object held) (Nat.le_of_succ_le_succ deep)⟩
      by_cases whole : setWhole value = true
      · rw [set_value_whole _ place key value whole] at here
        cases Except.ok.inj here
        cases List.mem_singleton.mp inside
        cases stored_at_segment schema id composite key through field segment found declared position
        obtain ⟨named, listed⟩ := Composite.name_of_field?_eq_some declared
        exact ⟨fun checked => field_respected object path _ field (passes.own field listed) value (named ▸ given)
          (named ▸ checked), whole_member_complete schema names fits closed depth object path mode composite key field
            value stands whole⟩
      · cases value with
        | obj child =>
            have opened : isExtended child = false := Bool.eq_false_iff.mpr whole
            have different := Json.members_unique_mem object key (.obj child) unique.2 held
            by_cases nests : (WriteMode.passedOn replaces).replaces (Overwrite.flag? child) = true
            · rw [set_value_replaced _ place key child first opened different nests here, ← unmarked_opened child opened] at inside
              cases List.mem_singleton.mp inside
              cases stored_at_segment schema id composite key through field segment found declared position
              exact ⟨fun _ => unmarked_opened child opened ▸ respected_object field.type _, replaced_member_complete schema names
                fits closed depth object path mode composite key field child replaces stands stricter nests⟩
            · obtain ⟨inner, compiled, rfl⟩ := set_value_object _ place key child first opened here
              rw [nested, if_neg nests] at inside
              obtain ⟨deeper, member', rfl⟩ := List.mem_map.mp inside
              obtain ⟨nested, leads, later⟩ :=
                stored_at_under schema id composite key deeper.1 through field segment found declared position
              obtain ⟨_, ⟨kind', fit'⟩, checked⟩ :=
                stands_object schema fits closed depth object path mode composite key through nested child stands leads
              rw [Bool.eq_false_iff.mpr nests] at compiled
              have result := ih kind' child nested (DotPath.under path key) (DotPath.under place key) _ false inner
                stands.deep fit' different checked (fun no => nomatch no) compiled deeper member' field later
              exact ⟨fun _ => result.1 (fun root => DotPath.under_ne_empty path key segment.1 root.1), result.2⟩
        | _ => exact absurd rfl whole

end DocGraph.Update
