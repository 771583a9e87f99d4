import DocGraph.Proofs.Update.Strictness

set_option autoImplicit false

namespace DocGraph.Update

inductive CompositeAt (schema : Schema) (skipped : FieldTest) (type : CompositeIndex) :
    List String → CompositeIndex → Prop where
  | root : CompositeAt schema skipped type [] type
  | under (keys : List String) (key : String) (id nested : CompositeIndex) (composite : Composite) (field : Field)
      (above : CompositeAt schema skipped type keys id) (found : schema.composite id = .ok composite)
      (declared : composite.field? key = some field) (walked : skipped field = false)
      (leads : field.type.composite? = some nested) : CompositeAt schema skipped type (keys ++ [key]) nested

def FieldAt (schema : Schema) (skipped : FieldTest) (type : CompositeIndex) (keys : List String) (field : Field) : Prop :=
  ∃ id composite, CompositeAt schema skipped type keys id ∧ schema.composite id = .ok composite ∧ field ∈ composite.fields

theorem composite_at_unskipped (schema : Schema) (skipped : FieldTest) (type id : CompositeIndex) (keys : List String)
    (position : CompositeAt schema skipped type keys id) : CompositeAt schema (fun _ => false) type keys id := by
  induction position with
  | root => exact .root
  | under keys key id nested composite field _ found declared _ leads ih =>
      exact .under keys key id nested composite field ih found declared rfl leads

theorem composite_at_snoc (schema : Schema) (skipped : FieldTest) (type nested : CompositeIndex) (keys : List String)
    (key : String) (position : CompositeAt schema skipped type (keys ++ [key]) nested) :
    ∃ id composite field, CompositeAt schema skipped type keys id ∧ schema.composite id = .ok composite ∧
      composite.field? key = some field ∧ field.type.composite? = some nested := by
  generalize whole : keys ++ [key] = all at position
  cases position with
  | root => exact absurd whole (by simp)
  | under front last id _ composite field above found declared _ leads =>
      obtain ⟨rfl, last⟩ := List.append_inj' whole rfl
      cases last
      exact ⟨id, composite, field, above, found, declared, leads⟩

theorem composite_at_unique (schema : Schema) (skipped : FieldTest) (type first second : CompositeIndex)
    (keys : List String) (one : CompositeAt schema skipped type keys first)
    (other : CompositeAt schema skipped type keys second) : first = second := by
  induction one generalizing second with
  | root =>
      generalize none : ([] : List String) = keys at other
      cases other with
      | root => rfl
      | under => exact absurd none (by simp)
  | under keys key id nested composite field _ found declared _ leads ih =>
      obtain ⟨id', composite', field', above, found', declared', leads'⟩ :=
        composite_at_snoc schema skipped type second keys key other
      cases ih id' above
      cases found.symm.trans found'
      cases declared.symm.trans declared'
      exact Option.some.inj (leads.symm.trans leads')

theorem field_at_spells (schema : Schema) (names : schema.HasPlainNames) (skipped : FieldTest) (type : CompositeIndex)
    (keys : List String) (field : Field) (position : FieldAt schema skipped type keys field) :
    DotPath.Spells (DotPath.under (DotPath.ofKeys keys) field.name) (keys ++ [field.name]) := by
  obtain ⟨id, composite, above, found, declared⟩ := position
  have segments : ∀ key ∈ keys, DotPath.IsSegment key := by
    clear found
    induction above with
    | root => nofun
    | under front key id _ composite field _ found declared _ _ ih =>
        intro other member
        rcases List.mem_append.mp member with earlier | last
        · exact ih other earlier
        · cases List.mem_singleton.mp last
          exact (Schema.plain_field_name schema names composite (Schema.composite_mem schema id composite found) key field
            declared).1
  have last := (names composite (Schema.composite_mem schema id composite found) field declared).1
  rw [← DotPath.of_keys_snoc]
  refine DotPath.spells_of_keys _ (fun key member => ?_)
  rcases List.mem_append.mp member with earlier | single
  · exact segments key earlier
  · exact List.mem_singleton.mp single ▸ last

theorem field_at_unique (schema : Schema) (sound : schema.Sound) (names : schema.HasPlainNames) (first second : FieldTest)
    (type : CompositeIndex) (keys others : List String) (field other : Field) (position : FieldAt schema first type keys field)
    (place : FieldAt schema second type others other)
    (same : DotPath.under (DotPath.ofKeys keys) field.name = DotPath.under (DotPath.ofKeys others) other.name) :
    others = keys ∧ other = field := by
  have spelled := field_at_spells schema names second type others other place
  rw [← same] at spelled
  have whole := DotPath.spells_unique _ _ _ spelled (field_at_spells schema names first type keys field position)
  obtain ⟨rfl, named⟩ := List.append_inj' whole rfl
  obtain ⟨id, composite, above, found, declared⟩ := position
  obtain ⟨id', composite', above', found', declared'⟩ := place
  cases composite_at_unique schema (fun _ => false) type id id' _ (composite_at_unskipped schema first type id _ above)
    (composite_at_unskipped schema second type id' _ above')
  cases found.symm.trans found'
  have distinct := sound.distinct composite (Schema.composite_mem schema id composite found)
  have located := Composite.field_of_mem composite other distinct declared'
  rw [(List.singleton_inj.mp named), Composite.field_of_mem composite field distinct declared] at located
  exact ⟨rfl, (Option.some.inj located).symm⟩

section

variable (schema : Schema) (computed : FieldTest) (update : Members) (overwrite : Bool) (type : CompositeIndex)

-- The objects that the check comes to together after these keys, the composite they stand for, and the mode that they
-- inherit.
inductive Visited : List String → List Members → CompositeIndex → WriteMode → Prop where
  | root : Visited [] (writtenObjects update) type (rootMode update overwrite)
  | element (keys : List String) (key : String) (objects : List Members) (id nested : CompositeIndex) (mode : WriteMode)
      (composite : Composite) (field : Field) (object : Members) (visited : Visited keys objects id mode)
      (found : schema.composite id = .ok composite) (declared : composite.field? key = some field)
      (stored : computed field = false) (leads : field.type.composite? = some nested) (written : key ∈ writtenKeys objects)
      (inside : .obj object ∈ innermostElements field.type (presentOf objects key)) :
      Visited (keys ++ [key]) [object] nested .replace
  | together (keys : List String) (key : String) (objects : List Members) (id nested : CompositeIndex) (mode : WriteMode)
      (composite : Composite) (field : Field) (flag : Option Bool) (visited : Visited keys objects id mode)
      (first : Overwrite.firstExplicit (DotPath.ofKeys keys) objects = .ok flag)
      (found : schema.composite id = .ok composite) (declared : composite.field? key = some field)
      (stored : computed field = false) (leads : field.type.composite? = some nested) (written : key ∈ writtenKeys objects)
      (single : field.type.isList = false) :
      Visited (keys ++ [key]) ((presentOf objects key).filterMap Json.members?) nested
        (WriteMode.passedOn (mode.replaces flag))

def FoundAt (keys : List String) (objects : List Members) (id : CompositeIndex) (mode : WriteMode)
    (violation : Violation) : Prop :=
  ∃ flag composite field, Overwrite.firstExplicit (DotPath.ofKeys keys) objects = .ok flag ∧
    schema.composite id = .ok composite ∧ field ∈ composite.fields ∧
    violation ∈ fieldViolations objects (DotPath.ofKeys keys) (mode.replaces flag) field

theorem visited_composite (keys : List String) (objects : List Members) (id : CompositeIndex) (mode : WriteMode)
    (visited : Visited schema computed update overwrite type keys objects id mode) :
    CompositeAt schema computed type keys id := by
  induction visited with
  | root => exact .root
  | element keys key _ id nested _ composite field _ _ found declared stored leads _ _ ih =>
      exact .under keys key id nested composite field ih found declared stored leads
  | together keys key _ id nested _ composite field _ _ _ found declared stored leads _ _ ih =>
      exact .under keys key id nested composite field ih found declared stored leads

theorem violations_below_visited (depth : Nat) (keys : List String) (key : String) (objects : List Members)
    (id : CompositeIndex) (mode : WriteMode) (composite : Composite) (flag : Option Bool) (below : List Violation)
    (visited : Visited schema computed update overwrite type keys objects id mode)
    (first : Overwrite.firstExplicit (DotPath.ofKeys keys) objects = .ok flag)
    (found : schema.composite id = .ok composite) (written : key ∈ writtenKeys objects)
    (checked : violationsBelow (violationsAt schema computed depth) computed composite objects (DotPath.ofKeys keys)
      (WriteMode.passedOn (mode.replaces flag)) key = .ok below) (violation : Violation) (member : violation ∈ below) :
    ∃ objects nested mode more, Visited schema computed update overwrite type (keys ++ [key]) objects nested mode ∧
      violationsAt schema computed depth objects nested (DotPath.ofKeys (keys ++ [key])) mode = .ok more ∧
      violation ∈ more := by
  obtain ⟨field, declares, rest⟩ := (except_bind_ok _ _ _).mp checked
  have declared := (Composite.field_ok composite key field).mp declares
  rw [DotPath.of_keys_snoc]
  cases leads : field.type.composite? with
  | none =>
      simp only [leads] at rest
      cases Except.ok.inj rest
      cases member
  | some nested =>
      cases stored : computed field with
      | true =>
          simp only [leads, stored, if_true] at rest
          cases Except.ok.inj rest
          cases member
      | false =>
          cases lists : field.type.isList with
          | true =>
              simp only [leads, stored, lists, Bool.false_eq_true, if_false, if_true] at rest
              obtain ⟨each, mapped, joined⟩ := (except_bind_ok _ _ _).mp rest
              cases Except.ok.inj joined
              obtain ⟨more, listed, inside⟩ := List.mem_flatten.mp member
              obtain ⟨object, among, checked⟩ := (except_map_list_ok _ _ _ mapped).2 more listed
              obtain ⟨value, element, same⟩ := List.mem_filterMap.mp among
              cases value with
              | obj members =>
                  cases same
                  exact ⟨[object], nested, .replace, more, .element keys key objects id nested mode composite field object
                    visited found declared stored leads written element, checked, inside⟩
              | _ => cases same
          | false =>
              simp only [leads, stored, lists, Bool.false_eq_true, if_false] at rest
              exact ⟨_, nested, _, below, .together keys key objects id nested mode composite field flag visited first
                found declared stored leads written lists, rest, member⟩

theorem violations_at_visited (depth : Nat) : ∀ (keys : List String) (objects : List Members) (id : CompositeIndex)
    (mode : WriteMode) (found : List Violation), Visited schema computed update overwrite type keys objects id mode →
    violationsAt schema computed depth objects id (DotPath.ofKeys keys) mode = .ok found → ∀ violation ∈ found,
      ∃ keys objects id mode, Visited schema computed update overwrite type keys objects id mode ∧
        FoundAt schema keys objects id mode violation := by
  induction depth with
  | zero =>
      intro keys objects id mode found _ checked violation member
      cases Except.ok.inj checked
      cases member
  | succ depth ih =>
      intro keys objects id mode found visited checked violation member
      obtain ⟨flag, first, rest⟩ := (except_bind_ok _ _ _).mp checked
      obtain ⟨composite, located, rest⟩ := (except_bind_ok _ _ _).mp rest
      obtain ⟨below, mapped, joined⟩ := (except_bind_ok _ _ _).mp rest
      cases Except.ok.inj joined
      rcases List.mem_append.mp member with own | deeper
      · obtain ⟨field, declared, here⟩ := List.mem_flatMap.mp own
        exact ⟨keys, objects, id, mode, visited, flag, composite, field, first, located, declared, here⟩
      · obtain ⟨list, listed, inside⟩ := List.mem_flatten.mp deeper
        obtain ⟨key, written, checked⟩ := (except_map_list_ok _ _ _ mapped).2 list listed
        obtain ⟨objects', nested, mode', more, visited', checked', member'⟩ := violations_below_visited schema computed
          update overwrite type depth keys key objects id mode composite flag list visited first located written checked
          violation inside
        exact ih (keys ++ [key]) objects' nested mode' more visited' checked' violation member'

theorem field_violation (objects : List Members) (path : String) (required : Bool) (field : Field)
    (violation : Violation) (member : violation ∈ fieldViolations objects path required field) :
    violation.path = DotPath.under path field.name ∧
      (isOutermostNonNull field.type = true ∧
          ((∃ value ∈ valuesOf objects field.name, value.isNull = true) ∧ violation = .null violation.path ∨
            valuesOf objects field.name = [] ∧ required = true ∧ violation = .missing violation.path) ∨
        respectsElements field.type (valuesOf objects field.name) = false ∧ violation = .nullElement violation.path) := by
  unfold fieldViolations at member
  split at member
  · cases member
  · dsimp only at member
    split at member
    · rename_i null
      cases List.mem_singleton.mp member
      rw [Bool.and_eq_true, List.any_eq_true] at null
      exact ⟨rfl, .inl ⟨null.1, .inl ⟨null.2, rfl⟩⟩⟩
    · split at member
      · rename_i absent
        cases List.mem_singleton.mp member
        rw [Bool.and_eq_true, Bool.and_eq_true, List.isEmpty_iff] at absent
        exact ⟨rfl, .inl ⟨absent.1.1, .inr ⟨absent.1.2, absent.2, rfl⟩⟩⟩
      · split at member
        · rename_i element
          cases List.mem_singleton.mp member
          rw [Bool.and_eq_true, Bool.not_eq_true'] at element
          exact ⟨rfl, .inr ⟨element.2, rfl⟩⟩
        · cases member

theorem reported_visited (found : List Violation)
    (refused : check schema type update overwrite computed = .error (.incomplete found)) (violation : Violation)
    (member : violation ∈ found) :
    ∃ keys objects id mode, Visited schema computed update overwrite type keys objects id mode ∧
      FoundAt schema keys objects id mode violation :=
  violations_at_visited schema computed update overwrite type _ [] _ type _ found .root
    (violations_of_refused schema computed type update overwrite found refused) violation member

end

end DocGraph.Update
