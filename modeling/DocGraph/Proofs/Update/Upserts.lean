import DocGraph.Proofs.Update.Completeness
import DocGraph.Proofs.Update.Joined

set_option autoImplicit false

namespace DocGraph

namespace Update

section

variable (schema : Schema) (root : CompositeIndex) (onInsert set : Members)

inductive JoinedAt : CompositeIndex → Members → Members → Prop where
  | root : JoinedAt root onInsert set
  | member (id nested : CompositeIndex) (held given inner other : Members) (composite : Composite) (key : String)
      (field : Field) (above : JoinedAt id held given) (found : schema.composite id = .ok composite)
      (declared : composite.field? key = some field) (plain : key ≠ Overwrite.marker)
      (leads : field.type.composite? = some nested) (here : Members.get? key held = some (.obj inner))
      (there : Members.get? key given = some (.obj other)) : JoinedAt nested inner other

-- The object has a value for the field, or it is joined, the field is called like the marker, and one of the two objects
-- has a value for it.
def Offers (id : CompositeIndex) (object : Members) (field : Field) : Prop :=
  (∃ value, Members.get? field.name object = some value ∧ value.isNull = false) ∨
    field.name = Overwrite.marker ∧ ∃ held given, JoinedAt schema root onInsert set id held given ∧
      object = joinedObject held given ∧ ∃ value ∈ valuesOf [held, given] field.name, value.isNull = false

structure Inserted (skips : String → Prop) (id : CompositeIndex) (object : Members) : Prop where
  complete : ∀ composite field, schema.composite id = .ok composite → field ∈ composite.fields → field.isStored = true →
    isOutermostNonNull field.type = true → ¬ skips field.name → Offers schema root onInsert set id object field
  respected : ∀ composite key field value, schema.composite id = .ok composite → composite.field? key = some field →
    Members.get? key object = some value → ¬ skips key → field.type.Respected value

structure Inserts : Prop where
  document : Inserted schema root onInsert set (· = "_id") root (joinedObject onInsert set)
  below : ∀ composite key field value, schema.composite root = .ok composite → composite.field? key = some field →
    Members.get? key (joinedObject onInsert set) = some value → ∀ listed id inner,
      ObjectAt schema field.type value listed id inner →
        Inserted schema root onInsert set (fun _ => False) id inner

variable (names : schema.HasPlainNames) (fits : FieldType → Json → Prop) (closed : StoredOnly schema fits)

def MembersFit (id : CompositeIndex) (object : Members) : Prop :=
  ∀ composite key field value, schema.composite id = .ok composite → composite.field? key = some field →
    Members.get? key object = some value → key ≠ Overwrite.marker → field.isStored = true ∧ fits field.type value

structure Pair (depth : Nat) (path : String) (id : CompositeIndex) (held given : Members) : Prop where
  joins : JoinedAt schema root onInsert set id held given
  deep : ∀ object ∈ [held, given], (Json.obj object).depth ≤ depth
  fit : ∀ object ∈ [held, given], MembersFit schema fits id object
  valid : violationsAt schema Field.isComputed depth [held, given] id path .replace = .ok []

inductive Comes (depth : Nat) (path : String) (type : FieldType) (value : Json) : Prop where
  | given (fit : fits type value) (deep : value.depth ≤ depth) (checked : Checked schema depth path type value)
  | joined (held given : Members) (same : value = .obj (joinedObject held given))
      (pair : ∀ nested, type.composite? = some nested → Pair schema root onInsert set fits depth path nested held given)

theorem source_value (key : String) (held given : Members) (value : Json) (source : Source key held given value) :
    value ∈ valuesOf [held, given] key ∨ ∃ inner other, value = .obj (joinedObject inner other) := by
  cases source with
  | set there _ => exact .inl (List.mem_filterMap.mpr ⟨given, by simp, there⟩)
  | onInsert here _ => exact .inl (List.mem_filterMap.mpr ⟨held, by simp, here⟩)
  | both inner other _ _ same => exact .inr ⟨inner, other, same⟩

theorem pair_inserted (depth : Nat) (path : String) (id : CompositeIndex) (held given : Members) (skips : String → Prop)
    (pair : Pair schema root onInsert set fits depth path id held given)
    (checked : ∀ name, ¬ skips name → ¬ (path = "" ∧ name = "_id")) :
    Inserted schema root onInsert set skips id (joinedObject held given) := by
  cases depth with
  | zero => exact absurd (pair.deep held (List.mem_cons_self ..)) (Nat.not_succ_le_zero _)
  | succ depth =>
      obtain ⟨flag, composite, _, found, own, _⟩ := parts_of_valid schema depth [held, given] id path .replace pair.valid
      constructor
      · intro other field again member stored outermost kept
        cases again.symm.trans found
        obtain ⟨offered, present⟩ := values_given [held, given] path true field (own field member)
          (checked field.name kept) rfl outermost
        by_cases marks : field.name = Overwrite.marker
        · obtain ⟨value, listed⟩ := List.exists_mem_of_ne_nil _ offered
          exact .inr ⟨marks, held, given, pair.joins, rfl, value, listed, present value listed⟩
        · obtain ⟨value, stands⟩ := joined_object_given field.name held given marks offered
          refine .inl ⟨value, stands, ?_⟩
          rcases source_value _ held given value (joined_object_get _ held given value stands).2 with listed | ⟨_, _, rfl⟩
          · exact present value listed
          · rfl
      · intro other key field value again declared stands kept
        cases again.symm.trans found
        obtain ⟨rfl, member⟩ := Composite.name_of_field?_eq_some declared
        rcases source_value _ held given value (joined_object_get _ held given value stands).2 with listed | ⟨_, _, rfl⟩
        · exact values_respected [held, given] path true field (own field member) (checked field.name kept) value listed
        · exact respected_object field.type _

theorem pair_below (depth : Nat) (path : String) (id : CompositeIndex) (held given : Members) (composite : Composite)
    (key : String) (pair : Pair schema root onInsert set fits (depth + 1) path id held given)
    (found : schema.composite id = .ok composite) (plain : key ≠ Overwrite.marker) (object : Members)
    (among : object ∈ [held, given]) (value : Json) (there : Members.get? key object = some value) :
    value.depth ≤ depth ∧ violationsBelow (violationsAt schema Field.isComputed depth) Field.isComputed composite
      [held, given] path .replace key = .ok [] := by
  obtain ⟨flag, _, _, again, _, below⟩ := parts_of_valid schema depth [held, given] id path .replace pair.valid
  cases again.symm.trans found
  exact ⟨Nat.le_trans (Json.member_depth key value object (Members.mem_of_get? key value object there))
    (Nat.le_of_succ_le_succ (pair.deep object among)), below key (written_key _ object key value among there plain)⟩

theorem pair_alone (depth : Nat) (path : String) (id : CompositeIndex) (held given : Members) (composite : Composite)
    (key : String) (field : Field) (value : Json) (present : value.isNull = false)
    (pair : Pair schema root onInsert set fits (depth + 1) path id held given) (found : schema.composite id = .ok composite)
    (declared : composite.field? key = some field) (plain : key ≠ Overwrite.marker) (object : Members)
    (among : object ∈ [held, given]) (there : Members.get? key object = some value)
    (only : ∀ child, value = .obj child →
      [held, given].filterMap (fun object => (Members.get? key object).bind Json.members?) = [child]) :
    Comes schema root onInsert set fits depth (DotPath.under path key) field.type value := by
  obtain ⟨stored, fit⟩ := pair.fit object among composite key field value found declared there plain
  obtain ⟨deep, passed⟩ := pair_below schema root onInsert set fits depth path id held given composite key pair found plain
    object among value there
  have listed : value ∈ presentOf [held, given] key :=
    List.mem_filter.mpr ⟨List.mem_filterMap.mpr ⟨object, among, there⟩, by simp [present]⟩
  exact .given fit deep
    (value_checked schema depth [held, given] path composite key field value passed declared stored listed only)

include closed in
theorem pair_joined (depth : Nat) (path : String) (id nested : CompositeIndex) (held given inner other : Members)
    (composite : Composite) (key : String) (field : Field)
    (pair : Pair schema root onInsert set fits (depth + 1) path id held given) (found : schema.composite id = .ok composite)
    (declared : composite.field? key = some field) (plain : key ≠ Overwrite.marker)
    (leads : field.type.composite? = some nested) (here : Members.get? key held = some (.obj inner))
    (there : Members.get? key given = some (.obj other)) :
    Pair schema root onInsert set fits depth (DotPath.under path key) nested inner other := by
  obtain ⟨deep, passed⟩ := pair_below schema root onInsert set fits depth path id held given composite key pair found plain
    held (List.mem_cons_self ..) _ here
  obtain ⟨otherDeep, _⟩ := pair_below schema root onInsert set fits depth path id held given composite key pair found plain
    given (by simp) _ there
  obtain ⟨stored, fit⟩ := pair.fit held (List.mem_cons_self ..) composite key field _ found declared here plain
  obtain ⟨_, otherFit⟩ := pair.fit given (by simp) composite key field _ found declared there plain
  obtain ⟨single, kind, fit⟩ := fits_object schema fits closed field.type nested inner leads fit
  obtain ⟨_, otherKind, otherFit⟩ := fits_object schema fits closed field.type nested other leads otherFit
  have valid := objects_valid schema depth _ path _ composite key field nested passed declared stored leads single
  constructor
  · exact .member id nested held given inner other composite key field pair.joins found declared plain leads here there
  · exact List.forall_mem_cons.mpr ⟨deep, List.forall_mem_singleton.mpr otherDeep⟩
  · refine List.forall_mem_cons.mpr ⟨?_, List.forall_mem_singleton.mpr ?_⟩
    · exact fun composite key field value => closed.member kind nested _ composite key field value fit
    · exact fun composite key field value => closed.member otherKind nested _ composite key field value otherFit
  · simpa [here, there, Json.members?] using valid

include closed in
theorem pair_member (depth : Nat) (path : String) (id : CompositeIndex) (held given : Members) (composite : Composite)
    (key : String) (field : Field) (value : Json) (present : value.isNull = false)
    (pair : Pair schema root onInsert set fits (depth + 1) path id held given) (found : schema.composite id = .ok composite)
    (declared : composite.field? key = some field) (stands : Members.get? key (joinedObject held given) = some value) :
    Comes schema root onInsert set fits depth (DotPath.under path key) field.type value := by
  obtain ⟨plain, source⟩ := joined_object_get key held given value stands
  have alone := pair_alone schema root onInsert set fits depth path id held given composite key field value present pair found
    declared plain
  cases source with
  | set there apart =>
      refine alone given (by simp) there ?_
      intro child same
      cases here : Members.get? key held with
      | none => simp [here, there, same, Json.members?]
      | some mine =>
          cases mine with
          | obj inner => exact absurd same (apart inner child here)
          | _ => simp [here, there, same, Json.members?]
  | onInsert here none =>
      refine alone held (List.mem_cons_self ..) here ?_
      intro child same
      simp [here, none, same, Json.members?]
  | both inner other here there same =>
      exact .joined inner other same (fun nested leads =>
        pair_joined schema root onInsert set fits closed depth path id nested held given inner other composite key field pair
          found declared plain leads here there)

include closed names in
theorem given_inserted (type : FieldType) (value : Json) (listed : Bool) (id : CompositeIndex) (inner : Members)
    (position : ObjectAt schema type value listed id inner) (depth : Nat) (path : String) (nonempty : path ≠ "")
    (fit : fits type value) (deep : value.depth ≤ depth) (checked : Checked schema depth path type value) :
    Inserted schema root onInsert set (fun _ => False) id inner := by
  have whole := checked_whole schema names fits closed type value listed id inner position depth path nonempty deep fit
    checked
  constructor
  · intro composite field found member stored outermost _
    exact .inl (whole.complete composite field found member stored outermost (.inl rfl))
  · intro composite key field value found declared given _
    exact whole.respected composite key field value found declared given

include closed names in
-- The induction follows the joined objects down to the first value that was given as it is.
theorem comes_inserted (type : FieldType) (value : Json) (listed : Bool) (id : CompositeIndex) (inner : Members)
    (position : ObjectAt schema type value listed id inner) : ∀ depth path, path ≠ "" →
      Comes schema root onInsert set fits depth path type value →
      Inserted schema root onInsert set (fun _ => False) id inner := by
  induction position with
  | self kind id object =>
      intro depth path nonempty comes
      cases comes with
      | given fit deep checked =>
          exact given_inserted schema root onInsert set names fits closed _ _ _ _ _ (.self kind id object) depth path nonempty
            fit deep checked
      | joined held given same pair =>
          cases same
          exact pair_inserted schema root onInsert set fits depth path id held given _ (pair id rfl)
            (fun _ _ root => nonempty root.1)
  | member kind id type object inner composite key field value listed found declared stands below ih =>
      intro depth path nonempty comes
      cases comes with
      | given fit deep checked =>
          exact given_inserted schema root onInsert set names fits closed _ _ _ _ _ (.member kind id type object inner composite
            key field value listed found declared stands below) depth path nonempty fit deep checked
      | joined held given same pair =>
          cases same
          have pair := pair id rfl
          cases depth with
          | zero => exact absurd (pair.deep held (List.mem_cons_self ..)) (Nat.not_succ_le_zero _)
          | succ depth =>
              have segment := (Schema.plain_field_name schema names composite
                (Schema.composite_mem schema id composite found) key field declared).1
              have present := object_at_given schema field.type value listed type inner below
              exact ih depth (DotPath.under path key) (DotPath.under_ne_empty path key segment.1)
                (pair_member schema root onInsert set fits closed depth path id held given composite key field value present
                  pair found declared stands)
  | nonNull of value listed type inner below ih =>
      intro depth path nonempty comes
      refine ih depth path nonempty ?_
      cases comes with
      | given fit deep checked => exact .given (closed.nonNull of value fit) deep checked
      | joined held given same pair => exact .joined held given same pair
  | element of elements element listed type inner member below ih =>
      intro depth path nonempty comes
      cases comes with
      | given fit deep checked =>
          exact given_inserted schema root onInsert set names fits closed _ _ _ _ _
            (.element of elements element listed type inner member below) depth path nonempty fit deep checked
      | joined held given same pair => cases same

include closed names in
theorem pair_inserts (depth : Nat) (pair : Pair schema root onInsert set fits depth "" root onInsert set) :
    Inserts schema root onInsert set := by
  refine ⟨pair_inserted schema root onInsert set fits depth "" root onInsert set _ pair (fun _ kept skipped => kept skipped.2), ?_⟩
  intro composite key field value found declared stands listed id inner position
  cases depth with
  | zero => exact absurd (pair.deep onInsert (List.mem_cons_self ..)) (Nat.not_succ_le_zero _)
  | succ depth =>
      have segment := (Schema.plain_field_name schema names composite (Schema.composite_mem schema root composite found)
        key field declared).1
      have present := object_at_given schema field.type value listed id inner position
      exact comes_inserted schema root onInsert set names fits closed field.type value listed id inner position depth _
        (DotPath.under_ne_empty "" key segment.1)
        (pair_member schema root onInsert set fits closed depth "" root onInsert set composite key field value present pair found
          declared stands)

end

def setOf (update : Members) : Members := ((Members.get? "set" update).bind Json.members?).getD []

theorem violations_with_empty (schema : Schema) (computed : FieldTest) (depth : Nat) (object : Members) (type : CompositeIndex)
    (path : String) (mode : WriteMode) : violationsAt schema computed depth [object, []] type path mode =
      violationsAt schema computed depth [object] type path mode := by
  have values : valuesOf [object, []] = valuesOf [object] := by
    funext key
    cases given : Members.get? key object <;> simp [valuesOf, given, Members.get?]
  have keys : writtenKeys [object, []] = writtenKeys [object] := by simp [writtenKeys, Members.keys]
  have marks : Overwrite.firstExplicit path [object, []] = Overwrite.firstExplicit path [object] := rfl
  have own : fieldViolations [object, []] path = fieldViolations [object] path := by
    funext required field
    rw [fieldViolations, fieldViolations, values]
  cases depth with
  | zero => rfl
  | succ depth =>
      have below (composite : Composite) (mode : WriteMode) :
          violationsBelow (violationsAt schema computed depth) computed composite [object, []] path mode =
            violationsBelow (violationsAt schema computed depth) computed composite [object] path mode := by
        funext key
        rw [violationsBelow, violationsBelow, values]
      rw [violationsAt, violationsAt, marks, own, keys]
      simp only [below]

theorem upsert_valid (schema : Schema) (type : CompositeIndex) (update onInsert : Members) (overwrite : Bool)
    (given : Members.get? "setOnInsert" update = some (.obj onInsert))
    (checked : check schema type update overwrite Field.isComputed = .ok ()) :
    violationsAt schema Field.isComputed ((Json.obj update).depth + 1) [onInsert, setOf update] type "" .replace = .ok [] := by
  have valid := check_ok schema type update overwrite Field.isComputed checked
  have mode : rootMode update overwrite = .replace := by simp [rootMode, given, Json.members?]
  rw [violations, mode] at valid
  cases set : (Members.get? "set" update).bind Json.members? with
  | some object =>
      have objects : writtenObjects update = [onInsert, object] := by simp [writtenObjects, given, set, Json.members?]
      rw [objects] at valid
      rw [setOf, set]
      exact valid
  | none =>
      have objects : writtenObjects update = [onInsert] := by simp [writtenObjects, given, set, Json.members?]
      rw [objects] at valid
      rw [setOf, set]
      exact (violations_with_empty schema _ _ onInsert type "" .replace).trans valid

theorem checked_upsert_inserts (schema : Schema) (names : schema.HasPlainNames) (fits : FieldType → Json → Prop)
    (closed : StoredOnly schema fits) (type : CompositeIndex) (kind : CompositeKind) (update onInsert : Members)
    (overwrite : Bool) (given : Members.get? "setOnInsert" update = some (.obj onInsert))
    (fit : fits (.named (.composite kind type)) (.obj onInsert))
    (setFit : ∀ set, Members.get? "set" update = some (.obj set) → fits (.named (.composite kind type)) (.obj set))
    (checked : check schema type update overwrite Field.isComputed = .ok ()) :
    Inserts schema type onInsert (setOf update) := by
  have members (object : Members) (fit : fits (.named (.composite kind type)) (.obj object)) :
      MembersFit schema fits type object :=
    fun composite key field value => closed.member kind type object composite key field value fit
  have deeper (name : String) (object : Members) (found : Members.get? name update = some (.obj object)) :
      (Json.obj object).depth ≤ (Json.obj update).depth + 1 :=
    Nat.le_trans (Json.member_depth name _ update (Members.mem_of_get? name _ update found))
      (Nat.le_trans (Nat.le_succ _) (Nat.le_succ _))
  have set : (Json.obj (setOf update)).depth ≤ (Json.obj update).depth + 1 ∧ MembersFit schema fits type (setOf update) := by
    cases found : (Members.get? "set" update).bind Json.members? with
    | none =>
        rw [setOf, found]
        exact ⟨Nat.succ_le_succ (Nat.zero_le _), fun _ _ _ _ _ _ none => nomatch none⟩
    | some object =>
        obtain ⟨value, there, same⟩ := Option.bind_eq_some_iff.mp found
        cases value with
        | obj held =>
            cases same
            rw [setOf, found]
            exact ⟨deeper "set" object there, members object (setFit object there)⟩
        | _ => cases same
  refine pair_inserts schema type onInsert (setOf update) names fits closed ((Json.obj update).depth + 1)
    ⟨.root, ?_, ?_, upsert_valid schema type update onInsert overwrite given checked⟩
  · exact List.forall_mem_cons.mpr ⟨deeper "setOnInsert" onInsert given, List.forall_mem_singleton.mpr set.1⟩
  · exact List.forall_mem_cons.mpr ⟨members onInsert fit, List.forall_mem_singleton.mpr set.2⟩

end Update

open DocGraph.Derivation
open DocGraph.Update (Inserts joinedObject setOf)

-- For every update of the derived type with a `setOnInsert` that passes the check, whatever was called in the session before.
theorem validated_upsert_inserts (text : String) (schema : Schema) (read : Schema.ofText text = .ok schema)
    (free : CollisionFree schema) (session : Session) (reached : session.Reached schema) (type : CompositeIndex)
    (excluded : List String) (within : type.index < schema.composites.length) :
    ∃ name after notices,
      session.call schema (.composite .update type excluded) = (after, notices, .ok (.reference ⟨name⟩)) ∧
      ∀ update onInsert overwrite, TypeRef.Conforms after.registry schema.scalars ⟨name⟩ (.obj update) →
        Members.get? "setOnInsert" update = some (.obj onInsert) →
        Update.check schema type update overwrite Field.isComputed = .ok () →
          Inserts schema type onInsert (setOf update) := by
  have sound := Schema.sound_of_text text schema read
  have names := Schema.plain_of_text text schema read
  obtain ⟨name, after, notices, named, called, grounded, contained⟩ :=
    composite_call schema sound session reached .update type excluded within
  refine ⟨name, after, notices, called, ?_⟩
  intro update onInsert overwrite conforms given checked
  have fits (part : String × Family) (among : part ∈ updateParts) (sets : Update.IsSetFamily part.2) (object : Members)
      (found : Members.get? part.1 update = some (.obj object)) :=
    Update.update_part_fits schema after.registry schema.scalars sound free grounded part among sets type .nested within name
      update object .object named contained conforms found
  exact Update.checked_upsert_inserts schema names (Update.FitsSet schema after.registry schema.scalars)
    (Update.set_types_stored schema after.registry schema.scalars sound free grounded) type .object update onInsert overwrite
    given (fits ("setOnInsert", .setOnInsert) (by decide) (.inr (.inr (.inr rfl))) onInsert given)
    (fits ("set", .set) (by decide) (.inl rfl)) checked

structure Upserts (text name : String) (schema : Schema) (update onInsert : Members) : Prop where
  read : Schema.ofText text = .ok schema
  free : CollisionFree schema
  within : 0 < schema.composites.length
  answered : (Session.call schema {} (.composite .update ⟨0⟩ [])).2.2 = .ok (.reference ⟨name⟩)
  conforms : TypeRef.Conforms (updateTypes schema) schema.scalars ⟨name⟩ (.obj update)
  given : Members.get? "setOnInsert" update = some (.obj onInsert)
  checked : Update.check schema ⟨0⟩ update false Field.isComputed = .ok ()

def orderOnInsert : Members := [("address", .obj [("note", .str "Ring")]), ("lines", .arr [.obj pen])]

def orderUpsert : Members := [
  ("setOnInsert", .obj orderOnInsert),
  ("set", .obj [("address", .obj [("_OVERWRITE", .bool true), ("street", .str "Main")])])]

theorem order_upserts : Upserts orderText "OrderUpdateType" orders orderUpsert orderOnInsert where
  read := by decide +kernel
  free := by decide +kernel
  within := by decide
  answered := by decide +kernel
  conforms := TypeRef.conforms_of_checks _ _ 6 _ _ (by decide +kernel)
  given := rfl
  checked := rfl

theorem order_inserts :
    Upserts orderText "OrderUpdateType" orders orderUpsert orderOnInsert ∧ Session.Reached orders {} ∧
      joinedObject orderOnInsert (setOf orderUpsert) =
        [("address", .obj [("note", .str "Ring"), ("street", .str "Main")]), ("lines", .arr [.obj pen])] ∧
      Inserts orders ⟨0⟩ orderOnInsert (setOf orderUpsert) := by
  refine ⟨order_upserts, .fresh, rfl, ?_⟩
  obtain ⟨name, after, notices, called, inserts⟩ := validated_upsert_inserts orderText orders order_upserts.read
    order_upserts.free {} .fresh ⟨0⟩ [] order_upserts.within
  have registry : updateTypes orders = after.registry := congrArg (fun result => result.1.registry) called
  have reference : name = "OrderUpdateType" := by
    have answered := (congrArg (fun result => result.2.2) called).symm.trans order_upserts.answered
    cases answered
    rfl
  have conforms := order_upserts.conforms
  rw [registry, ← reference] at conforms
  exact inserts orderUpsert orderOnInsert false conforms rfl order_upserts.checked

def stateText : String := "type State \x7b _OVERWRITE: Boolean!, title: String \x7d"

def states : Schema where
  composites := [{
    name := "State"
    kind := .object
    fields := [
      { name := "_OVERWRITE", type := .nonNull (.scalar .boolean) },
      { name := "title", type := .scalar .string }] }]

def stateOnInsert : Members := [("_OVERWRITE", .bool true), ("title", .str "Home")]

def stateUpsert : Members := [("setOnInsert", .obj stateOnInsert), ("set", .obj [("title", .str "Page")])]

theorem state_upserts : Upserts stateText "StateUpdateType" states stateUpsert stateOnInsert where
  read := by decide +kernel
  free := by decide +kernel
  within := by decide
  answered := by decide +kernel
  conforms := TypeRef.conforms_of_checks _ _ 4 _ _ (by decide +kernel)
  given := rfl
  checked := rfl

def tagText : String := "type Tag \x7b _id: [ID!], name: String \x7d"

def tags : Schema where
  composites := [{
    name := "Tag"
    kind := .object
    fields := [{ name := "_id", type := .list (.nonNull (.scalar .id)) }, { name := "name", type := .scalar .string }] }]

def tagOnInsert : Members := [("_id", .arr [.null]), ("name", .str "new")]

theorem tag_upserts : Upserts tagText "TagUpdateType" tags [("setOnInsert", .obj tagOnInsert)] tagOnInsert where
  read := by decide +kernel
  free := by decide +kernel
  within := by decide
  answered := by decide +kernel
  conforms := TypeRef.conforms_of_checks _ _ 4 _ _ (by decide +kernel)
  given := rfl
  checked := rfl

-- The join leaves a field out that must not be null, and the list of an `_id` holds a null that its type forbids.
theorem upsert_exceptions :
    (Upserts stateText "StateUpdateType" states stateUpsert stateOnInsert ∧
      ∃ composite field, states.composite ⟨0⟩ = .ok composite ∧ field ∈ composite.fields ∧ field.isStored = true ∧
        Update.isOutermostNonNull field.type = true ∧ field.name ≠ "_id" ∧
        Members.get? field.name (joinedObject stateOnInsert (setOf stateUpsert)) = none) ∧
    Upserts tagText "TagUpdateType" tags [("setOnInsert", .obj tagOnInsert)] tagOnInsert ∧
      ∃ composite field, tags.composite ⟨0⟩ = .ok composite ∧ composite.field? "_id" = some field ∧
        Members.get? "_id" (joinedObject tagOnInsert (setOf [("setOnInsert", .obj tagOnInsert)])) = some (.arr [.null]) ∧
        ¬ field.type.Respected (.arr [.null]) := by
  refine ⟨⟨state_upserts, _, _, rfl, List.mem_cons_self .., rfl, rfl, by decide, rfl⟩, tag_upserts, _, _, rfl, rfl, rfl, ?_⟩
  intro respected
  cases (respected [.null] rfl .null (List.mem_singleton.mpr rfl)).1

end DocGraph
