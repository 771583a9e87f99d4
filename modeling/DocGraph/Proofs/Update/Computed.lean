import DocGraph.Proofs.Update.Agreement
import DocGraph.Proofs.Update.Presence

set_option autoImplicit false

namespace DocGraph.Update

open DocGraph.Derivation

section

variable (schema : Schema) (registry : Registry) (scalars : List String) (sound : schema.Sound)
  (free : CollisionFree schema) (grounded : Grounded schema registry)

def ObjectFits (id : CompositeIndex) (object : Members) : Prop :=
  ∃ kind, FitsSet schema registry scalars (.named (.composite kind id)) (.obj object)

include sound free grounded

theorem innermost_fits (type : FieldType) (nested : CompositeIndex) (leads : type.composite? = some nested)
    (values : List Json) (fit : ∀ value ∈ values, FitsSet schema registry scalars type value) (object : Members)
    (inside : .obj object ∈ innermostElements type values) : ObjectFits schema registry scalars nested object := by
  have closed := set_types_stored schema registry scalars sound free grounded
  induction type generalizing values with
  | named type =>
      cases type with
      | composite kind id =>
          cases leads
          exact ⟨kind, fit _ inside⟩
      | _ => cases leads
  | nonNull of ih => exact ih leads values (fun value member => closed.nonNull of value (fit value member)) inside
  | list of ih =>
      refine ih leads _ ?_ inside
      intro element opened
      obtain ⟨value, member, among⟩ := List.mem_flatMap.mp (List.mem_filter.mp opened).1
      obtain ⟨_, _, _, _, _, conforms⟩ := fit value member nested leads
      rcases TypeRef.conforms_list _ _ conforms with rfl | ⟨elements, rfl, _⟩
      · cases among
      · exact closed.element of elements element (fit _ member) among

theorem present_fits (objects : List Members) (id : CompositeIndex) (composite : Composite) (key : String) (field : Field)
    (fit : ∀ object ∈ objects, ObjectFits schema registry scalars id object) (found : schema.composite id = .ok composite)
    (declared : composite.field? key = some field) (written : key ∈ writtenKeys objects) :
    ∀ value ∈ presentOf objects key, FitsSet schema registry scalars field.type value := by
  intro value present
  obtain ⟨holder, among, given⟩ := present_given objects key value present
  obtain ⟨kind, holds⟩ := fit holder among
  have plain := (List.mem_filter.mp ((mem_firsts key _).mp written)).2
  exact ((set_types_stored schema registry scalars sound free grounded).member kind id holder composite key field value holds
    found declared given (by simpa using plain)).2

theorem visited_fits (update : Members) (overwrite : Bool) (type : CompositeIndex)
    (roots : ∀ object, Supplied update [] object → ObjectFits schema registry scalars type object)
    (keys : List String) (objects : List Members) (id : CompositeIndex) (mode : WriteMode)
    (visited : Visited schema Field.isComputed update overwrite type keys objects id mode) :
    ∀ object ∈ objects, ObjectFits schema registry scalars id object := by
  induction visited with
  | root => exact fun object among => roots object ((written_supplied update object).mp among)
  | element keys key objects id nested _ composite field object _ found declared _ leads written inside ih =>
      intro other single
      cases List.mem_singleton.mp single
      exact innermost_fits schema registry scalars sound free grounded field.type nested leads _
        (present_fits schema registry scalars sound free grounded objects id composite key field ih found declared written)
        object inside
  | together keys key objects id nested _ composite field _ _ _ found declared _ leads written _ ih =>
      intro object among
      obtain ⟨value, present, same⟩ := List.mem_filterMap.mp among
      cases value with
      | obj members =>
          cases same
          exact (fits_object schema _ (set_types_stored schema registry scalars sound free grounded) field.type nested object
            leads (present_fits schema registry scalars sound free grounded objects id composite key field ih found declared
              written _ present)).2
      | _ => cases same

theorem computed_not_given (id : CompositeIndex) (composite : Composite) (field : Field) (object : Members) (value : Json)
    (fit : ObjectFits schema registry scalars id object) (found : schema.composite id = .ok composite)
    (declared : field ∈ composite.fields) (computed : field.isComputed = true)
    (given : Members.get? field.name object = some value) : field.name = Overwrite.marker := by
  by_contra plain
  obtain ⟨kind, holds⟩ := fit
  have distinct := sound.distinct composite (Schema.composite_mem schema id composite found)
  have located := Composite.field_of_mem composite field distinct declared
  have stored := ((set_types_stored schema registry scalars sound free grounded).member kind id object composite field.name
    field value holds found located given plain).1
  rw [Field.isStored, computed] at stored
  cases stored

end

structure About (schema : Schema) (type : CompositeIndex) (keys : List String) (field : Field) (violation : Violation) :
    Prop where
  position : FieldAt schema Field.isComputed type keys field
  path : violation.path = DotPath.under (DotPath.ofKeys keys) field.name
  only : schema.HasPlainNames → ∀ others other, FieldAt schema (fun _ => false) type others other →
    violation.path = DotPath.under (DotPath.ofKeys others) other.name → others = keys ∧ other = field

theorem violation_about (schema : Schema) (sound : schema.Sound) (type : CompositeIndex) (update : Members)
    (overwrite : Bool) (found : List Violation)
    (refused : check schema type update overwrite Field.isComputed = .error (.incomplete found)) (violation : Violation)
    (member : violation ∈ found) :
    ∃ keys objects id mode composite field,
      Visited schema Field.isComputed update overwrite type keys objects id mode ∧ schema.composite id = .ok composite ∧
      field ∈ composite.fields ∧ About schema type keys field violation ∧
      ((isOutermostNonNull field.type = true ∧ violation = .missing violation.path) ∨
        ∃ object ∈ objects, ∃ value, Members.get? field.name object = some value) := by
  obtain ⟨keys, objects, id, mode, visited, flag, composite, field, _, located, declared, here⟩ :=
    reported_visited schema Field.isComputed update overwrite type found refused violation member
  obtain ⟨place, kind⟩ := field_violation objects _ _ field violation here
  have position : FieldAt schema Field.isComputed type keys field :=
    ⟨id, composite, visited_composite schema Field.isComputed update overwrite type keys objects id mode visited, located,
      declared⟩
  have about : About schema type keys field violation := ⟨position, place, fun names others other elsewhere same =>
    field_at_unique schema sound names _ _ type keys others field other position elsewhere (place.symm.trans same)⟩
  refine ⟨keys, objects, id, mode, composite, field, visited, located, declared, about, ?_⟩
  have held (value : Json) (given : value ∈ valuesOf objects field.name) :
      ∃ object ∈ objects, ∃ value, Members.get? field.name object = some value := by
    obtain ⟨object, among, given⟩ := List.mem_filterMap.mp given
    exact ⟨object, among, value, given⟩
  rcases kind with ⟨outermost, ⟨⟨value, given, _⟩, _⟩ | ⟨_, _, missing⟩⟩ | ⟨element, _⟩
  · exact .inr (held value given)
  · exact .inl ⟨outermost, missing⟩
  · cases values : valuesOf objects field.name with
    | nil =>
        rw [values, respects_none] at element
        cases element
    | cons value rest => exact .inr (held value (values ▸ List.mem_cons_self ..))

-- Whatever was called before, a conforming update is told of computed fields only that they are missing, where their
-- types forbid null, or that they must not be what the update itself gives for them. Where no two derived types share
-- a name, it gives nothing for computed fields but for one with the name of the marker.
theorem computed_fields_missing (schema : Schema) (sound : schema.Sound) (session : Session)
    (reached : session.Reached schema) (type : CompositeIndex) (within : type.index < schema.composites.length)
    (excluded : List String) :
    ∃ name after notices,
      session.call schema (.composite .update type excluded) = (after, notices, .ok (.reference ⟨name⟩)) ∧
      ∀ update overwrite found, TypeRef.Conforms after.registry schema.scalars ⟨name⟩ (.obj update) →
        check schema type update overwrite Field.isComputed = .error (.incomplete found) → ∀ violation ∈ found,
          ∃ keys field, About schema type keys field violation ∧ (field.isComputed = true →
            (isOutermostNonNull field.type = true ∧ violation = .missing violation.path) ∨
              ∃ object value, Supplied update keys object ∧ Members.get? field.name object = some value ∧
                (CollisionFree schema → field.name = Overwrite.marker)) := by
  obtain ⟨name, after, notices, named, called, grounded, contained⟩ :=
    composite_call schema sound session reached .update type excluded within
  refine ⟨name, after, notices, called, ?_⟩
  intro update overwrite found conforms refused violation member
  obtain ⟨keys, objects, id, mode, composite, field, visited, located, declared, about, kind⟩ :=
    violation_about schema sound type update overwrite found refused violation member
  refine ⟨keys, field, about, fun computed => kind.imp (fun missing => missing) ?_⟩
  rintro ⟨object, among, value, given⟩
  refine ⟨object, value, visited_supplied schema Field.isComputed update overwrite type keys objects id mode visited object
    among, given, fun free => ?_⟩
  refine computed_not_given schema after.registry schema.scalars sound free grounded id composite field object value ?_ located
    declared computed given
  refine visited_fits schema after.registry schema.scalars sound free grounded update overwrite type ?_ keys objects id mode
    visited object among
  rintro root ⟨part, parts, argument, given, holds⟩
  cases holds
  have argument (part : String × Family) (among : part ∈ updateParts) (sets : IsSetFamily part.2)
      (given : Members.get? part.1 update = some (.obj root)) :=
    update_part_fits schema after.registry schema.scalars sound free grounded part among sets type .nested within name update
      root .object named contained conforms given
  rcases (by simpa using parts : part = "setOnInsert" ∨ part = "set") with rfl | rfl
  · exact ⟨.object, argument ("setOnInsert", .setOnInsert) (by decide) (.inr (.inr (.inr rfl))) given⟩
  · exact ⟨.object, argument ("set", .set) (by decide) (.inl rfl) given⟩

def cardText : String := "type Card \x7b name: String, label: String! @computed \x7d"

def label : Field := { name := "label", type := .nonNull (.scalar .string), origin := .computed none }

def cards : Schema where
  composites := [{ name := "Card", kind := .object, fields := [{ name := "name", type := .scalar .string }, label] }]

def printing : Members := [("setOnInsert", .obj [("name", .str "Ann")])]

theorem printing_conforms : Conforming .update cardText "CardUpdateType" cards printing where
  read := by decide +kernel
  free := by decide +kernel
  within := by decide
  answered := by decide +kernel
  unique := by simp [printing, Json.UniqueKeys, Json.MembersUnique, Members.keys]
  conforms := TypeRef.conforms_of_checks _ _ 4 _ _ (by decide +kernel)

theorem label_missing :
    Conforming .update cardText "CardUpdateType" cards printing ∧ Session.Reached cards {} ∧
      check cards ⟨0⟩ printing false Field.isComputed = .error (.incomplete [.missing "label"]) ∧
      About cards ⟨0⟩ [] label (.missing "label") ∧ isOutermostNonNull label.type = true := by
  have refused : check cards ⟨0⟩ printing false Field.isComputed = .error (.incomplete [.missing "label"]) := rfl
  refine ⟨printing_conforms, .fresh, refused, ?_⟩
  obtain ⟨name, after, notices, called, told⟩ := computed_fields_missing cards
    (Schema.sound_of_text cardText cards printing_conforms.read) {} .fresh ⟨0⟩ printing_conforms.within []
  obtain ⟨_, _, conforms⟩ := printing_conforms.after_call name after notices called
  obtain ⟨keys, field, about, kind⟩ := told printing false _ conforms refused _ (List.mem_singleton.mpr rfl)
  obtain ⟨rfl, rfl⟩ := about.only (by decide) [] label ⟨⟨0⟩, _, .root, rfl, by decide⟩ rfl
  refine ⟨about, ?_⟩
  rcases kind rfl with ⟨outermost, _⟩ | ⟨_, _, _, _, marks⟩
  · exact outermost
  · exact absurd (marks printing_conforms.free) (by decide)

def sealText : String := "type Seal \x7b name: String, _OVERWRITE: Boolean! @computed \x7d"

def wax : Field := { name := "_OVERWRITE", type := .nonNull (.scalar .boolean), origin := .computed none }

def seals : Schema where
  composites := [{ name := "Seal", kind := .object, fields := [{ name := "name", type := .scalar .string }, wax] }]

def breaking : Members := [("set", .obj [("_OVERWRITE", .null)])]

theorem breaking_conforms : Conforming .update sealText "SealUpdateType" seals breaking where
  read := by decide +kernel
  free := by decide +kernel
  within := by decide
  answered := by decide +kernel
  unique := by simp [breaking, Json.UniqueKeys, Json.MembersUnique, Members.keys]
  conforms := TypeRef.conforms_of_checks _ _ 4 _ _ (by decide +kernel)

theorem computed_fields_named :
    (Conforming .update cardText "CardUpdateType" cards printing ∧ FieldAt cards Field.isComputed ⟨0⟩ [] label ∧
      label.isComputed = true ∧
      check cards ⟨0⟩ printing false Field.isComputed = .error (.incomplete [.missing "label"])) ∧
    Conforming .update sealText "SealUpdateType" seals breaking ∧ FieldAt seals Field.isComputed ⟨0⟩ [] wax ∧
      wax.isComputed = true ∧
      check seals ⟨0⟩ breaking false Field.isComputed = .error (.incomplete [.null "_OVERWRITE"]) :=
  ⟨⟨printing_conforms, ⟨⟨0⟩, _, .root, rfl, by decide⟩, rfl, rfl⟩, breaking_conforms, ⟨⟨0⟩, _, .root, rfl, by decide⟩, rfl,
    rfl⟩

end DocGraph.Update
