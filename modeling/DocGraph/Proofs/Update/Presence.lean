import DocGraph.Proofs.Update.Visits

set_option autoImplicit false

namespace DocGraph.Update

inductive Holds : Json → List String → Members → Prop where
  | self (object : Members) : Holds (.obj object) [] object
  | member (object : Members) (key : String) (value : Json) (rest : List String) (inner : Members)
      (given : Members.get? key object = some value) (inside : Holds value rest inner) : Holds (.obj object) (key :: rest) inner
  | element (elements : List Json) (element : Json) (keys : List String) (inner : Members) (among : element ∈ elements)
      (inside : Holds element keys inner) : Holds (.arr elements) keys inner

theorem holds_append (value middle : Json) (front back : List String) (object inner : Members)
    (outer : Holds value front object) (here : middle = .obj object) (inside : Holds middle back inner) :
    Holds value (front ++ back) inner := by
  induction outer with
  | self object => exact here ▸ inside
  | member object key value rest _ given _ ih => exact .member object key value (rest ++ back) inner given (ih here)
  | element elements element keys _ among _ ih => exact .element elements element (keys ++ back) inner among (ih here)

def Supplied (update : Members) (keys : List String) (object : Members) : Prop :=
  ∃ part ∈ ["setOnInsert", "set"], ∃ argument, Members.get? part update = some (.obj argument) ∧
    Holds (.obj argument) keys object

theorem supplied_member (update : Members) (keys : List String) (object : Members) (key : String) (value : Json)
    (inner : Members) (supplied : Supplied update keys object) (given : Members.get? key object = some value)
    (inside : Holds value [] inner) : Supplied update (keys ++ [key]) inner := by
  obtain ⟨part, among, argument, found, outer⟩ := supplied
  exact ⟨part, among, argument, found, holds_append _ (.obj object) keys [key] object inner outer rfl
    (.member object key value [] inner given inside)⟩

theorem written_supplied (update object : Members) : object ∈ writtenObjects update ↔ Supplied update [] object := by
  constructor
  · intro member
    obtain ⟨part, among, found⟩ := List.mem_filterMap.mp member
    obtain ⟨value, given, same⟩ := Option.bind_eq_some_iff.mp found
    cases value with
    | obj members =>
        cases same
        exact ⟨part, among, object, given, .self object⟩
    | _ => cases same
  · rintro ⟨part, among, argument, given, holds⟩
    cases holds
    exact List.mem_filterMap.mpr ⟨part, among, by rw [given]; rfl⟩

theorem innermost_held (type : FieldType) (values : List Json) (object : Members)
    (inside : .obj object ∈ innermostElements type values) : ∃ value ∈ values, Holds value [] object := by
  induction type generalizing values with
  | named type => exact ⟨.obj object, inside, .self object⟩
  | nonNull of ih => exact ih values inside
  | list of ih =>
      obtain ⟨element, opened, holds⟩ := ih _ inside
      obtain ⟨value, member, among⟩ := List.mem_flatMap.mp (List.mem_filter.mp opened).1
      cases value with
      | arr elements => exact ⟨.arr elements, member, .element elements element [] object among holds⟩
      | null => cases among
      | _ => exact ⟨_, member, List.mem_singleton.mp among ▸ holds⟩

theorem present_given (objects : List Members) (key : String) (value : Json) (present : value ∈ presentOf objects key) :
    ∃ object ∈ objects, Members.get? key object = some value :=
  List.mem_filterMap.mp (List.mem_filter.mp present).1

variable (schema : Schema) (computed : FieldTest) (update : Members) (overwrite : Bool) (type : CompositeIndex)

theorem visited_supplied (keys : List String) (objects : List Members) (id : CompositeIndex) (mode : WriteMode)
    (visited : Visited schema computed update overwrite type keys objects id mode) :
    ∀ object ∈ objects, Supplied update keys object := by
  induction visited with
  | root => exact fun object => (written_supplied update object).mp
  | element keys key objects _ _ _ _ field object _ _ _ _ _ _ inside ih =>
      intro other single
      cases List.mem_singleton.mp single
      obtain ⟨value, present, holds⟩ := innermost_held field.type _ object inside
      obtain ⟨holder, among, given⟩ := present_given objects key value present
      exact supplied_member update keys holder key value object (ih holder among) given holds
  | together keys key objects _ _ _ _ _ _ _ _ _ _ _ _ _ _ ih =>
      intro object member
      obtain ⟨value, present, same⟩ := List.mem_filterMap.mp member
      obtain ⟨holder, among, given⟩ := present_given objects key value present
      cases value with
      | obj members =>
          cases same
          exact supplied_member update keys holder key _ object (ih holder among) given (.self object)
      | _ => cases same

theorem written_given (objects : List Members) (key : String) (written : key ∈ writtenKeys objects) :
    ∃ object ∈ objects, ∃ value, Members.get? key object = some value := by
  obtain ⟨object, among, listed⟩ := List.mem_flatMap.mp (List.mem_filter.mp ((mem_firsts key _).mp written)).1
  cases given : Members.get? key object with
  | none => exact absurd listed ((Members.get?_eq_none key object).mp given)
  | some value => exact ⟨object, among, value, given⟩

def ReplacedAt (keys : List String) (objects : List Members) : Prop :=
  ∃ id mode flag, Visited schema computed update overwrite type keys objects id mode ∧
    Overwrite.firstExplicit (DotPath.ofKeys keys) objects = .ok flag ∧ mode.replaces flag = true

-- A field of a composite, and no list, is given something else than objects by objects that replace.
def EmptyHanded (keys : List String) : Prop :=
  ∃ front field objects, keys = front ++ [field.name] ∧ FieldAt schema computed type front field ∧
    field.type.composite?.isSome = true ∧ field.type.isList = false ∧
    ReplacedAt schema computed update overwrite type front objects ∧
    (∃ object ∈ objects, ∃ value, Members.get? field.name object = some value) ∧
    ∀ object ∈ objects, ∀ value, Members.get? field.name object = some value → value.members? = none

theorem unsupplied_mode (none : writtenObjects update = []) : rootMode update overwrite = WriteMode.ofFlag overwrite := by
  have unsupplied := List.filterMap_eq_nil_iff.mp none "setOnInsert" (List.mem_cons_self ..)
  rw [rootMode, unsupplied]
  rfl

theorem visited_empty (keys : List String) (objects : List Members) (id : CompositeIndex) (mode : WriteMode)
    (visited : Visited schema computed update overwrite type keys objects id mode) (none : objects = [])
    (required : mode.replaces .none = true) :
    keys = [] ∧ overwrite = true ∧ writtenObjects update = [] ∨ EmptyHanded schema computed update overwrite type keys := by
  cases visited with
  | root =>
      rw [unsupplied_mode update overwrite none] at required
      cases overwrite with
      | true => exact .inl ⟨rfl, rfl, none⟩
      | false => cases required
  | element => cases none
  | together keys key objects id nested mode composite field flag above first found declared stored leads written single =>
      obtain ⟨rfl, listed⟩ := Composite.name_of_field?_eq_some declared
      have position := visited_composite schema computed update overwrite type keys objects id mode above
      have replaced : mode.replaces flag = true := by
        cases replaces : mode.replaces flag with
        | true => rfl
        | false =>
            rw [replaces] at required
            cases required
      refine .inr ⟨keys, field, objects, rfl, ⟨id, composite, position, found, listed⟩, by rw [leads]; rfl, single,
        ⟨id, mode, flag, above, first, replaced⟩, written_given objects field.name written, ?_⟩
      intro object among value given
      cases value with
      | obj members =>
          have present : .obj members ∈ presentOf objects field.name :=
            List.mem_filter.mpr ⟨List.mem_filterMap.mpr ⟨object, among, given⟩, rfl⟩
          cases List.filterMap_eq_nil_iff.mp none _ present
      | _ => rfl

-- A field that is reported missing is missing from an object that the update supplies, unless no object is given for
-- what is replaced: at the root of an update that overwrites, or for a field that is given something else.
theorem missing_from_supplied (found : List Violation) (path : String)
    (refused : check schema type update overwrite computed = .error (.incomplete found))
    (missing : .missing path ∈ found) :
    ∃ keys field, FieldAt schema computed type keys field ∧ isOutermostNonNull field.type = true ∧
      path = DotPath.under (DotPath.ofKeys keys) field.name ∧
      ((∃ object, Supplied update keys object ∧ Members.get? field.name object = none) ∨
        keys = [] ∧ overwrite = true ∧ (∀ object, ¬ Supplied update [] object) ∨
        EmptyHanded schema computed update overwrite type keys) := by
  obtain ⟨keys, objects, id, mode, visited, flag, composite, field, first, located, declared, member⟩ :=
    reported_visited schema computed update overwrite type found refused _ missing
  obtain ⟨place, ⟨outermost, ⟨_, other⟩ | ⟨absent, required, _⟩⟩ | ⟨_, other⟩⟩ := field_violation objects _ _ field _ member
  · cases other
  · have position := visited_composite schema computed update overwrite type keys objects id mode visited
    refine ⟨keys, field, ⟨id, composite, position, located, declared⟩, outermost, place, ?_⟩
    cases objects with
    | cons object rest =>
        have supplied := visited_supplied schema computed update overwrite type keys _ id mode visited object
          (List.mem_cons_self ..)
        exact .inl ⟨object, supplied, List.filterMap_eq_nil_iff.mp absent object (List.mem_cons_self ..)⟩
    | nil =>
        cases first
        rcases visited_empty schema computed update overwrite type keys [] id mode visited rfl required with
          ⟨rfl, overwrites, none⟩ | empty
        · refine .inr (.inl ⟨rfl, overwrites, ?_⟩)
          intro object supplied
          have member := (written_supplied update object).mpr supplied
          rw [none] at member
          cases member
        · exact .inr (.inr empty)
  · cases other

def contactText : String :=
  "type Contact \x7b name: String!, visits: Int, address: Address \x7d type Address \x7b street: String! \x7d"

def contacts : Schema where
  composites := [
    { name := "Contact", kind := .object, fields := [
      { name := "name", type := .nonNull (.scalar .string) },
      { name := "visits", type := .scalar .int },
      { name := "address", type := .named (.composite .object ⟨1⟩) }] },
    { name := "Address", kind := .object, fields := [{ name := "street", type := .nonNull (.scalar .string) }] }]

def moving : Members := [("set", .obj [("address", .obj [("_OVERWRITE", .bool true)])])]

theorem street_missing :
    check contacts ⟨0⟩ moving false Field.isComputed = .error (.incomplete [.missing "address.street"]) ∧
      ∃ keys field, FieldAt contacts Field.isComputed ⟨0⟩ keys field ∧
        "address.street" = DotPath.under (DotPath.ofKeys keys) field.name ∧
        ((∃ object, Supplied moving keys object ∧ Members.get? field.name object = none) ∨
          EmptyHanded contacts Field.isComputed moving false ⟨0⟩ keys) := by
  refine ⟨rfl, ?_⟩
  obtain ⟨keys, field, position, _, place, supplied | ⟨_, other, _⟩ | empty⟩ := missing_from_supplied contacts
    Field.isComputed moving false ⟨0⟩ [.missing "address.street"] "address.street" rfl (List.mem_singleton.mpr rfl)
  · exact ⟨keys, field, position, place, .inl supplied⟩
  · cases other
  · exact ⟨keys, field, position, place, .inr empty⟩

def clearing : Members := [("set", .obj [("name", .str "Ann"), ("address", .null)])]

def counting : Members := [("inc", .obj [("visits", Json.int 1)])]

theorem nothing_supplied :
    Schema.ofText contactText = .ok contacts ∧
      (check contacts ⟨0⟩ clearing true Field.isComputed = .error (.incomplete [.missing "address.street"]) ∧
        ∀ object, ¬ Supplied clearing ["address"] object) ∧
      check contacts ⟨0⟩ counting true Field.isComputed = .error (.incomplete [.missing "name"]) ∧
        ∀ object, ¬ Supplied counting [] object := by
  refine ⟨by decide +kernel, ⟨rfl, ?_⟩, rfl, ?_⟩
  · rintro object ⟨part, among, argument, given, holds⟩
    rcases (by simpa using among : part = "setOnInsert" ∨ part = "set") with rfl | rfl
    · cases given
    · cases given
      cases holds with
      | member _ _ value _ _ given inside =>
          cases given
          cases inside
  · rintro object ⟨part, among, argument, given, _⟩
    rcases (by simpa using among : part = "setOnInsert" ∨ part = "set") with rfl | rfl <;> cases given

end DocGraph.Update
