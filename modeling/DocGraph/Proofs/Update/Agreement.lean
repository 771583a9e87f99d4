import DocGraph.Proofs.InputType.Check
import DocGraph.Proofs.Update.Completeness
import DocGraph.Proofs.Update.Accepted

set_option autoImplicit false

namespace DocGraph

namespace Update

open DocGraph.Derivation

def Clean (value : Json) : Prop :=
  ∀ object, Json.ObjectIn value object → Overwrite.marker ∉ Members.keys object ∧ incPlaceholder ∉ Members.keys object

theorem object_clean (object : Members)
    (keys : ∀ key ∈ Members.keys object, key ≠ Overwrite.marker ∧ key ≠ incPlaceholder)
    (each : ∀ key value, (key, value) ∈ object → Clean value) : Clean (.obj object) := by
  intro other inside
  cases inside with
  | self => exact ⟨fun listed => (keys _ listed).1 rfl, fun listed => (keys _ listed).2 rfl⟩
  | member key value _ _ given below => exact each key value given other below

theorem list_clean (elements : List Json) (each : ∀ element ∈ elements, Clean element) : Clean (.arr elements) := by
  intro object inside
  cases inside with
  | element element _ _ given below => exact each element given object below

theorem free_clean (value : Json) (free : ObjectFree value) : Clean value := fun object inside => absurd inside (free object)

theorem leaf_object_free (type : NamedType) (value : Json) (holds : LeafHolds ObjectFree type value) : ObjectFree value := by
  cases value with
  | obj object => exact absurd holds (leaf_not_object type object)
  | arr elements =>
      cases type with
      | scalar scalar =>
          cases scalar with
          | custom name => exact holds
          | _ => cases holds
      | enum id =>
          obtain ⟨_, other⟩ := holds
          cases other
      | composite kind id => cases holds
  | _ => nofun

theorem unmarked_number (value : Json) (number : Number) (same : unmarked value = .num number) : value = .num number := by
  cases value with
  | obj object =>
      rw [unmarked] at same
      split at same <;> cases same
  | _ => exact same

theorem mem_unmarked (object : Members) (key : String) (value : Json) (member : (key, value) ∈ unmarkedMembers object) :
    key ≠ Overwrite.marker ∧ ∃ held, (key, held) ∈ object ∧ value = unmarked held := by
  induction object with
  | nil => cases member
  | cons entry rest ih =>
      rcases entry with ⟨name, content⟩
      by_cases marks : name = Overwrite.marker
      · rw [unmarkedMembers, if_pos marks] at member
        obtain ⟨plain, held, listed, same⟩ := ih member
        exact ⟨plain, held, List.mem_cons_of_mem _ listed, same⟩
      · rw [unmarkedMembers, if_neg marks] at member
        rcases List.mem_cons.mp member with here | later
        · cases here
          exact ⟨marks, content, List.mem_cons_self .., rfl⟩
        · obtain ⟨plain, held, listed, same⟩ := ih later
          exact ⟨plain, held, List.mem_cons_of_mem _ listed, same⟩

section

variable (schema : Schema) {part : Family} (reserved : schema.LeavesReserved)

include reserved

theorem shaped_clean (type : FieldType) (value : Json) (shaped : Plain schema part none type value) : Clean value := by
  generalize mine : none = own at shaped
  induction shaped with
  | null => exact free_clean .null nofun
  | nonNull own of value shaped ih => exact ih mine
  | list own of elements each ih => exact list_clean elements (fun element member => ih element member rfl)
  | leaf own type value holds => exact free_clean value (leaf_object_free type value holds)
  | object own kind id composite object found distinct marked declared fields ih =>
      have other (key : String) : own ≠ some key := by
        rw [← mine]
        nofun
      refine object_clean object ?_ ?_
      · intro key listed
        obtain ⟨field, known, _⟩ := declared key listed (other key)
        exact reserved_key schema reserved id composite key field found known
      · intro key value member
        obtain ⟨field, known, _⟩ := declared key (Members.mem_keys_of_mem key value object member) (other key)
        exact ih key value field member (other key) known mine

theorem unmarked_clean (names : schema.HasPlainNames) (type : FieldType) (value : Json)
    (shaped : Plain schema part (some Overwrite.marker) type value) : Clean (unmarked value) := by
  generalize mine : some Overwrite.marker = own at shaped
  induction shaped with
  | null => exact free_clean .null nofun
  | nonNull own of value shaped ih => exact ih mine
  | list own of elements each ih =>
      exact list_clean elements (fun element member => shaped_clean schema reserved of element (each element member))
  | leaf own type value holds =>
      cases value with
      | obj object => exact absurd holds (leaf_not_object type object)
      | _ => exact free_clean _ (leaf_object_free type _ holds)
  | object own kind id composite object found distinct marked declared fields ih =>
      have opened := shaped_opened schema names kind id object
        (.object own kind id composite object found distinct marked declared fields) (.inr mine.symm)
      have field (key : String) (value : Json) (member : (key, value) ∈ unmarkedMembers object) : ∃ field held,
          composite.field? key = some field ∧ (key, held) ∈ object ∧ own ≠ some key ∧ value = unmarked held := by
        obtain ⟨plain, held, listed, same⟩ := mem_unmarked object key value member
        have other : own ≠ some key := by
          rw [← mine]
          exact fun same => plain (Option.some.inj same).symm
        obtain ⟨field, known, _⟩ := declared key (Members.mem_keys_of_mem key held object listed) other
        exact ⟨field, held, known, listed, other, same⟩
      rw [unmarked_opened object opened]
      refine object_clean _ ?_ ?_
      · intro key listed
        obtain ⟨value, member⟩ := Members.exists_of_mem_keys key _ listed
        obtain ⟨field, _, known, _⟩ := field key value member
        exact reserved_key schema reserved id composite key field found known
      · intro key value member
        obtain ⟨field, held, known, listed, other, rfl⟩ := field key value member
        exact ih key held field listed other known mine

theorem path_not_reserved (id : CompositeIndex) (path : String) (field : Field)
    (reaches : Reaches schema id (DotPath.segments path) field) : path ≠ Overwrite.marker ∧ path ≠ incPlaceholder := by
  have other (key : String) (segment : DotPath.IsSegment key) (word : key = Overwrite.marker ∨ key = incPlaceholder) :
      path ≠ key := by
    rintro rfl
    rw [DotPath.segments_segment path segment] at reaches
    cases reaches with
    | here _ composite _ _ found declared _ =>
        obtain ⟨first, second⟩ := reserved_key schema reserved id composite path field found declared
        exact word.elim first second
    | deeper _ _ _ _ _ _ _ _ _ _ _ _ later => cases later
  exact ⟨other _ (by decide) (.inl rfl), other _ (by decide) (.inr rfl)⟩

end

section

variable (schema : Schema) (sound : schema.Sound) (names : schema.HasPlainNames) (reserved : schema.LeavesReserved)
  (id : CompositeIndex) (update : Members)
  (parts : PartsShaped schema ObjectFree (fun value => Overwrite.isFlag value = true) id update)

include parts

theorem part_optional (family : String × Family) (among : family ∈ updateParts) (value : Json)
    (given : Members.get? family.1 update = some value) : value = .null ∨ ∃ object, value = .obj object :=
  shaped_composite .object id value (parts family among value given)

include names reserved in
theorem parts_compile (overwrite : Bool) : ∃ compiled, compile update overwrite = .ok compiled := by
  obtain ⟨onInsert, first⟩ := optional_object_succeeds update "setOnInsert"
    (part_optional schema id update parts ("setOnInsert", .setOnInsert) (by decide))
  obtain ⟨set, sets⟩ := part_document_succeeds (setDocument (WriteMode.ofFlag overwrite) "set") update "set"
    (part_optional schema id update parts ("set", .set) (by decide)) (fun object given =>
      set_document_succeeds schema reserved names .object id object _ "set" (parts ("set", .set) (by decide) _ given))
  obtain ⟨inc, increments⟩ := part_document_succeeds incDocument update "inc"
    (part_optional schema id update parts ("inc", .inc) (by decide)) (fun object given =>
      inc_document_succeeds schema .object id object (parts ("inc", .inc) (by decide) _ given))
  exact ⟨_, (compile_ok update overwrite _).mpr ⟨onInsert, set, inc, first, sets, increments, rfl⟩⟩

include sound reserved in
theorem parts_checked (within : id.index < schema.composites.length) (overwrite : Bool) :
    check schema id update overwrite Field.isComputed = .ok () ∨
      ∃ found, check schema id update overwrite Field.isComputed = .error (.incomplete found) := by
  have writes : ∀ object ∈ writtenObjects update, ObjectWrites schema id object := by
    intro object member
    obtain ⟨word, listed, given⟩ := List.mem_filterMap.mp member
    obtain ⟨value, found, object'⟩ := Option.bind_eq_some_iff.mp given
    have inside := object_of_members [value] object (by simp [object'])
    cases List.mem_singleton.mp inside
    simp only [List.mem_cons, List.not_mem_nil, or_false] at listed
    rcases listed with rfl | rfl
    · exact ⟨.object, .setOnInsert, none, .inl rfl, parts ("setOnInsert", .setOnInsert) (by decide) _ found⟩
    · exact ⟨.object, .set, some Overwrite.marker, .inr rfl, parts ("set", .set) (by decide) _ found⟩
  obtain ⟨found, checked⟩ := violations_succeed schema sound reserved ((Json.obj update).depth + 1) (writtenObjects update) id
    "" (rootMode update overwrite) within writes
  unfold check violations
  rw [checked]
  cases found with
  | nil => exact .inl rfl
  | cons violation rest => exact .inr ⟨violation :: rest, rfl⟩

include names in
theorem set_document_plain (mode : WriteMode) (object document : Members) (unique : Json.UniqueKeys (.obj update))
    (given : Members.get? "set" update = some (.obj object)) (written : setDocument mode "set" object = .ok document) :
    ∀ entry ∈ document, ∃ field value, Reaches schema id (DotPath.segments entry.1) field ∧
      Plain schema .set (some Overwrite.marker) field.type value ∧ entry.2 = unmarked value := by
  intro entry member
  have shaped := parts ("set", .set) (by decide) _ given
  have held := Json.members_unique_mem update "set" _ unique.2 (Members.mem_of_get? "set" _ update given)
  have origin := set_document_from schema.layout (schema_plain_names schema names) object id "set" mode document
    (shaped_fits id object _ rfl shaped) held written entry member
  obtain ⟨field, value, reaches, _, below, same⟩ := origin_shaped .object id object entry not_object_free origin shaped
  exact ⟨field, value, reaches, below, same⟩

include names in
theorem inc_document_numbers (object document : Members) (given : Members.get? "inc" update = some (.obj object))
    (written : incDocument object = .ok document) : ∀ entry ∈ document, (∃ number, entry.2 = .num number) ∧
      ∃ field, Reaches schema id (DotPath.segments entry.1) field ∧ field.type.isList = false ∧
        field.type.isNumeric = true := by
  intro entry member
  have shaped := parts ("inc", .inc) (by decide) _ given
  obtain ⟨origin, number, counted⟩ := inc_document_from schema.layout (schema_plain_names schema names) object id document
    (shaped_fits id object _ rfl shaped) written entry member
  obtain ⟨field, value, reaches, takes, below, same⟩ := origin_shaped .object id object entry not_object_free origin shaped
  have given := unmarked_number value number (same.symm.trans counted)
  subst given
  rw [Family.takes, shaped_number field.type number below, Bool.and_eq_true, Bool.not_eq_true'] at takes
  exact ⟨⟨number, counted⟩, field, reaches, takes⟩

include names reserved in
theorem set_document_clean (mode : WriteMode) (object document : Members) (unique : Json.UniqueKeys (.obj update))
    (given : Members.get? "set" update = some (.obj object)) (written : setDocument mode "set" object = .ok document) :
    Clean (.obj document) := by
  have plain := set_document_plain schema names id update parts mode object document unique given written
  apply object_clean
  · intro key listed
    obtain ⟨value, member⟩ := Members.exists_of_mem_keys key document listed
    obtain ⟨field, _, reaches, _⟩ := plain (key, value) member
    exact path_not_reserved schema reserved id key field reaches
  · intro key value member
    obtain ⟨field, held, _, shaped, rfl⟩ := plain (key, value) member
    exact unmarked_clean schema reserved names field.type held shaped

include names reserved in
theorem inc_document_clean (object document : Members) (given : Members.get? "inc" update = some (.obj object))
    (written : incDocument object = .ok document) : Clean (.obj document) := by
  have numbers := inc_document_numbers schema names id update parts object document given written
  apply object_clean
  · intro key listed
    obtain ⟨value, member⟩ := Members.exists_of_mem_keys key document listed
    obtain ⟨_, field, reaches, _⟩ := numbers (key, value) member
    exact path_not_reserved schema reserved id key field reaches
  · intro key value member
    obtain ⟨⟨_, rfl⟩, _⟩ := numbers (key, value) member
    exact free_clean _ nofun

include names reserved in
theorem compiled_clean (overwrite : Bool) (compiled : Compiled) (unique : Json.UniqueKeys (.obj update))
    (made : compile update overwrite = .ok compiled) : Clean (.obj compiled.document) := by
  obtain ⟨onInsert, set, inc, first, sets, increments, rfl⟩ := (compile_ok update overwrite compiled).mp made
  apply object_clean
  · intro key listed
    obtain ⟨value, member⟩ := Members.exists_of_mem_keys key _ listed
    rcases mem_operators onInsert set inc key value member with ⟨rfl, _⟩ | ⟨rfl, _⟩ | ⟨rfl, _⟩
    all_goals exact ⟨by decide, by decide⟩
  · intro key value member
    rcases mem_operators onInsert set inc key value member with
      ⟨_, object, rfl, rfl⟩ | ⟨_, document, rfl, rfl⟩ | ⟨_, document, rfl, rfl⟩
    · have given := (optional_object_ok update object "setOnInsert").mp first
      exact shaped_clean schema reserved _ _ (parts ("setOnInsert", .setOnInsert) (by decide) _ given)
    · obtain ⟨object, given, written⟩ := (part_document_ok _ update "set" _ sets document).mp rfl
      exact set_document_clean schema names reserved id update parts _ object document unique given written
    · obtain ⟨object, given, written⟩ := (part_document_ok _ update "inc" _ increments document).mp rfl
      exact inc_document_clean schema names reserved id update parts object document given written

include names in
theorem compiled_paths (overwrite : Bool) (compiled : Compiled) (unique : Json.UniqueKeys (.obj update))
    (made : compile update overwrite = .ok compiled) :
    (∀ value, Members.get? "$set" compiled.document = some value → ∃ document, value = .obj document ∧
      ∀ key ∈ Members.keys document, ∃ field, Reaches schema id (DotPath.segments key) field) ∧
    ∀ value, Members.get? "$inc" compiled.document = some value → ∃ document, value = .obj document ∧
      ∀ key ∈ Members.keys document, ∃ field, Reaches schema id (DotPath.segments key) field ∧
        field.type.isList = false ∧ field.type.isNumeric = true := by
  constructor
  · intro value given
    obtain ⟨object, document, asked, written, rfl⟩ := compile_set update overwrite compiled value made given
    refine ⟨document, rfl, ?_⟩
    intro key listed
    obtain ⟨value, member⟩ := Members.exists_of_mem_keys key document listed
    obtain ⟨field, _, reaches, _⟩ := set_document_plain schema names id update parts _ object document unique asked written
      (key, value) member
    exact ⟨field, reaches⟩
  · intro value given
    obtain ⟨object, document, asked, written, rfl⟩ := compile_inc update overwrite compiled value made given
    refine ⟨document, rfl, ?_⟩
    intro key listed
    obtain ⟨value, member⟩ := Members.exists_of_mem_keys key document listed
    obtain ⟨_, field, counts⟩ := inc_document_numbers schema names id update parts object document asked written (key, value)
      member
    exact ⟨field, counts⟩

end

variable (schema : Schema)

theorem marker_flag (registry : Registry) (grounded : Grounded schema registry)
    (boolean : "Boolean" ∉ schema.enums.map Enumeration.name) (value : Json)
    (conforms : TypeRef.Conforms registry schema.scalars ⟨"Boolean"⟩ value) : Overwrite.isFlag value = true := by
  have unregistered := builtin_unregistered schema registry grounded .boolean rfl boolean
  rcases TypeRef.conforms_builtin ⟨"Boolean"⟩ .boolean value rfl unregistered rfl conforms with rfl | accepted
  · rfl
  · cases value with
    | bool flag => rfl
    | _ => cases accepted

def CustomsObjectFree (type : CompositeIndex) (update : Members) : Prop :=
  ∀ key value, (key, value) ∈ update →
    ∀ inner, CustomAt schema (.named (.composite .object type)) value inner → ObjectFree inner

theorem conforming_updates_agree (text : String) (schema : Schema) (read : Schema.ofText text = .ok schema)
    (free : CollisionFree schema) (reserved : schema.LeavesReserved)
    (boolean : "Boolean" ∉ schema.enums.map Enumeration.name) (session : Session) (reached : session.Reached schema)
    (type : CompositeIndex) (within : type.index < schema.composites.length) :
    ∃ name after notices,
      session.call schema (.composite .update type []) = (after, notices, .ok (.reference ⟨name⟩)) ∧
      ∀ update overwrite, Json.UniqueKeys (.obj update) →
        TypeRef.Conforms after.registry schema.scalars ⟨name⟩ (.obj update) → CustomsObjectFree schema type update →
        ∃ compiled, compile update overwrite = .ok compiled ∧
          (check schema type update overwrite Field.isComputed = .ok () ∨
            ∃ found, check schema type update overwrite Field.isComputed = .error (.incomplete found)) ∧
          Clean (.obj compiled.document) ∧
          (∀ value, Members.get? "$set" compiled.document = some value → ∃ document, value = .obj document ∧
            ∀ key ∈ Members.keys document, ∃ field, Reaches schema type (DotPath.segments key) field) ∧
          ∀ value, Members.get? "$inc" compiled.document = some value → ∃ document, value = .obj document ∧
            ∀ key ∈ Members.keys document, ∃ field, Reaches schema type (DotPath.segments key) field ∧
              field.type.isList = false ∧ field.type.isNumeric = true := by
  have sound := Schema.sound_of_text text schema read
  have names := Schema.plain_of_text text schema read
  obtain ⟨name, after, notices, named, called, grounded, contained⟩ :=
    composite_call schema sound session reached .update type [] within
  refine ⟨name, after, notices, called, ?_⟩
  intro update overwrite unique conforms customs
  have parts := update_parts_shaped schema after.registry ObjectFree (fun value => Overwrite.isFlag value = true) text read free
    grounded (marker_flag schema after.registry grounded boolean) type within name update named contained conforms customs
  obtain ⟨compiled, made⟩ := parts_compile schema names reserved type update parts overwrite
  exact ⟨compiled, made, parts_checked schema sound reserved type update parts within overwrite,
    compiled_clean schema names reserved type update parts overwrite compiled unique made,
    compiled_paths schema names type update parts overwrite compiled unique made⟩

def typesOf (family : Family) (schema : Schema) : Registry := (Session.call schema {} (.composite family ⟨0⟩ [])).1.registry

structure Conforming (family : Family) (text name : String) (schema : Schema) (object : Members) : Prop where
  read : Schema.ofText text = .ok schema
  free : CollisionFree schema
  within : 0 < schema.composites.length
  answered : (Session.call schema {} (.composite family ⟨0⟩ [])).2.2 = .ok (.reference ⟨name⟩)
  unique : Json.UniqueKeys (.obj object)
  conforms : TypeRef.Conforms (typesOf family schema) schema.scalars ⟨name⟩ (.obj object)

theorem Conforming.after_call {family : Family} {text name : String} {schema : Schema} {object : Members}
    (conforming : Conforming family text name schema object) (answer : String) (after : Session) (notices : List Notice)
    (called : Session.call schema {} (.composite family ⟨0⟩ []) = (after, notices, .ok (.reference ⟨answer⟩))) :
    answer = name ∧ after.registry = typesOf family schema ∧
      TypeRef.Conforms after.registry schema.scalars ⟨answer⟩ (.obj object) := by
  have registry : typesOf family schema = after.registry := congrArg (fun result => result.1.registry) called
  have answered := (congrArg (fun result => result.2.2) called).symm.trans conforming.answered
  cases answered
  exact ⟨rfl, registry.symm, registry ▸ conforming.conforms⟩

def stockText : String :=
  "scalar Date type Shop \x7b name: String, opened: Date, stock: Stock, aisles: [Stock!] \x7d " ++
    "type Stock \x7b count: Int!, weight: Float \x7d"

def stocks : Schema where
  composites := [
    { name := "Shop", kind := .object, fields := [
      { name := "name", type := .scalar .string },
      { name := "opened", type := .scalar (.custom "Date") },
      { name := "stock", type := .named (.composite .object ⟨1⟩) },
      { name := "aisles", type := .list (.nonNull (.named (.composite .object ⟨1⟩))) }] },
    { name := "Stock", kind := .object, fields := [
      { name := "count", type := .nonNull (.scalar .int) },
      { name := "weight", type := .scalar .float }] }]
  scalars := ["Date"]

def restocking : Members := [
  ("setOnInsert", .obj [("name", .str "Corner")]),
  ("set", .obj [("opened", .str "2020"), ("stock", .obj [("_OVERWRITE", .bool false), ("weight", Json.int 3)]),
    ("aisles", .arr [.obj [("count", Json.int 2)]])]),
  ("inc", .obj [("stock", .obj [("count", Json.int 1)])])]

def restocked : Members := [
  ("$setOnInsert", .obj [("name", .str "Corner")]),
  ("$set", .obj [("opened", .str "2020"), ("stock.weight", Json.int 3), ("aisles", .arr [.obj [("count", Json.int 2)]])]),
  ("$inc", .obj [("stock.count", Json.int 1)])]

theorem restocking_conforms : Conforming .update stockText "ShopUpdateType" stocks restocking where
  read := by decide +kernel
  free := by decide +kernel
  within := by decide
  answered := by decide +kernel
  unique := by
    simp [restocking, Json.UniqueKeys, Json.MembersUnique, Json.ElementsUnique, Members.keys, Json.int]
  conforms := TypeRef.conforms_of_checks _ _ 6 _ _ (by decide +kernel)

theorem stock_customs (value inner : Json) : ¬ CustomAt stocks (.named (.composite .object ⟨1⟩)) value inner := by
  intro below
  cases below with
  | member _ _ composite _ key field value _ found declared given below =>
      cases found
      have listed := (Composite.name_of_field?_eq_some declared).2
      simp only [List.mem_cons, List.not_mem_nil, or_false] at listed
      rcases listed with rfl | rfl
      · cases below with
        | nonNull _ _ _ below => cases below
      · cases below

theorem shop_customs (object : Members) (inner : Json)
    (below : CustomAt stocks (.named (.composite .object ⟨0⟩)) (.obj object) inner) : ("opened", inner) ∈ object := by
  cases below with
  | member _ _ composite _ key field value _ found declared given below =>
      cases found
      obtain ⟨named, listed⟩ := Composite.name_of_field?_eq_some declared
      simp only [List.mem_cons, List.not_mem_nil, or_false] at listed
      rcases listed with rfl | rfl | rfl | rfl
      · cases below
      · cases named
        cases below
        exact given
      · exact absurd below (stock_customs value inner)
      · cases below with
        | element _ _ element _ _ below =>
            cases below with
            | nonNull _ _ _ below => exact absurd below (stock_customs element inner)

theorem restocking_customs : CustomsObjectFree stocks ⟨0⟩ restocking := by
  intro key value member inner below
  simp only [restocking, List.mem_cons, Prod.mk.injEq, List.not_mem_nil, or_false] at member
  rcases member with ⟨_, rfl⟩ | ⟨_, rfl⟩ | ⟨_, rfl⟩
  all_goals
    have opened := shop_customs _ inner below
    simp at opened
  subst opened
  nofun

theorem restocking_agrees :
    Conforming .update stockText "ShopUpdateType" stocks restocking ∧ stocks.LeavesReserved ∧
      "Boolean" ∉ stocks.enums.map Enumeration.name ∧ Session.Reached stocks {} ∧ CustomsObjectFree stocks ⟨0⟩ restocking ∧
      compile restocking false = .ok ⟨restocked, ⟨true⟩⟩ ∧ Clean (.obj restocked) ∧
      check stocks ⟨0⟩ restocking false Field.isComputed = .error (.incomplete [.missing "stock.count"]) := by
  have reserved : stocks.LeavesReserved := by decide
  have boolean : "Boolean" ∉ stocks.enums.map Enumeration.name := by decide
  have written : compile restocking false = .ok ⟨restocked, ⟨true⟩⟩ := by rfl
  refine ⟨restocking_conforms, reserved, boolean, .fresh, restocking_customs, written, ?_, by rfl⟩
  obtain ⟨name, after, notices, called, agree⟩ := conforming_updates_agree stockText stocks restocking_conforms.read
    restocking_conforms.free reserved boolean {} .fresh ⟨0⟩ restocking_conforms.within
  obtain ⟨_, _, conforms⟩ := restocking_conforms.after_call name after notices called
  obtain ⟨compiled, made, _, clean, _⟩ := agree restocking false restocking_conforms.unique conforms restocking_customs
  cases made.symm.trans written
  exact clean

def flagText : String := "enum Boolean \x7b YES NO \x7d type User \x7b active: Boolean, name: String \x7d"

def flagged : Schema where
  composites := [{
    name := "User"
    kind := .object
    fields := [{ name := "active", type := .named (.enum ⟨0⟩) }, { name := "name", type := .scalar .string }] }]
  enums := [{ name := "Boolean", values := ["YES", "NO"] }]

def flagging : Members := [("set", .obj [("_OVERWRITE", .str "YES"), ("name", .str "Ann")])]

theorem flagging_conforms : Conforming .update flagText "UserUpdateType" flagged flagging where
  read := by decide +kernel
  free := by decide +kernel
  within := by decide
  answered := by decide +kernel
  unique := by simp [flagging, Json.UniqueKeys, Json.MembersUnique, Members.keys]
  conforms := TypeRef.conforms_of_checks _ _ 6 _ _ (by decide +kernel)

-- An enum of the name of the built-in scalar types the marker.
theorem enum_marker_refused :
    Conforming .update flagText "UserUpdateType" flagged flagging ∧ flagged.LeavesReserved ∧ CustomsObjectFree flagged ⟨0⟩ flagging ∧
      compile flagging false = .error (.invalidArgument "set" .overwriteNotBoolean) ∧
      check flagged ⟨0⟩ flagging false Field.isComputed = .error (.invalidArgument "" .overwriteNotBoolean) := by
  refine ⟨flagging_conforms, by decide, ?_, by rfl, by rfl⟩
  intro key value member inner below
  cases below with
  | member _ _ composite _ key field value _ found declared given below =>
      cases found
      have listed := (Composite.name_of_field?_eq_some declared).2
      simp only [List.mem_cons, List.not_mem_nil, or_false] at listed
      rcases listed with rfl | rfl <;> cases below

end Update

end DocGraph
