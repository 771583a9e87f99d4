import DocGraph.Proofs.Update.Agreement

set_option autoImplicit false

namespace DocGraph.Update

open DocGraph.Derivation

def Supplies (layout : Layout) (root : String → Option layout.Owner) (update : Members) (part : String × Family)
    (path : List String) (leaf : Bool) : Prop :=
  ∃ owner object field value, root part.1 = some owner ∧ Members.get? part.1 update = some (.obj object) ∧
    PlacedAt layout (ownKey part.2) owner object path field value ∧ (layout.inside? field).isNone = leaf

def suppliedPlaces (layout : Layout) (root : String → Option layout.Owner) (update : Members) (part : String × Family) :
    List (List String × Bool) :=
  match root part.1, Members.get? part.1 update with
  | some owner, some (.obj object) => placesOf layout (ownKey part.2) owner object
  | _, _ => []

theorem supplies_listed (layout : Layout) (root : String → Option layout.Owner) (update : Members) (part : String × Family)
    (path : List String) (leaf : Bool) (supplies : Supplies layout root update part path leaf) :
    (path, leaf) ∈ suppliedPlaces layout root update part := by
  obtain ⟨owner, object, field, value, rooted, given, placed, rfl⟩ := supplies
  rw [suppliedPlaces, rooted, given]
  exact placed_listed owner object path field value placed

def MeetAt (path : List String) (a b : String) : Prop :=
  path = DotPath.segments a ∧ path <+: DotPath.segments b ∨ path = DotPath.segments b ∧ path <+: DotPath.segments a

def LeavesApart (supplied : String × Family → List String → Bool → Prop) : Prop :=
  ∀ one ∈ updateParts, ∀ two ∈ updateParts, one ≠ two → ∀ path leaf, supplied one path true → ¬ supplied two path leaf

-- Operators of parts that have no leaf in common meet at most at objects that both parts have.
def MeetAtObjects (supplied : String × Family → List String → Bool → Prop) (document : Members) : Prop :=
  LeavesApart supplied → ∀ one ∈ updateParts, ∀ two ∈ updateParts, one ≠ two → ∀ left right,
    Members.get? ("$" ++ one.1) document = some (.obj left) → Members.get? ("$" ++ two.1) document = some (.obj right) →
    ∀ a ∈ Members.keys left, ∀ b ∈ Members.keys right,
      DotPath.Apart a b ∨ ∃ path, supplied one path false ∧ supplied two path false ∧ MeetAt path a b

theorem leaves_apart (layout : Layout) (root : String → Option layout.Owner) (update : Members)
    (apart : ∀ one ∈ updateParts, ∀ two ∈ updateParts, one ≠ two → ∀ place ∈ suppliedPlaces layout root update one,
      place.2 = true → ∀ other ∈ suppliedPlaces layout root update two, other.1 ≠ place.1) :
    LeavesApart (Supplies layout root update) := by
  intro one first two second different path leaf here there
  have mine := supplies_listed layout root update one path true here
  have theirs := supplies_listed layout root update two path leaf there
  exact apart one first two second different _ mine rfl _ theirs rfl

def Accounts (supplied : List String → Bool → Prop) (key : String) : Prop :=
  ∃ path leaf, supplied path leaf ∧ path <+: DotPath.segments key ∧ (leaf = true ∨ path = DotPath.segments key)

section

variable (one two : List String → Bool → Prop)

def Rooted (supplied : List String → Bool → Prop) : Prop := ∀ path leaf, supplied path leaf →
  path ≠ [] ∧ ∀ front, front <+: path → front ≠ [] → ∃ inner, supplied front inner

-- The shorter of the two places is one of both, as it lies on the way to the other one. It is no leaf then, so it is the
-- path of the key that it accounts for.
theorem keys_meet (mine : Rooted one) (theirs : Rooted two) (apart : ∀ path leaf, one path true → ¬ two path leaf)
    (clear : ∀ path leaf, two path true → ¬ one path leaf) (a b : String) (left : Accounts one a) (right : Accounts two b)
    (along : DotPath.segments a <+: DotPath.segments b) : ∃ path, one path false ∧ two path false ∧ MeetAt path a b := by
  obtain ⟨p, leaf, first, inside, exact⟩ := left
  obtain ⟨q, leaf', second, inside', exact'⟩ := right
  have open' (path : List String) (flag flag' : Bool) (here : one path flag) (there : two path flag') :
      flag = false ∧ flag' = false := by
    constructor
    · cases flag with
      | false => rfl
      | true => exact absurd there (apart path flag' here)
    · cases flag' with
      | false => rfl
      | true => exact absurd here (clear path flag there)
  rcases List.prefix_or_prefix_of_prefix (inside.trans along) inside' with shorter | shorter
  · obtain ⟨flag, shared⟩ := (theirs q leaf' second).2 p shorter (mine p leaf first).1
    obtain ⟨rfl, rfl⟩ := open' p leaf flag first shared
    have whole : p = DotPath.segments a := exact.resolve_left nofun
    exact ⟨p, first, shared, .inl ⟨whole, whole ▸ along⟩⟩
  · obtain ⟨flag, shared⟩ := (mine p leaf first).2 q shorter (theirs q leaf' second).1
    obtain ⟨rfl, rfl⟩ := open' q flag leaf' shared second
    exact ⟨q, shared, second, .inr ⟨exact'.resolve_left nofun, shorter.trans inside⟩⟩

end

section

variable (layout : Layout) (names : layout.HasPlainNames) (root : String → Option layout.Owner) (update : Members)

theorem supplies_rooted (part : String × Family) : Rooted (Supplies layout root update part) := by
  rintro path leaf ⟨owner, object, field, value, rooted, given, placed, _⟩
  refine ⟨placed_nonempty owner object path field value placed, ?_⟩
  intro front inside some
  obtain ⟨through, held, before⟩ := placed_prefix owner object path front field value placed inside some
  exact ⟨_, owner, object, through, held, rooted, given, before, rfl⟩

theorem origin_accounts (part : String × Family) (owner : layout.Owner) (object : Members) (entry : String × Json)
    (rooted : root part.1 = some owner) (given : Members.get? part.1 update = some (.obj object))
    (origin : Origin layout (ownKey part.2) owner object [] entry) : Accounts (Supplies layout root update part) entry.1 := by
  obtain ⟨path, field, value, placed, origin⟩ := origin
  refine ⟨path, _, ⟨owner, object, field, value, rooted, given, placed, rfl⟩, ?_⟩
  rcases origin with ⟨cut, _⟩ | ⟨leaf, _, inside⟩
  · rw [List.nil_append] at cut
    exact ⟨cut ▸ List.prefix_refl _, .inr cut.symm⟩
  · exact ⟨inside, .inl (by rw [leaf]; rfl)⟩

variable (unique : Json.UniqueKeys (.obj update)) (fits : ∀ part ∈ updateParts, ∀ object,
  Members.get? part.1 update = some (.obj object) → ∃ owner, root part.1 = some owner ∧ Fits layout (ownKey part.2) owner object)

include names unique fits

theorem operator_accounts (overwrite : Bool) (compiled : Compiled) (made : compile update overwrite = .ok compiled)
    (part : String × Family) (among : part ∈ updateParts) (written : Members)
    (given : Members.get? ("$" ++ part.1) compiled.document = some (.obj written)) (key : String)
    (listed : key ∈ Members.keys written) : Accounts (Supplies layout root update part) key := by
  obtain ⟨value, member⟩ := Members.exists_of_mem_keys key written listed
  simp only [updateParts, List.mem_cons, List.not_mem_nil, or_false] at among
  rcases among with rfl | rfl | rfl
  · obtain ⟨object, asked, same⟩ := compile_on_insert update overwrite compiled _ made given
    cases same
    obtain ⟨owner, rooted, fit⟩ := fits ("setOnInsert", .setOnInsert) (by decide) written asked
    obtain ⟨field, gives⟩ := fits_member owner written key value fit member (by simp [ownKey])
    have cut := DotPath.segments_segment key (names owner key field gives.declared).1
    exact ⟨[key], _, ⟨owner, written, field, value, rooted, asked, gives.here, rfl⟩, cut ▸ List.prefix_refl _, .inr cut.symm⟩
  · obtain ⟨object, document, asked, here, same⟩ := compile_set update overwrite compiled _ made given
    cases same
    obtain ⟨owner, rooted, fit⟩ := fits ("set", .set) (by decide) object asked
    have held := Json.members_unique_mem update "set" _ unique.2 (Members.mem_of_get? "set" _ update asked)
    exact origin_accounts layout root update ("set", .set) owner object (key, value) rooted asked
      (set_document_from layout names object owner "set" _ written fit held here (key, value) member)
  · obtain ⟨object, document, asked, here, same⟩ := compile_inc update overwrite compiled _ made given
    cases same
    obtain ⟨owner, rooted, fit⟩ := fits ("inc", .inc) (by decide) object asked
    exact origin_accounts layout root update ("inc", .inc) owner object (key, value) rooted asked
      (inc_document_from layout names object owner written fit here (key, value) member).1

theorem operators_meet (overwrite : Bool) (compiled : Compiled) (made : compile update overwrite = .ok compiled) :
    MeetAtObjects (Supplies layout root update) compiled.document := by
  intro leaves one first two second different left right mine theirs a listed b listed'
  have here := operator_accounts layout names root update unique fits overwrite compiled made one first left mine a listed
  have there := operator_accounts layout names root update unique fits overwrite compiled made two second right theirs b listed'
  by_cases along : DotPath.Along (DotPath.segments a) (DotPath.segments b)
  · right
    have apart := leaves one first two second different
    have clear := leaves two second one first (Ne.symm different)
    rcases along with below | above
    · exact keys_meet _ _ (supplies_rooted layout root update one) (supplies_rooted layout root update two) apart clear a b
        here there below
    · obtain ⟨path, there, here, meet⟩ := keys_meet _ _ (supplies_rooted layout root update two)
        (supplies_rooted layout root update one) clear apart b a there here above
      exact ⟨path, here, there, meet.symm⟩
  · exact .inl (DotPath.apart_of_segments a b along)

end

def partType? (registry : Registry) (name word : String) : Option String :=
  (registry.layout.field? name word).bind registry.layout.inside?

theorem registered_parts_fit (schema : Schema) (sound : schema.Sound) (registry : Registry)
    (grounded : Grounded schema registry) (id : CompositeIndex) (name : String) (update : Members)
    (named : compositeName schema .update id = .ok name) (contained : registry.contains name = true)
    (conforms : TypeRef.Conforms registry schema.scalars ⟨name⟩ (.obj update)) (part : String × Family) (object : Members)
    (given : Members.get? part.1 update = some (.obj object)) :
    ∃ owner, partType? registry name part.1 = some owner ∧ Fits registry.layout (ownKey part.2) owner object := by
  obtain ⟨composite, _, rfl⟩ := (composite_name_ok schema .update id name).mp named
  have isName := composite_is_name composite.name .update
  obtain ⟨entry, found⟩ := Option.isSome_iff_exists.mp
    (conforms_entry schema registry grounded schema.scalars _ update isName contained conforms)
  obtain ⟨type, looked, same⟩ := Option.bind_eq_some_iff.mp found
  cases type with
  | enum enum => cases same
  | object object' =>
      cases same
      obtain ⟨target, settled⟩ := grounded _ _ looked
      have other : ∀ id, target ≠ .enumCopy id := by
        rintro id rfl
        obtain ⟨_, _, made⟩ := (except_bind_ok _ _ _).mp settled.defined
        cases Except.ok.inj made
      obtain ⟨id', scope, rfl⟩ := update_named schema target id _ settled.named named other
      rcases TypeRef.conforms_object _ entry _ isName looked conforms with null | ⟨members, same, _, each⟩
      · cases null
      · cases same
        obtain ⟨input, offered, conforms⟩ := each part.1 _ (Members.mem_of_get? part.1 _ update given)
        obtain ⟨_, _, _, partName, partNamed, registered, typed⟩ :=
          settled_update schema sound registry _ entry id' scope settled part.1 input offered
        rw [typed] at conforms
        have plain : TypeRef.IsName ⟨partName⟩ := by
          obtain ⟨held, _, rfl⟩ := (composite_name_ok schema _ id' partName).mp partNamed
          exact composite_is_name held.name _
        have called := TypeRef.named_of_name ⟨partName⟩ plain
        have leads := conforms_entry schema registry grounded schema.scalars ⟨partName⟩ object plain registered conforms
        rw [← called] at leads
        have fit := conforms_fits registry schema.scalars (ownKey part.2) ⟨partName⟩ _ object conforms rfl leads
        have asked := (registry_field registry _ part.1 input).mpr ⟨entry, looked, offered⟩
        refine ⟨TypeRef.named ⟨partName⟩, ?_, fit⟩
        rw [partType?, asked, Option.bind_some, ← typed]
        exact if_pos (typed ▸ leads)

-- For every session and every update of the type that it derives. The places are those of the input types, and where no
-- targets share a name also those of the schema.
theorem operators_meet_at_objects (text : String) (schema : Schema) (read : Schema.ofText text = .ok schema)
    (session : Session) (reached : session.Reached schema) (type : CompositeIndex)
    (within : type.index < schema.composites.length) :
    ∃ name after notices,
      session.call schema (.composite .update type []) = (after, notices, .ok (.reference ⟨name⟩)) ∧
      ∀ update overwrite compiled, Json.UniqueKeys (.obj update) →
        TypeRef.Conforms after.registry schema.scalars ⟨name⟩ (.obj update) → compile update overwrite = .ok compiled →
        MeetAtObjects (Supplies after.registry.layout (partType? after.registry name) update) compiled.document ∧
        (CollisionFree schema →
          MeetAtObjects (Supplies schema.layout (fun _ => some type) update) compiled.document) := by
  have sound := Schema.sound_of_text text schema read
  have names := Schema.plain_of_text text schema read
  obtain ⟨name, after, notices, named, called, grounded, contained⟩ :=
    composite_call schema sound session reached .update type [] within
  refine ⟨name, after, notices, called, ?_⟩
  intro update overwrite compiled unique conforms made
  constructor
  · refine operators_meet _ (registry_plain_names after.registry schema names grounded) _ update unique ?_ overwrite compiled made
    intro part _ object given
    exact registered_parts_fit schema sound after.registry grounded type name update named contained conforms part object given
  · intro free
    have parts := update_parts_shaped schema after.registry (fun _ => True) (fun _ => True) text read free grounded
      (fun _ _ => trivial) type within name update named contained conforms (fun _ _ _ _ _ => trivial)
    refine operators_meet _ (schema_plain_names schema names) _ update unique ?_ overwrite compiled made
    intro part among object given
    exact ⟨type, rfl, shaped_fits type object _ rfl (parts part among _ given)⟩

theorem restocking_meets_at_objects :
    Conforming .update stockText "ShopUpdateType" stocks restocking ∧ Session.Reached stocks {} ∧
      compile restocking false = .ok ⟨restocked, ⟨true⟩⟩ ∧
      LeavesApart (Supplies (typesOf .update stocks).layout (partType? (typesOf .update stocks) "ShopUpdateType") restocking) ∧
      MeetAtObjects (Supplies (typesOf .update stocks).layout (partType? (typesOf .update stocks) "ShopUpdateType") restocking)
        restocked ∧
      LeavesApart (Supplies stocks.layout (fun _ => some ⟨0⟩) restocking) ∧
      MeetAtObjects (Supplies stocks.layout (fun _ => some ⟨0⟩) restocking) restocked := by
  have written : compile restocking false = .ok ⟨restocked, ⟨true⟩⟩ := by rfl
  obtain ⟨name, after, notices, called, meet⟩ :=
    operators_meet_at_objects stockText stocks restocking_conforms.read {} .fresh ⟨0⟩ restocking_conforms.within
  obtain ⟨rfl, registry, conforms⟩ := restocking_conforms.after_call name after notices called
  obtain ⟨inputs, schemas⟩ := meet restocking false ⟨restocked, ⟨true⟩⟩ restocking_conforms.unique conforms written
  rw [registry] at inputs
  exact ⟨restocking_conforms, .fresh, written, leaves_apart _ _ _ (by decide +kernel), inputs,
    leaves_apart _ _ _ (by decide +kernel), schemas restocking_conforms.free⟩

def boxText : String := "type Box \x7b nested: Part \x7d type Part \x7b a: Int, b: Int \x7d"

def boxes : Schema where
  composites := [
    { name := "Box", kind := .object, fields := [{ name := "nested", type := .named (.composite .object ⟨1⟩) }] },
    { name := "Part", kind := .object, fields := [
      { name := "a", type := .scalar .int },
      { name := "b", type := .scalar .int }] }]

def filling : Members := [
  ("setOnInsert", .obj [("nested", .obj [("a", Json.int 1)])]),
  ("set", .obj [("nested", .obj [("b", Json.int 2)])])]

def filled : Members := [
  ("$setOnInsert", .obj [("nested", .obj [("a", Json.int 1)])]),
  ("$set", .obj [("nested.b", Json.int 2)])]

theorem filling_conforms : Conforming .update boxText "BoxUpdateType" boxes filling where
  read := by decide +kernel
  free := by decide +kernel
  within := by decide
  answered := by decide +kernel
  unique := by simp [filling, Json.UniqueKeys, Json.MembersUnique, Members.keys, Json.int]
  conforms := TypeRef.conforms_of_checks _ _ 6 _ _ (by decide +kernel)

-- The inserted object and the merge into it meet, though no leaf is in both parts and the check finds nothing missing.
theorem nested_parts_meet :
    Conforming .update boxText "BoxUpdateType" boxes filling ∧ check boxes ⟨0⟩ filling false Field.isComputed = .ok () ∧
      compile filling false = .ok ⟨filled, ⟨true⟩⟩ ∧
      LeavesApart (Supplies boxes.layout (fun _ => some ⟨0⟩) filling) ∧
      LeavesApart (Supplies (typesOf .update boxes).layout (partType? (typesOf .update boxes) "BoxUpdateType") filling) ∧
      ¬ DotPath.Apart "nested" "nested.b" := by
  refine ⟨filling_conforms, by rfl, by rfl, leaves_apart _ _ _ (by decide +kernel), leaves_apart _ _ _ (by decide +kernel), ?_⟩
  intro apart
  exact absurd apart.2.2 (by decide)

end DocGraph.Update
