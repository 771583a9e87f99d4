import DocGraph.Proofs.Flattening
import DocGraph.Proofs.Update.Agreement

set_option autoImplicit false

namespace DocGraph

open DocGraph.Derivation
open DocGraph.Update (Reaches)

namespace FlatArgument

def family : FlatArgument → Family
  | sort => .sort
  | inc => .inc

def admits : FlatArgument → FieldType → Bool
  | sort, _ => true
  | inc, type => type.isNumeric

variable (argument : FlatArgument)

theorem nested_family (type : FieldType) : argument.family.nested type = argument.family := by
  cases argument <;> rfl

theorem wrapped_as_is (scope : Scope) (field : Field) (reference : TypeRef) :
    wrapped argument.family scope field reference = reference := by
  cases argument <;> rfl

theorem own_placeholder (name : String) (noneTaken : Bool) (own : InputValue)
    (member : own ∈ ownFields argument.family name noneTaken) : own.name = argument.placeholder := by
  cases argument with
  | sort | inc =>
      cases noneTaken with
      | true =>
          cases List.mem_singleton.mp member
          rfl
      | false => cases member

theorem taken_single (field : Field) (takes : argument.family.takes field = true) :
    field.type.isList = false ∧ (field.type.composite? = none → argument.admits field.type = true) := by
  cases argument with
  | sort => exact ⟨by simpa [family, Family.takes] using takes, fun _ => rfl⟩
  | inc =>
      simp only [family, Family.takes, Bool.and_eq_true, Bool.not_eq_true', Bool.or_eq_true] at takes
      refine ⟨takes.1, fun plain => takes.2.resolve_left ?_⟩
      simp [plain]

section

variable (schema : Schema) (registry : Registry) (text : String) (read : Schema.ofText text = .ok schema)
  (free : CollisionFree schema) (grounded : Grounded schema registry)

include free grounded in
theorem direction_typed (registered : Registered schema registry .sortDirections) (value : Json)
    (conforms : TypeRef.Conforms registry schema.scalars ⟨sortDirectionsName⟩ value) :
    value = .null ∨ (readDirection value).isSome = true := by
  obtain ⟨name, type, named, defined, found, _⟩ := other_entry schema free registry grounded .sortDirections
    (shared_of schema _ (by simp [sharedTargets, Target.bare])) registered (by simp)
  cases Except.ok.inj named
  cases Except.ok.inj defined
  have isName : TypeRef.IsName ⟨sortDirectionsName⟩ :=
    TypeRef.is_name_of_last _ 'e' (by decide) (by decide) (by decide)
  rcases TypeRef.conforms_enum _ _ value isName found conforms with null | ⟨member, listed, given⟩
  · exact .inl null
  · obtain ⟨direction, _, same⟩ := List.mem_map.mp (Keyed.mem_of_mem_collect _ _ _ listed)
    subst same
    rcases given with rfl | internal
    · exact .inr (by cases direction <;> rfl)
    · cases Option.some.inj internal
      exact .inr (by cases direction <;> rfl)

include read grounded in
theorem number_typed (field : Field) (composite : Composite) (declared : composite ∈ schema.composites)
    (listed : field ∈ composite.fields) (numeric : field.type.isNumeric = true) (leaf : String)
    (named : leafName schema field.type = .ok leaf) (value : Json)
    (conforms : TypeRef.Conforms registry schema.scalars ⟨leaf⟩ value) :
    value = .null ∨ (readNumber value).isSome = true := by
  unfold FieldType.isNumeric at numeric
  split at numeric
  · rename_i scalar innermost
    have apart := Schema.builtins_of_text text schema read composite declared field listed scalar innermost
    rw [leafName, innermost] at named
    cases Except.ok.inj named
    cases scalar with
    | int | float =>
        have free := apart rfl
        rw [List.mem_append, not_or] at free
        have unregistered := Update.builtin_unregistered schema registry grounded _ rfl free.1
        rcases TypeRef.conforms_builtin _ _ value (TypeRef.is_name_of_last _ 't' (by decide) (by decide) (by decide))
          unregistered rfl conforms with null | accepted
        · exact .inl null
        · cases value with
          | num number => exact .inr rfl
          | _ => cases accepted
    | _ => cases numeric
  · cases numeric

theorem reaches_segments (names : schema.HasPlainNames) (id : CompositeIndex) (keys : List String) (field : Field)
    (reaches : Reaches schema id keys field) : keys ≠ [] ∧ ∀ key ∈ keys, DotPath.IsSegment key := by
  have segment (id : CompositeIndex) (composite : Composite) (key : String) (field : Field)
      (found : schema.composite id = .ok composite) (declared : composite.field? key = some field) : DotPath.IsSegment key :=
    (Schema.plain_field_name schema names composite (Schema.composite_mem schema id composite found) key field declared).1
  induction reaches with
  | here id composite key field found declared =>
      refine ⟨List.cons_ne_nil _ _, ?_⟩
      intro other single
      exact List.mem_singleton.mp single ▸ segment id composite key field found declared
  | deeper id _ composite key through _ rest found declared _ _ _ _ ih =>
      refine ⟨List.cons_ne_nil _ _, ?_⟩
      intro other member
      rcases List.mem_cons.mp member with rfl | later
      · exact segment id composite other through found declared
      · exact ih.2 other later

inductive MemberTyped (id : CompositeIndex) (key : String) (value : Json) : Prop where
  | nested (composite : Composite) (field : Field) (below : CompositeIndex) (name : String)
      (found : schema.composite id = .ok composite) (declared : composite.field? key = some field)
      (stored : field.isStored = true) (single : field.type.isList = false) (leads : field.type.composite? = some below)
      (named : compositeName schema argument.family below = .ok name) (contained : registry.contains name = true)
      (conforms : TypeRef.Conforms registry schema.scalars ⟨name⟩ value)
  | leaf (composite : Composite) (field : Field) (found : schema.composite id = .ok composite)
      (declared : composite.field? key = some field) (stored : field.isStored = true) (single : field.type.isList = false)
      (plain : field.type.composite? = none) (admitted : argument.admits field.type = true)
      (reads : value = .null ∨ (argument.read value).isSome = true)

include read free grounded

theorem taken_typed (id : CompositeIndex) (composite : Composite) (key : String) (input : InputValue) (field : Field)
    (value : Json) (found : schema.composite id = .ok composite)
    (taken : Taken schema registry argument.family composite key input field)
    (conforms : input.type.Conforms registry schema.scalars value) :
    MemberTyped argument schema registry id key value := by
  obtain ⟨scope, reference, referred, typed⟩ := taken.typed
  rw [typed, wrapped_as_is] at conforms
  obtain ⟨single, admits⟩ := taken_single argument field taken.takes
  cases leads : field.type.composite? with
  | some below =>
      have needs : fieldNeeds schema argument.family field = .ok [.type (.composite argument.family below .nested)] := by
        rw [fieldNeeds, leads, nested_family]
      obtain ⟨name, named, contained⟩ := taken.needs _ _ needs (List.mem_singleton.mpr rfl)
      rw [fieldReference, leads, nested_family] at referred
      obtain ⟨_, again, rfl⟩ := (except_map_ok _ _ _).mp referred
      cases again.symm.trans named
      exact .nested composite field below name found taken.found taken.stored single leads named contained conforms
  | none =>
      refine .leaf composite field found taken.found taken.stored single leads (admits leads) ?_
      rw [fieldReference, leads] at referred
      obtain ⟨leaf, named, rfl⟩ := (except_map_ok _ _ _).mp referred
      cases argument with
      | sort =>
          cases Except.ok.inj named
          have needs : fieldNeeds schema .sort field = .ok [.type .sortDirections] := by rw [fieldNeeds, leads]; rfl
          exact direction_typed schema registry free grounded (taken.needs _ _ needs (List.mem_singleton.mpr rfl)) value conforms
      | inc =>
          have listed := (Composite.name_of_field?_eq_some taken.found).2
          exact number_typed schema registry text read grounded field composite
            (Schema.composite_mem schema id composite found) listed (admits leads) leaf named value conforms

theorem object_typed (id : CompositeIndex) (name : String) (value : Json)
    (named : compositeName schema argument.family id = .ok name) (contained : registry.contains name = true)
    (conforms : TypeRef.Conforms registry schema.scalars ⟨name⟩ value) :
    value = .null ∨ ∃ object, value = .obj object ∧ ∀ key held, (key, held) ∈ object → key ≠ argument.placeholder →
      MemberTyped argument schema registry id key held := by
  have sound := Schema.sound_of_text text schema read
  obtain ⟨composite, found, rfl⟩ := (composite_name_ok schema argument.family id name).mp named
  have within : id.index < schema.composites.length :=
    (List.getElem?_eq_some_iff.mp ((Schema.composite_ok schema id composite).mp found)).1
  have ordinary : argument.family ≠ .update := by cases argument <;> nofun
  obtain ⟨other, entry, noneTaken, located, looked, _, keys⟩ := composite_entry schema sound free registry grounded
    argument.family id .nested ordinary within ⟨_, named, contained⟩
  cases located.symm.trans found
  rcases TypeRef.conforms_object _ entry value (composite_is_name composite.name argument.family) looked conforms with
    null | ⟨object, same, _, each⟩
  · exact .inl null
  · refine .inr ⟨object, same, ?_⟩
    intro key held member plain
    obtain ⟨input, offered, conforms⟩ := each key held member
    rcases keys key input offered with ⟨own, same⟩ | ⟨_, field, taken⟩
    · exact absurd (same.symm.trans (own_placeholder argument _ _ input own)) plain
    · exact taken_typed argument schema registry text read free grounded id composite key input field held found taken conforms

theorem leaf_typed (id : CompositeIndex) (name : String) (object : Members) (keys : List String) (value : Json)
    (named : compositeName schema argument.family id = .ok name) (contained : registry.contains name = true)
    (conforms : TypeRef.Conforms registry schema.scalars ⟨name⟩ (.obj object))
    (position : Json.LeafAt argument.placeholder object keys value) :
    (argument.read value).isSome = true ∧ ∃ field, Reaches schema id keys field ∧ field.type.isList = false ∧
      field.type.composite? = none ∧ argument.admits field.type = true := by
  have typed := object_typed argument schema registry text read free grounded
  induction position generalizing id name with
  | here object key value given other leaf =>
      obtain ⟨_, same, each⟩ := (typed id name _ named contained conforms).resolve_left nofun
      cases same
      cases each key value given other with
      | nested _ _ below name _ _ _ _ _ named contained conforms =>
          rcases typed below name value named contained conforms with rfl | ⟨_, rfl, _⟩ <;> cases leaf
      | leaf composite field found declared stored single plain admitted reads =>
          refine ⟨reads.resolve_left ?_, field, .here id composite key field found declared stored, single, plain, admitted⟩
          rintro rfl
          cases leaf
  | deeper object inner key rest value given other later ih =>
      obtain ⟨_, same, each⟩ := (typed id name _ named contained conforms).resolve_left nofun
      cases same
      cases each key _ given other with
      | nested composite through below name found declared stored single leads named contained conforms =>
          obtain ⟨reads, field, reaches, leaf⟩ := ih below name named contained conforms
          exact ⟨reads, field, .deeper id below composite key through field rest found declared stored leads single reaches,
            leaf⟩
      | leaf _ _ _ _ _ _ _ _ reads =>
          rcases reads with none | reads
          · cases none
          · cases argument <;> cases reads

theorem typed_compiles (id : CompositeIndex) (name : String) (object : Members)
    (named : compositeName schema argument.family id = .ok name) (contained : registry.contains name = true)
    (conforms : TypeRef.Conforms registry schema.scalars ⟨name⟩ (.obj object)) :
    ∃ document, argument.document object = .ok document ∧ ∀ key ∈ Members.keys document,
      ∃ field, Reaches schema id (DotPath.segments key) field ∧ field.type.isList = false ∧
        field.type.composite? = none ∧ argument.admits field.type = true := by
  have typed (leaf : List String × Json) (member : leaf ∈ argument.leaves object) :=
    leaf_typed argument schema registry text read free grounded id name object leaf.1 leaf.2 named contained conforms
      ((Json.mem_leaves argument.placeholder object leaf.1 leaf.2).mp member)
  rcases read_cases "" _ _ (object_read argument object) with
    ⟨entries, result, each⟩ | ⟨before, leaf, after, _, split, _, unreadable, _⟩
  · refine ⟨Members.ofEntries entries, by rw [document_entries, result]; rfl, ?_⟩
    intro key listed
    obtain ⟨value, member⟩ := Members.exists_of_mem_keys key _ listed
    have among := Members.mem_of_entries _ entries member
    rw [document_written "" _ entries each] at among
    obtain ⟨leaf, inside, wrote⟩ := List.mem_filterMap.mp among
    obtain ⟨_, field, reaches, rest⟩ := typed leaf inside
    obtain ⟨nonempty, plain⟩ := reaches_segments schema (Schema.plain_of_text text schema read) id leaf.1 field reaches
    exact ⟨field, (written_segments leaf _ nonempty plain wrote).symm ▸ reaches, rest⟩
  · obtain ⟨reads, _⟩ := typed leaf (split ▸ List.mem_append_right before (List.mem_cons_self ..))
    rw [unreadable] at reads
    cases reads

end

end FlatArgument

-- Flattening a sort argument or increments loses nothing and keeps the order. What conforms to the derived type always
-- compiles, whatever was called in the session before, and writes to stored leaf fields only; a null sorts by nothing.
theorem flattening_lossless (argument : FlatArgument) :
    (∀ object, Json.UniqueKeys (.obj object) → FlatArgument.HasSegmentKeys object → argument.Flattened object) ∧
    (∀ text schema, Schema.ofText text = .ok schema → CollisionFree schema → ∀ session : Session, session.Reached schema →
      ∀ (type : CompositeIndex) excluded, type.index < schema.composites.length → ∃ name after notices,
        session.call schema (.composite argument.family type excluded) = (after, notices, .ok (.reference ⟨name⟩)) ∧
        ∀ value, TypeRef.Conforms after.registry schema.scalars ⟨name⟩ value → value = .null ∨
          ∃ object document, value = .obj object ∧ argument.document object = .ok document ∧
            ∀ key ∈ Members.keys document, ∃ field, Reaches schema type (DotPath.segments key) field ∧
              field.type.isList = false ∧ field.type.composite? = none ∧ argument.admits field.type = true) ∧
    SortOrder.document (some .null) = .ok [] := by
  refine ⟨FlatArgument.flattened, ?_, rfl⟩
  intro text schema read free session reached type excluded within
  obtain ⟨name, after, notices, named, called, grounded, contained⟩ := composite_call schema
    (Schema.sound_of_text text schema read) session reached argument.family type excluded within
  refine ⟨name, after, notices, called, ?_⟩
  intro value conforms
  rcases FlatArgument.object_typed argument schema after.registry text read free grounded type name value named contained
    conforms with null | ⟨object, rfl, _⟩
  · exact .inl null
  · obtain ⟨document, compiled, keys⟩ := FlatArgument.typed_compiles argument schema after.registry text read free grounded
      type name object named contained conforms
    exact .inr ⟨object, document, rfl, compiled, keys⟩

def shelfText : String :=
  "type Shelf \x7b label: String, size: Size \x7d type Size \x7b width: Int, depth: Float \x7d"

def shelves : Schema where
  composites := [
    { name := "Shelf", kind := .object, fields := [
      { name := "label", type := .scalar .string },
      { name := "size", type := .named (.composite .object ⟨1⟩) }] },
    { name := "Size", kind := .object, fields := [
      { name := "width", type := .scalar .int },
      { name := "depth", type := .scalar .float }] }]

def shelving : Members := [
  ("size", .obj [("width", .null), ("depth", .str "DESC")]),
  ("label", .str "ASC")]

def widening : Members := [("size", .obj [("width", Json.int 2)])]

theorem shelving_conforms : Update.Conforming .sort shelfText "ShelfSortType" shelves shelving where
  read := by decide +kernel
  free := by decide +kernel
  within := by decide
  answered := by decide +kernel
  unique := by simp [shelving, Json.UniqueKeys, Json.MembersUnique, Members.keys]
  conforms := TypeRef.conforms_of_checks _ _ 6 _ _ (by decide +kernel)

theorem widening_conforms : Update.Conforming .inc shelfText "ShelfIncType" shelves widening where
  read := by decide +kernel
  free := by decide +kernel
  within := by decide
  answered := by decide +kernel
  unique := by simp [widening, Json.UniqueKeys, Json.MembersUnique, Members.keys, Json.int]
  conforms := TypeRef.conforms_of_checks _ _ 6 _ _ (by decide +kernel)

theorem shelves_flattened :
    Update.Conforming .sort shelfText "ShelfSortType" shelves shelving ∧ FlatArgument.HasSegmentKeys shelving ∧
      FlatArgument.Flattened .sort shelving ∧
      FlatArgument.document .sort shelving = .ok [("size.depth", Json.int (-1)), ("label", Json.int 1)] ∧
      (∃ field, Reaches shelves ⟨0⟩ (DotPath.segments "size.depth") field ∧ field.type.composite? = none) ∧
    Update.Conforming .inc shelfText "ShelfIncType" shelves widening ∧
      FlatArgument.document .inc widening = .ok [("size.width", Json.int 2)] ∧
      ∃ field, Reaches shelves ⟨0⟩ (DotPath.segments "size.width") field ∧ field.type.isNumeric = true := by
  have keys : FlatArgument.HasSegmentKeys shelving := by
    intro inner inside
    cases inside with
    | self => decide
    | member key value _ _ given inside =>
        simp only [shelving, List.mem_cons, Prod.mk.injEq, List.not_mem_nil, or_false] at given
        rcases given with ⟨_, rfl⟩ | ⟨_, rfl⟩
        · cases inside with
          | self => decide
          | member key value _ _ given inside =>
              simp only [List.mem_cons, Prod.mk.injEq, List.not_mem_nil, or_false] at given
              rcases given with ⟨_, rfl⟩ | ⟨_, rfl⟩ <;> cases inside
        · cases inside
  obtain ⟨flat, typed, _⟩ := flattening_lossless .sort
  obtain ⟨_, counted, _⟩ := flattening_lossless .inc
  refine ⟨shelving_conforms, keys, flat shelving shelving_conforms.unique keys, rfl, ?_, widening_conforms, rfl, ?_⟩
  · obtain ⟨name, after, notices, called, compiles⟩ := typed shelfText shelves shelving_conforms.read
      shelving_conforms.free {} .fresh ⟨0⟩ [] shelving_conforms.within
    obtain ⟨_, _, conforms⟩ := shelving_conforms.after_call name after notices called
    obtain ⟨_, document, same, made, fields⟩ := (compiles _ conforms).resolve_left nofun
    cases same
    cases made
    obtain ⟨field, reaches, _, leaf, _⟩ := fields "size.depth" (List.mem_cons_self ..)
    exact ⟨field, reaches, leaf⟩
  · obtain ⟨name, after, notices, called, compiles⟩ := counted shelfText shelves widening_conforms.read
      widening_conforms.free {} .fresh ⟨0⟩ [] widening_conforms.within
    obtain ⟨_, _, conforms⟩ := widening_conforms.after_call name after notices called
    obtain ⟨_, document, same, made, fields⟩ := (compiles _ conforms).resolve_left nofun
    cases same
    cases made
    obtain ⟨field, reaches, _, _, numeric⟩ := fields "size.width" (List.mem_cons_self ..)
    exact ⟨field, reaches, numeric⟩

end DocGraph
