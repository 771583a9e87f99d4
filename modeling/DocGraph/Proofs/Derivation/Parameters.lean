import DocGraph.Proofs.Derivation.References

set_option autoImplicit false

namespace DocGraph.Derivation

def Asked (schema : Schema) (calls : List Call) (family : Family) (id : CompositeIndex) (scope : Scope) : Prop :=
  ∃ call ∈ calls, ∃ needs, call.needs schema = .ok needs ∧
    (.type (.composite family id scope) ∈ needs ∨
      .type (.composite .update id scope) ∈ needs ∧ family ∈ updateParts.map Prod.snd)

-- An input object leaves out what its scope excludes, but for the fields of its family, and an insert type of the root does
-- not require an id.
structure Honours (family : Family) (composite : Composite) (scope : Scope) (object : InputObject) : Prop where
  excluded : ∀ key ∈ scope.excluded, ∀ input, object.field? key = some input → ∃ noneTaken,
    input ∈ ownFields family (suffixed composite.name family.suffix) noneTaken
  identity : family = .insert → scope.isRoot = true → "_id" ∉ scope.excluded → ∀ field,
    composite.field? "_id" = some field → field.isStored = true →
      ∃ input, object.field? "_id" = some input ∧ input.type.isNonNull = false

theorem wrapped_id_nullable (type : FieldType) (reference : TypeRef) (single : ∀ of, type ≠ .nonNull (.nonNull of))
    (plain : reference.IsName) : (type.nullable.wrap true reference).isNonNull = false := by
  have unmarked (of : FieldType) (bare : ∀ inner, of ≠ .nonNull inner) : (of.wrap true reference).isNonNull = false := by
    cases of with
    | named type => exact TypeRef.name_nullable reference plain
    | list inner => exact TypeRef.list_nullable _
    | nonNull inner => exact absurd rfl (bare inner)
  cases type with
  | nonNull of => exact unmarked of (fun inner same => single inner (congrArg FieldType.nonNull same))
  | named type => exact unmarked _ nofun
  | list of => exact unmarked _ nofun

section

variable (schema : Schema) (sound : schema.Sound) (leaves : schema.HasLeaves)
  (single : ∀ composite ∈ schema.composites, ∀ field ∈ composite.fields, ∀ of, field.type ≠ .nonNull (.nonNull of))

include leaves in
theorem insert_reference_is_name (type : FieldType) (used : type ∈ schema.fieldTypes) (reference : TypeRef)
    (referred : fieldReference schema .insert type = .ok reference) : reference.IsName := by
  obtain ⟨name, found, rfl⟩ := (except_map_ok _ _ _).mp referred
  cases plain : type.composite? with
  | some id =>
      rw [plain] at found
      obtain ⟨composite, _, rfl⟩ := (composite_name_ok schema _ id name).mp found
      exact composite_is_name composite.name _
  | none =>
      rw [plain] at found
      exact leaf_name_is_name schema leaves type name used plain found

include leaves single in
theorem definition_honours (family : Family) (id : CompositeIndex) (scope : Scope) (composite : Composite)
    (type : InputType) (found : schema.composite id = .ok composite) (other : family ≠ .update)
    (defined : (Target.composite family id scope).definition schema = .ok type) :
    ∃ object, type = .object object ∧ Honours family composite scope object := by
  obtain ⟨fields, mapped, rfl⟩ := composite_definition schema family id scope composite type found other defined
  have declared := Schema.composite_mem schema id composite found
  refine ⟨_, rfl, ?_, ?_⟩
  · intro key excluded input given
    rcases InputObject.make_field _ _ _ _ key input given with ⟨own, _⟩ | ⟨_, member, named⟩
    · exact ⟨_, own⟩
    · obtain ⟨field, taken, derived⟩ := (except_map_list_ok _ _ _ mapped).2 input member
      obtain ⟨_, _, called, _⟩ := input_field_ok schema family scope field input derived
      obtain ⟨_, _, _, kept⟩ := taken_field composite family scope field taken
      rw [← called, named] at kept
      exact absurd excluded kept
  · rintro rfl root free field here stored
    obtain ⟨named, listed⟩ := Composite.name_of_field?_eq_some here
    have taken : field ∈ takenFields composite .insert scope := by
      refine List.mem_filter.mpr ⟨List.mem_filter.mpr ⟨listed, ?_⟩, rfl⟩
      simp [named, free, stored]
    obtain ⟨mine, inside, derived⟩ := (except_map_list_ok _ _ _ mapped).1 field taken
    obtain ⟨_, _, called, _⟩ := input_field_ok schema .insert scope field mine derived
    obtain ⟨input, given⟩ := InputObject.make_field_found (suffixed composite.name Family.insert.suffix) none (fields ++ []) mine
      (List.mem_append.mpr (.inl inside))
    rw [called, named] at given
    refine ⟨input, given, ?_⟩
    obtain ⟨member, text⟩ := InputObject.make_field_mem _ _ _ "_id" input given
    rw [List.append_nil] at member
    obtain ⟨twin, also, made⟩ := (except_map_list_ok _ _ _ mapped).2 input member
    obtain ⟨reference, referred, same, typed⟩ := input_field_ok schema .insert scope twin input made
    have kept := (taken_field composite .insert scope twin also).1
    have plain := insert_reference_is_name schema leaves twin.type (mem_field_types schema composite twin declared kept)
      reference referred
    have identity : twin.name = "_id" := same.symm.trans text
    rw [typed, wrapped, root, identity]
    exact wrapped_id_nullable twin.type reference (single composite declared twin kept) plain

structure AskedFor (calls : List Call) (target : Target) : Prop where
  of : target.Of schema
  scope : ∀ family id scope, target = .composite family id scope → scope = .nested ∨ Asked schema calls family id scope

include sound in
theorem asked_supplied (calls : List Call) (known : Registry) : Supplied schema (AskedFor schema calls) known := by
  refine ⟨fun target allowed => allowed.of, ?_⟩
  intro target needs allowed listed _ needed member
  have inside := (needs_iff schema target needs listed needed).mp member
  refine ⟨needed_of schema sound target needed allowed.of inside, ?_⟩
  rintro family id scope rfl
  cases inside with
  | part _ _ part among =>
      rcases allowed.scope .update id scope rfl with nested | ⟨call, run, all, theirs, asks⟩
      · exact .inl nested
      · refine .inr ⟨call, run, all, theirs, .inr ⟨?_, List.mem_map.mpr ⟨part, among, rfl⟩⟩⟩
        rcases asks with whole | ⟨_, part⟩
        · exact whole
        · exact absurd part (by decide)
  | field held owner given composite field _ _ _ inner =>
      cases inner
      exact .inl rfl
  | own held owner given composite _ _ own =>
      have shared := own_needs_of held owner _ _ own
      simp [sharedTargets] at shared

include sound in
theorem run_asked_for (calls : List Call) (admitted : ∀ call ∈ calls, call.Admitted schema) :
    Grows schema (AskedFor schema calls) {} (Session.run schema {} calls).registry := by
  refine run_grows schema sound _ _ (asked_supplied schema sound calls _) calls {} admitted (fun _ held => held) ?_
  intro call member within needs listed target needed
  obtain ⟨_, again, types, _⟩ := call_needs schema sound call (admitted call member) within
  cases again.symm.trans listed
  refine ⟨types target needed, ?_⟩
  rintro family id scope rfl
  exact .inr ⟨call, member, needs, listed, .inl needed⟩

theorem composite_met (family : Family) (id : CompositeIndex) (excluded : List String) (name : String) (draft after : Draft)
    (named : compositeName schema family id = .ok name)
    (met : Met schema [rootNeed family id excluded] draft after) :
    (draft.registry.contains name = true ∧ after.registry = draft.registry) ∨
      draft.registry.contains name = false ∧ ∃ type, after.registry.lookup? name = some type ∧
        (Target.composite family id (.root excluded)).definition schema = .ok type := by
  cases met with
  | taken _ _ _ _ other again held later =>
      cases again.symm.trans named
      cases later with
      | done => exact .inl ⟨held, rfl⟩
  | fresh _ needs _ _ next _ other type again free defined listed inside later =>
      cases again.symm.trans named
      cases later with
      | done =>
          refine .inr ⟨free, type, met_keeps schema needs _ after inside name type ?_, defined⟩
          simp [Registry.lookup_insert]

end

theorem entry_parameters (text : String) (schema : Schema) (read : Schema.ofText text = .ok schema)
    (free : CollisionFree schema) (session : Session) (reached : session.Reached schema) :
    (∃ calls, (∀ call ∈ calls, call.Admitted schema) ∧ Session.run schema {} calls = session) ∧
    ∀ calls, (∀ call ∈ calls, call.Admitted schema) → Session.run schema {} calls = session →
      ∀ (family : Family) (id : CompositeIndex) (excluded : List String) (composite : Composite), family ≠ .update →
        schema.composite id = .ok composite → ∃ after notices scope object,
          session.call schema (.composite family id excluded) =
            (after, notices, .ok (.reference ⟨suffixed composite.name family.suffix⟩)) ∧
          after.registry.lookup? (suffixed composite.name family.suffix) = some (.object object) ∧
          (Target.composite family id scope).definition schema = .ok (.object object) ∧
          Honours family composite scope object ∧
          (session.registry.contains (suffixed composite.name family.suffix) = false → scope = .root excluded) ∧
          (session.registry.contains (suffixed composite.name family.suffix) = true →
            after.registry = session.registry ∧ (scope = .nested ∨ Asked schema calls family id scope)) := by
  have sound := Schema.sound_of_text text schema read
  have leaves := Schema.leaves_of_text text schema read
  have single := Schema.marked_of_text text schema read
  refine ⟨reached_run schema session reached, ?_⟩
  intro calls admitted ran family id excluded composite other found
  have within : id.index < schema.composites.length :=
    (List.getElem?_eq_some_iff.mp ((Schema.composite_ok schema id composite).mp found)).1
  have named : compositeName schema family id = .ok (suffixed composite.name family.suffix) :=
    (composite_name_ok schema family id _).mpr ⟨composite, found, rfl⟩
  cases call_ends schema sound session (.composite family id excluded) trivial with
  | refused held about outside result =>
      cases about
      exact absurd within outside
  | answered needs draft answer _ listed met replied result =>
      cases Except.ok.inj listed
      obtain ⟨_, again, same⟩ := (except_bind_ok _ _ _).mp replied
      cases again.symm.trans named
      cases Except.ok.inj same
      rcases composite_met schema family id excluded _ _ draft named met with ⟨held, kept⟩ | ⟨new, type, there, defined⟩
      · -- The entry is one that the run has derived.
        subst ran
        obtain ⟨type, there⟩ := (Registry.contains_iff _ _).mp held
        rcases (run_asked_for schema sound calls admitted).added _ type there with none | ⟨target, settled⟩
        · cases none
        · have of := (composite_of schema family id .nested).mpr within
          have bare : target.bare = .composite family id .nested :=
            free _ settled.allowed.of _ of ((Target.bare_name schema target).trans (settled.named.trans named.symm))
          cases target with
          | composite held' id' scope =>
              simp only [Target.bare, Target.composite.injEq, and_true] at bare
              obtain ⟨rfl, rfl⟩ := bare
              obtain ⟨object, rfl, honours⟩ :=
                definition_honours schema leaves single held' id' scope composite type found other settled.defined
              refine ⟨_, _, scope, object, result, kept ▸ there, settled.defined, honours, ?_, ?_⟩
              · intro missing
                exact absurd (held.symm.trans missing) (by decide)
              · exact fun _ => ⟨kept, settled.allowed.scope held' id' scope rfl⟩
          | _ => cases bare
      · obtain ⟨object, rfl, honours⟩ :=
          definition_honours schema leaves single family id (.root excluded) composite type found other defined
        refine ⟨_, _, .root excluded, object, result, there, defined, honours, fun _ => rfl, ?_⟩
        intro held
        exact absurd (held.symm.trans new) (by decide)

def postsText : String := "type Post \x7b author: User \x7d type User \x7b _id: ID!, name: String \x7d"

def posts : Schema where
  composites := [
    { name := "Post", kind := .object, fields := [{ name := "author", type := .named (.composite .object ⟨1⟩) }] },
    { name := "User", kind := .object, fields := [
      { name := "_id", type := .nonNull (.scalar .id) },
      { name := "name", type := .scalar .string }] }]

def postSession : Session := Session.run posts {} [.composite .insert ⟨0⟩ []]

theorem user_set_without_name : Schema.ofText postsText = .ok posts ∧ CollisionFree posts ∧ postSession.Reached posts ∧
    ∃ object, (postSession.call posts (.composite .set ⟨1⟩ ["name"])).1.registry.lookup? "UserSetType" = some (.object object) ∧
      object.field? "name" = none := by
  have read : Schema.ofText postsText = .ok posts := by decide +kernel
  have free : CollisionFree posts := by decide +kernel
  have reached : postSession.Reached posts := .call {} (.composite .insert ⟨0⟩ []) .fresh trivial
  obtain ⟨_, entries⟩ := entry_parameters postsText posts read free postSession reached
  obtain ⟨after, notices, scope, object, result, found, _, honours, new, _⟩ := entries [.composite .insert ⟨0⟩ []]
    (List.forall_mem_singleton.mpr trivial) rfl .set ⟨1⟩ ["name"] posts.composites[1] nofun rfl
  cases new (by decide +kernel)
  refine ⟨read, free, reached, object, by rw [result]; exact found, ?_⟩
  cases given : object.field? "name" with
  | none => rfl
  | some input =>
      obtain ⟨noneTaken, own⟩ := honours.excluded "name" (List.mem_singleton.mpr rfl) input given
      have named : input.name = "name" := by simpa using List.find?_some given
      rw [List.mem_singleton.mp own] at named
      exact absurd named (by decide)

theorem earlier_entry_stays : Schema.ofText postsText = .ok posts ∧ CollisionFree posts ∧
    ((Session.run posts {} [.composite .set ⟨1⟩ []]).call posts (.composite .set ⟨1⟩ ["name"])).2.2 =
      .ok (.reference ⟨"UserSetType"⟩) ∧
    (((Session.run posts {} [.composite .set ⟨1⟩ []]).call posts (.composite .set ⟨1⟩ ["name"])).1.registry.inputObject?
      "UserSetType").bind (InputObject.field? · "name") = some { name := "name", type := ⟨"String"⟩ } ∧
    (∀ noneTaken, ∀ own ∈ ownFields .set "UserSetType" noneTaken, own.name ≠ "name") ∧
    (postSession.call posts (.composite .insert ⟨1⟩ [])).2.2 = .ok (.reference ⟨"UserInsertType"⟩) ∧
    ((postSession.call posts (.composite .insert ⟨1⟩ [])).1.registry.inputObject? "UserInsertType").bind
      (InputObject.field? · "_id") = some { name := "_id", type := TypeRef.nonNull ⟨"ID"⟩ } := by
  refine ⟨by decide +kernel, by decide +kernel, by decide +kernel, by decide +kernel, ?_, by decide +kernel, by decide +kernel⟩
  intro noneTaken own member
  cases List.mem_singleton.mp member
  decide

end DocGraph.Derivation
