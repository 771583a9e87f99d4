import DocGraph.Proofs.Derivation.Closure

set_option autoImplicit false

namespace DocGraph.Derivation

variable (schema : Schema)

-- Leaf filters are asked for leaf types of the schema only.
def Call.Admitted : Call → Prop
  | .leafFilter type => type ∈ schema.fieldTypes ∧ type.composite? = none
  | _ => True

inductive Session.Reached : Session → Prop where
  | fresh : Reached {}
  | call (session : Session) (call : Call) (before : Reached session) (admitted : call.Admitted schema) :
      Reached (session.call schema call).1
  | clear (session : Session) (before : Reached session) : Reached session.clear

theorem of_supplied (sound : schema.Sound) (known : Registry) : Supplied schema (Target.Of schema) known where
  of := fun _ of => of
  needs := fun target needs of listed _ needed member =>
    needed_of schema sound target needed of ((needs_iff schema target needs listed needed).mp member)

def Grounded (registry : Registry) : Prop :=
  ∀ key type, registry.lookup? key = some type → ∃ target, Settled schema (Target.Of schema) registry key type target

theorem grounded_grows (before after : Registry) (grounded : Grounded schema before)
    (grows : Grows schema (Target.Of schema) before after) : Grounded schema after := by
  intro key type found
  rcases grows.added key type found with held | settled
  · obtain ⟨target, settled⟩ := grounded key type held
    exact ⟨target, settled.allowed, settled.named, settled.defined, fun needed needs listed member =>
      grows.registered needed (settled.needs needed needs listed member)⟩
  · exact settled

theorem name_outside (family : Family) (id : CompositeIndex) (scope : Scope)
    (outside : ¬ id.index < schema.composites.length) :
    Target.name schema (.composite family id scope) = .error (.unknownComposite id) := by
  have missing : schema.composite id = .error (.unknownComposite id) := by
    rw [Schema.composite, List.getElem?_eq_none (Nat.le_of_not_lt outside)]
  rw [Target.name, compositeName, missing]
  rfl

theorem derive_outside (bound : Nat) (family : Family) (id : CompositeIndex) (scope : Scope) (draft : Draft)
    (outside : ¬ id.index < schema.composites.length) :
    derive schema bound (.composite family id scope) draft = .error (.unknownComposite id) := by
  cases bound <;> rw [derive, name_outside schema family id scope outside] <;> rfl

def Call.composite? : Call → Option CompositeIndex
  | .composite _ id _ | .queryArguments id _ | .updateArguments id _ => some id
  | .leafFilter _ | .sortDirections | .page => none

def Call.Within (call : Call) : Prop := ∀ id, call.composite? = some id → id.index < schema.composites.length

theorem root_need_first (call : Call) (id : CompositeIndex) (about : call.composite? = some id) :
    ∃ family excluded rest, call.needs schema = .ok (rootNeed family id excluded :: rest) := by
  cases call with
  | composite family held excluded =>
      cases about
      exact ⟨family, excluded, _, rfl⟩
  | queryArguments held excluded | updateArguments held excluded =>
      cases about
      exact ⟨.filter, excluded, _, rfl⟩
  | _ => cases about

theorem call_refused (session : Session) (call : Call) (id : CompositeIndex) (about : call.composite? = some id)
    (outside : ¬ id.index < schema.composites.length) :
    session.call schema call = (session, [], .error (.unknownComposite id)) := by
  obtain ⟨family, excluded, rest, listed⟩ := root_need_first schema call id about
  have fails : deriveNeeds schema (rootNeed family id excluded :: rest) ⟨session.registry, []⟩ =
      .error (.unknownComposite id) := by
    rw [deriveNeeds, List.foldlM_cons]
    change derive schema _ (.composite family id (.root excluded)) _ >>= _ = _
    rw [derive_outside schema _ family id _ _ outside]
    rfl
  simp only [Session.call, listed, bind, Except.bind, fails]

theorem call_needs (sound : schema.Sound) (call : Call) (admitted : call.Admitted schema) (within : call.Within schema) :
    ∃ needs, call.needs schema = .ok needs ∧ (∀ target, .type target ∈ needs → target.Of schema) ∧
      ∀ id, .notice id ∉ needs := by
  have root (family : Family) (id : CompositeIndex) (excluded : List String) (inside : id.index < schema.composites.length) :
      (Target.composite family id (.root excluded)).Of schema := (composite_of schema family id _).mpr inside
  have directions : Target.sortDirections.Of schema := shared_of schema _ (by simp [sharedTargets, Target.bare])
  have page : Target.page.Of schema := shared_of schema _ (by simp [sharedTargets, Target.bare])
  cases call with
  | composite family id excluded =>
      exact ⟨_, rfl, by simp [rootNeed, root family id excluded (within id rfl)], by simp [rootNeed]⟩
  | leafFilter type =>
      obtain ⟨leaf, named⟩ := leaf_named schema type (field_type_refers schema sound type admitted.1)
      have listed : leafFilterNeeds schema type =
          .ok (leafNeeds type ++ [.type (.leafFilter leaf (isStringLeaf type))]) := by
        rw [leafFilterNeeds, named]
        rfl
      refine ⟨_, listed, fun target member => field_needs_of schema sound .filter type admitted.1 target
        ((leaf_filter_needs_iff schema .filter (.inl rfl) type admitted.2 _ listed target).mp member), ?_⟩
      intro id member
      rcases List.mem_append.mp member with copy | filter
      · obtain ⟨_, _, same⟩ := leaf_needs_copy type _ copy
        cases same
      · cases List.mem_singleton.mp filter
  | sortDirections => exact ⟨_, rfl, by simp [directions], by simp⟩
  | page => exact ⟨_, rfl, by simp [page], by simp⟩
  | queryArguments id excluded =>
      have inside := within id rfl
      exact ⟨_, rfl, by simp [rootNeed, root .filter id excluded inside, root .sort id excluded inside, page],
        by simp [rootNeed]⟩
  | updateArguments id excluded =>
      have inside := within id rfl
      exact ⟨_, rfl, by simp [rootNeed, root .filter id excluded inside, root .update id excluded inside],
        by simp [rootNeed]⟩

def Call.families : Call → List Family
  | .composite family _ _ => [family]
  | .queryArguments _ _ => [.filter, .sort]
  | .updateArguments _ _ => [.filter, .update]
  | .leafFilter _ | .sortDirections | .page => []

def Call.excluded : Call → List String
  | .composite _ _ excluded | .queryArguments _ excluded | .updateArguments _ excluded => excluded
  | .leafFilter _ | .sortDirections | .page => []

theorem call_need_cases (call : Call) (needs : List Need) (listed : call.needs schema = .ok needs) (target : Target)
    (member : .type target ∈ needs) :
    (∃ family ∈ call.families, ∃ id, target = .composite family id (.root call.excluded)) ∨
      ∀ family id scope, target ≠ .composite family id scope := by
  cases call with
  | composite family id excluded =>
      cases Except.ok.inj listed
      cases List.mem_singleton.mp member
      exact .inl ⟨family, List.mem_singleton.mpr rfl, id, rfl⟩
  | leafFilter type =>
      obtain ⟨leaf, _, same⟩ := (except_bind_ok _ _ _).mp listed
      cases Except.ok.inj same
      refine .inr (fun family id scope composite => ?_)
      rcases List.mem_append.mp member with copy | filter
      · obtain ⟨_, _, same⟩ := leaf_needs_copy type _ copy
        cases composite
        cases same
      · cases composite
        cases List.mem_singleton.mp filter
  | sortDirections | page =>
      cases Except.ok.inj listed
      cases List.mem_singleton.mp member
      exact .inr (fun _ _ _ other => Target.noConfusion other)
  | queryArguments id excluded =>
      cases Except.ok.inj listed
      simp only [rootNeed, List.mem_cons, Need.type.injEq, List.not_mem_nil, or_false] at member
      rcases member with rfl | rfl | rfl
      · exact .inl ⟨.filter, by simp [Call.families], id, rfl⟩
      · exact .inl ⟨.sort, by simp [Call.families], id, rfl⟩
      · exact .inr (fun _ _ _ other => Target.noConfusion other)
  | updateArguments id excluded =>
      cases Except.ok.inj listed
      simp only [rootNeed, List.mem_cons, Need.type.injEq, List.not_mem_nil, or_false] at member
      rcases member with rfl | rfl
      · exact .inl ⟨.filter, by simp [Call.families], id, rfl⟩
      · exact .inl ⟨.update, by simp [Call.families], id, rfl⟩

def Answer.types : Answer → List TypeRef
  | .reference type => [type]
  | .arguments values => values.map InputValue.type

theorem call_answers (call : Call) (within : call.Within schema) (needs : List Need)
    (listed : call.needs schema = .ok needs) :
    ∃ answer, call.answer schema = .ok answer ∧ ∀ type ∈ answer.types, ∃ target name,
      .type target ∈ needs ∧ target.name schema = .ok name ∧ (type = ⟨name⟩ ∨ type = TypeRef.nonNull ⟨name⟩) := by
  cases call with
  | composite family id excluded =>
      cases Except.ok.inj listed
      obtain ⟨name, named⟩ := composite_named schema family id (within id rfl)
      refine ⟨.reference ⟨name⟩, (except_bind_ok _ _ _).mpr ⟨name, named, rfl⟩, ?_⟩
      intro type member
      exact ⟨_, name, List.mem_singleton.mpr rfl, named, .inl (List.mem_singleton.mp member)⟩
  | leafFilter type =>
      obtain ⟨leaf, named, same⟩ := (except_bind_ok _ _ _).mp listed
      cases Except.ok.inj same
      refine ⟨.reference ⟨leafFilterName leaf⟩, (except_bind_ok _ _ _).mpr ⟨leaf, named, rfl⟩, ?_⟩
      intro reference member
      exact ⟨.leafFilter leaf (isStringLeaf type), _, by simp, rfl, .inl (List.mem_singleton.mp member)⟩
  | sortDirections =>
      cases Except.ok.inj listed
      exact ⟨_, rfl, fun type member => ⟨_, _, List.mem_singleton.mpr rfl, rfl, .inl (List.mem_singleton.mp member)⟩⟩
  | page =>
      cases Except.ok.inj listed
      exact ⟨_, rfl, fun type member => ⟨_, _, List.mem_singleton.mpr rfl, rfl, .inl (List.mem_singleton.mp member)⟩⟩
  | queryArguments id excluded =>
      cases Except.ok.inj listed
      obtain ⟨filter, filterNamed⟩ := composite_named schema .filter id (within id rfl)
      obtain ⟨sort, sortNamed⟩ := composite_named schema .sort id (within id rfl)
      refine ⟨.arguments [⟨"filter", ⟨filter⟩, none, .active⟩, ⟨"sort", ⟨sort⟩, none, .active⟩,
        ⟨"pagination", ⟨pageName⟩, none, .active⟩], ?_, ?_⟩
      · simp only [Call.answer, filterNamed, sortNamed, bind, Except.bind, pure, Except.pure]
      · intro type member
        simp only [Answer.types, List.map_cons, List.map_nil, List.mem_cons, List.not_mem_nil, or_false] at member
        rcases member with rfl | rfl | rfl
        · exact ⟨_, filter, List.mem_cons_self .., filterNamed, .inl rfl⟩
        · exact ⟨_, sort, List.mem_cons_of_mem _ (List.mem_cons_self ..), sortNamed, .inl rfl⟩
        · exact ⟨.page, pageName, by simp, rfl, .inl rfl⟩
  | updateArguments id excluded =>
      cases Except.ok.inj listed
      obtain ⟨filter, filterNamed⟩ := composite_named schema .filter id (within id rfl)
      obtain ⟨update, updateNamed⟩ := composite_named schema .update id (within id rfl)
      refine ⟨.arguments [⟨"filter", TypeRef.nonNull ⟨filter⟩, none, .active⟩,
        ⟨"update", TypeRef.nonNull ⟨update⟩, none, .active⟩], ?_, ?_⟩
      · simp only [Call.answer, filterNamed, updateNamed, bind, Except.bind, pure, Except.pure]
      · intro type member
        simp only [Answer.types, List.map_cons, List.map_nil, List.mem_cons, List.not_mem_nil, or_false] at member
        rcases member with rfl | rfl
        · exact ⟨_, filter, List.mem_cons_self .., filterNamed, .inr rfl⟩
        · exact ⟨_, update, List.mem_cons_of_mem _ (List.mem_cons_self ..), updateNamed, .inr rfl⟩

inductive Session.Ends (session : Session) (call : Call) : Prop where
  | refused (id : CompositeIndex) (about : call.composite? = some id) (outside : ¬ id.index < schema.composites.length)
      (result : session.call schema call = (session, [], .error (.unknownComposite id)))
  | answered (needs : List Need) (draft : Draft) (answer : Answer) (within : call.Within schema)
      (listed : call.needs schema = .ok needs) (met : Met schema needs ⟨session.registry, []⟩ draft)
      (replied : call.answer schema = .ok answer)
      (result : session.call schema call = (⟨draft.registry, (session.log.report draft.raised).1⟩,
        (session.log.report draft.raised).2, .ok answer))

theorem call_ends (sound : schema.Sound) (session : Session) (call : Call) (admitted : call.Admitted schema) :
    session.Ends schema call := by
  by_cases within : call.Within schema
  · obtain ⟨needs, listed, types, notices⟩ := call_needs schema sound call admitted within
    obtain ⟨answer, replied, _⟩ := call_answers schema call within needs listed
    obtain ⟨draft, derived, met⟩ := derive_needs_met schema sound needs ⟨session.registry, []⟩ types
      (fun id member => absurd member (notices id))
    refine .answered needs draft answer within listed met replied ?_
    simp only [Session.call, listed, derived, replied, bind, Except.bind, pure, Except.pure]
  · cases about : call.composite? with
    | none => exact absurd (fun id some => nomatch about.symm.trans some) within
    | some id =>
        have outside : ¬ id.index < schema.composites.length := by
          intro inside
          refine within (fun other same => ?_)
          cases about.symm.trans same
          exact inside
        exact .refused id about outside (call_refused schema session call id about outside)

theorem call_grows (sound : schema.Sound) (session : Session) (call : Call) (admitted : call.Admitted schema) :
    Grows schema (Target.Of schema) session.registry (session.call schema call).1.registry := by
  cases call_ends schema sound session call admitted with
  | refused id about outside result => exact result ▸ .refl _
  | answered needs draft answer within listed met replied result =>
      obtain ⟨_, again, types, _⟩ := call_needs schema sound call admitted within
      cases again.symm.trans listed
      rw [result]
      exact met_grows schema _ draft.registry (of_supplied schema sound _) needs _ draft met (fun _ held => held) types

theorem reached_grounded (sound : schema.Sound) (session : Session) (reached : session.Reached schema) :
    Grounded schema session.registry := by
  induction reached with
  | fresh => exact fun _ _ found => nomatch found
  | call session call _ admitted ih => exact grounded_grows schema _ _ ih (call_grows schema sound session call admitted)
  | clear => exact fun _ _ found => nomatch found

def Session.run (schema : Schema) (session : Session) (calls : List Call) : Session :=
  calls.foldl (fun held call => (held.call schema call).1) session

theorem call_keeps (sound : schema.Sound) (session : Session) (call : Call) (admitted : call.Admitted schema) (key : String)
    (held : session.registry.contains key = true) : (session.call schema call).1.registry.contains key = true :=
  (call_grows schema sound session call admitted).contains key held

theorem run_contains (sound : schema.Sound) (calls : List Call) (session : Session)
    (admitted : ∀ call ∈ calls, call.Admitted schema) (key : String) (held : session.registry.contains key = true) :
    (session.run schema calls).registry.contains key = true := by
  induction calls generalizing session with
  | nil => exact held
  | cons call rest ih =>
      obtain ⟨first, others⟩ := List.forall_mem_cons.mp admitted
      exact ih _ others (call_keeps schema sound session call first key held)

theorem run_registers (sound : schema.Sound) (calls : List Call) (session : Session)
    (admitted : ∀ call ∈ calls, call.Admitted schema) : ∀ call ∈ calls, call.Within schema → ∀ needs,
      call.needs schema = .ok needs → ∀ target, .type target ∈ needs →
        Registered schema (session.run schema calls).registry target := by
  induction calls generalizing session with
  | nil => exact fun _ none => nomatch none
  | cons head rest ih =>
      obtain ⟨first, others⟩ := List.forall_mem_cons.mp admitted
      intro call member within needs listed target needed
      rcases List.mem_cons.mp member with rfl | later
      · cases call_ends schema sound session call first with
        | refused id about outside _ => exact absurd (within id about) outside
        | answered _ draft _ _ again met _ result =>
            cases again.symm.trans listed
            have here := met_registers schema needs _ draft met target needed
            refine registered_mono schema draft.registry _ (fun key held => ?_) target here
            refine run_contains schema sound rest (session.call schema call).1 others key ?_
            rw [result]
            exact held
      · exact ih _ others call later within needs listed target needed

theorem run_grows (sound : schema.Sound) (allowed : Target → Prop) (known : Registry)
    (supplied : Supplied schema allowed known) (calls : List Call) (session : Session)
    (admitted : ∀ call ∈ calls, call.Admitted schema)
    (within : ∀ key, (session.run schema calls).registry.contains key = true → known.contains key = true)
    (types : ∀ call ∈ calls, call.Within schema → ∀ needs, call.needs schema = .ok needs →
      ∀ target, .type target ∈ needs → allowed target) :
    Grows schema allowed session.registry (session.run schema calls).registry := by
  induction calls generalizing session with
  | nil => exact .refl _
  | cons call rest ih =>
      obtain ⟨first, others⟩ := List.forall_mem_cons.mp admitted
      have later := ih (session.call schema call).1 others within
        (fun other member => types other (List.mem_cons_of_mem call member))
      have step : Grows schema allowed session.registry (session.call schema call).1.registry := by
        cases call_ends schema sound session call first with
        | refused id about outside result =>
            rw [result]
            exact .refl _
        | answered needs draft answer inside listed met replied result =>
            have kept : ∀ key, draft.registry.contains key = true → known.contains key = true := by
              intro key held
              refine within key (run_contains schema sound rest (session.call schema call).1 others key ?_)
              rw [result]
              exact held
            rw [result]
            exact met_grows schema allowed known supplied needs _ draft met kept
              (types call (List.mem_cons_self ..) inside needs listed)
      exact step.trans later

theorem run_reached (calls : List Call) (session : Session) (reached : session.Reached schema)
    (admitted : ∀ call ∈ calls, call.Admitted schema) : (session.run schema calls).Reached schema := by
  induction calls generalizing session with
  | nil => exact reached
  | cons call rest ih =>
      obtain ⟨first, others⟩ := List.forall_mem_cons.mp admitted
      exact ih _ (.call session call reached first) others

theorem reached_run (session : Session) (reached : session.Reached schema) :
    ∃ calls, (∀ call ∈ calls, call.Admitted schema) ∧ Session.run schema {} calls = session := by
  induction reached with
  | fresh => exact ⟨[], fun _ none => (nomatch none), rfl⟩
  | call session call _ admitted ih =>
      obtain ⟨calls, before, rfl⟩ := ih
      refine ⟨calls ++ [call], ?_, List.foldl_append⟩
      exact List.forall_mem_append.mpr ⟨before, List.forall_mem_singleton.mpr admitted⟩
  | clear session _ _ => exact ⟨[], fun _ none => (nomatch none), rfl⟩

theorem composite_call (sound : schema.Sound) (session : Session) (reached : session.Reached schema)
    (family : Family) (id : CompositeIndex) (excluded : List String) (within : id.index < schema.composites.length) :
    ∃ name after notices, compositeName schema family id = .ok name ∧
      session.call schema (.composite family id excluded) = (after, notices, .ok (.reference ⟨name⟩)) ∧
      Grounded schema after.registry ∧ after.registry.contains name = true := by
  have after := reached_grounded schema sound _ (.call session (.composite family id excluded) reached trivial)
  cases call_ends schema sound session (.composite family id excluded) trivial with
  | refused held about outside => exact absurd (Option.some.inj about ▸ within) outside
  | answered needs draft answer _ listed met replied result =>
      cases Except.ok.inj listed
      obtain ⟨name, named, same⟩ := (except_bind_ok _ _ _).mp replied
      cases Except.ok.inj same
      obtain ⟨_, again, contained⟩ := met_registers schema _ _ draft met _ (List.mem_singleton.mpr rfl)
      cases again.symm.trans named
      rw [result] at after
      exact ⟨name, _, _, named, result, after, contained⟩

theorem entry_of_target (free : CollisionFree schema) (registry : Registry) (grounded : Grounded schema registry)
    (target : Target) (of : target.Of schema) (registered : Registered schema registry target) :
    ∃ name type derived, target.name schema = .ok name ∧ registry.lookup? name = some type ∧
      derived.bare = target.bare ∧ Settled schema (Target.Of schema) registry name type derived := by
  obtain ⟨name, named, contained⟩ := registered
  obtain ⟨type, found⟩ := (Registry.contains_iff registry name).mp contained
  obtain ⟨derived, settled⟩ := grounded name type found
  have shared : derived.bare.name schema = target.bare.name schema := by
    rw [Target.bare_name, Target.bare_name, settled.named, named]
  exact ⟨name, type, derived, named, found, free _ settled.allowed _ of shared, settled⟩

-- What a registry that grew from nothing has under the name of a target, in a schema whose targets do not share names.
theorem grown_entry (free : CollisionFree schema) (allowed : Target → Prop)
    (of : ∀ target, allowed target → target.Of schema) (registry : Registry) (grown : Grows schema allowed {} registry)
    (target : Target) (inside : target.Of schema) (registered : Registered schema registry target) :
    ∃ name type built, target.name schema = .ok name ∧ built.bare = target.bare ∧ registry.lookup? name = some type ∧
      Settled schema allowed registry name type built := by
  obtain ⟨name, named, contained⟩ := registered
  obtain ⟨type, found⟩ := (Registry.contains_iff _ name).mp contained
  rcases grown.added name type found with none | ⟨built, settled⟩
  · cases none
  · refine ⟨name, type, built, named, ?_, found, settled⟩
    refine free _ (of built settled.allowed) _ inside ?_
    rw [Target.bare_name, Target.bare_name, settled.named, named]

end DocGraph.Derivation
