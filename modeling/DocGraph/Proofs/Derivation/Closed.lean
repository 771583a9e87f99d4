import DocGraph.Proofs.Derivation.References

set_option autoImplicit false

namespace DocGraph.Derivation

variable (schema : Schema)

structure Backed (registry : Registry) (target : Target) : Prop where
  of : target.Of schema
  leaf : ∀ leaf, target.leaf? = some leaf → Leads schema registry ⟨leaf⟩

theorem field_needs_backed (leaves : schema.HasLeaves) (known : Registry) (family : Family) (type : FieldType)
    (used : type ∈ schema.fieldTypes)
    (registered : ∀ needed, FieldNeeds schema family type needed → Registered schema known needed) (needed : Target)
    (needs : FieldNeeds schema family type needed) (leaf : String) (mine : needed.leaf? = some leaf) :
    Leads schema known ⟨leaf⟩ := by
  cases needs with
  | filter held plain named filters =>
      cases mine
      refine leaf_leads schema leaves known type leaf used plain named (fun other inside => ?_)
      obtain ⟨id, innermost, same⟩ := leaf_needs_copy type _ inside
      cases same
      exact registered _ (.copy id innermost (by rcases filters with rfl | rfl <;> decide))
  | _ => cases mine

theorem needs_backed (sound : schema.Sound) (leaves : schema.HasLeaves) (known : Registry) (target : Target)
    (backed : Backed schema known target)
    (registered : ∀ needed, Needed schema target needed → Registered schema known needed) (needed : Target)
    (needs : Needed schema target needed) : Backed schema known needed := by
  refine ⟨needed_of schema sound target needed backed.of needs, ?_⟩
  intro leaf mine
  cases needs with
  | part id scope part _ => cases mine
  | field family id scope composite field found taken _ inner =>
      have used := mem_field_types schema composite field (Schema.composite_mem schema id composite found)
        (taken_field composite family scope field taken).1
      exact field_needs_backed schema leaves known family field.type used
        (fun other owed => registered other (.field family id scope composite field found taken other owed)) needed inner
        leaf mine
  | own family id scope composite _ _ member =>
      have shared := own_needs_of family id _ needed member
      simp only [sharedTargets, List.mem_cons, List.not_mem_nil, or_false] at shared
      rcases shared with rfl | rfl | rfl | rfl <;> cases mine
  | negated held isString =>
      cases mine
      exact backed.leaf leaf rfl
  | operators held isString => cases mine

theorem backed_supplied (sound : schema.Sound) (leaves : schema.HasLeaves) (known : Registry) :
    Supplied schema (Backed schema known) known where
  of := fun _ backed => backed.of
  needs := fun target needs backed listed registered needed member =>
    have listing := needs_iff schema target needs listed
    needs_backed schema sound leaves known target backed (fun other owed => registered other ((listing other).mpr owed)) needed
      ((listing needed).mp member)

theorem call_needs_backed (sound : schema.Sound) (leaves : schema.HasLeaves) (known : Registry) (call : Call)
    (admitted : call.Admitted schema) (within : call.Within schema) (needs : List Need)
    (listed : call.needs schema = .ok needs)
    (registered : ∀ needed, .type needed ∈ needs → Registered schema known needed) (needed : Target)
    (member : .type needed ∈ needs) : Backed schema known needed := by
  obtain ⟨_, again, types, _⟩ := call_needs schema sound call admitted within
  cases again.symm.trans listed
  refine ⟨types needed member, ?_⟩
  intro leaf mine
  cases call with
  | leafFilter type =>
      have listing := leaf_filter_needs_iff schema .filter (.inl rfl) type admitted.2 needs listed
      exact field_needs_backed schema leaves known .filter type admitted.1
        (fun other owed => registered other ((listing other).mpr owed)) needed ((listing needed).mp member) leaf mine
  | composite family id excluded =>
      cases Except.ok.inj listed
      cases List.mem_singleton.mp member
      cases mine
  | sortDirections | page =>
      cases Except.ok.inj listed
      cases List.mem_singleton.mp member
      cases mine
  | queryArguments id excluded | updateArguments id excluded =>
      cases Except.ok.inj listed
      simp only [rootNeed, List.mem_cons, Need.type.injEq, List.not_mem_nil, or_false] at member
      obtain rfl | rfl | rfl := member <;> cases mine

structure Explained (registry : Registry) : Prop where
  sorted : registry.Sorted
  settled : ∀ key type, registry.lookup? key = some type →
    ∃ target, Settled schema (Backed schema registry) registry key type target

theorem met_sorted (needs : List Need) (draft after : Draft) (met : Met schema needs draft after)
    (sorted : draft.registry.Sorted) : after.registry.Sorted := by
  induction met with
  | done draft => exact sorted
  | notice id rest draft next after notified _ ih => exact ih (notify_registry schema draft next id notified ▸ sorted)
  | taken target rest draft after name named held _ ih => exact ih sorted
  | fresh target needs rest draft next after name type named free defined listed inside _ deeper ih =>
      exact ih (deeper (Registry.sorted_insert draft.registry name type sorted))

theorem backed_mono (before after : Registry) (kept : ∀ key, before.contains key = true → after.contains key = true)
    (target : Target) (backed : Backed schema before target) : Backed schema after target :=
  ⟨backed.of, fun leaf mine => Registry.resolves_mono before after schema.scalars _ kept (backed.leaf leaf mine)⟩

theorem call_explained (sound : schema.Sound) (leaves : schema.HasLeaves) (session : Session) (call : Call)
    (admitted : call.Admitted schema) (before : Explained schema session.registry) :
    Explained schema (session.call schema call).1.registry := by
  cases call_ends schema sound session call admitted with
  | refused id about outside result => exact result ▸ before
  | answered needs draft answer within listed met replied result =>
      rw [result]
      have kept := met_contains schema needs _ draft met
      have grows := met_grows schema (Backed schema draft.registry) draft.registry
        (backed_supplied schema sound leaves draft.registry) needs _ draft met (fun _ held => held)
        (call_needs_backed schema sound leaves draft.registry call admitted within needs listed
          (met_registers schema needs _ draft met))
      refine ⟨met_sorted schema needs _ draft met before.sorted, ?_⟩
      intro key type found
      rcases grows.added key type found with held | settled
      · obtain ⟨target, settled⟩ := before.settled key type held
        refine ⟨target, backed_mono schema _ _ kept target settled.allowed, settled.named, settled.defined, ?_⟩
        exact fun needed needs again member =>
          registered_mono schema _ _ kept needed (settled.needs needed needs again member)
      · exact settled

theorem reached_explained (sound : schema.Sound) (leaves : schema.HasLeaves) (session : Session)
    (reached : session.Reached schema) : Explained schema session.registry := by
  have empty : Explained schema {} := ⟨.nil, fun _ _ found => nomatch found⟩
  induction reached with
  | fresh => exact empty
  | call session call _ admitted ih => exact call_explained schema sound leaves session call admitted ih
  | clear => exact empty

theorem definition_name (target : Target) (name : String) (type : InputType) (named : target.name schema = .ok name)
    (defined : target.definition schema = .ok type) : type.name = name := by
  cases target with
  | composite family id scope =>
      obtain ⟨other, again, later⟩ := (except_bind_ok _ _ _).mp defined
      obtain ⟨fields, _, same⟩ := (except_bind_ok _ _ _).mp later
      cases Except.ok.inj same
      exact Except.ok.inj (again.symm.trans named)
  | enumCopy id =>
      obtain ⟨definition, found, same⟩ := (except_bind_ok _ _ _).mp named
      obtain ⟨other, again, whole⟩ := (except_bind_ok _ _ _).mp defined
      cases again.symm.trans found
      cases Except.ok.inj whole
      exact Except.ok.inj same
  | _ =>
      cases Except.ok.inj named
      cases Except.ok.inj defined
      rfl

theorem explained_closed (sound : schema.Sound) (leaves : schema.HasLeaves) (registry : Registry)
    (explained : Explained schema registry) : registry.Closed schema.scalars := by
  constructor
  · refine Registry.not_dangling registry schema.scalars ?_
    intro key object member
    have found := Registry.lookup_of_mem registry explained.sorted _ member
    obtain ⟨target, settled⟩ := explained.settled key _ found
    exact settled_leads schema leaves registry sound _ (fun _ backed => backed.of) key object target settled
      ((Registry.contains_iff registry key).mpr ⟨_, found⟩) settled.allowed.leaf
  · intro entry member
    obtain ⟨target, settled⟩ := explained.settled entry.1 entry.2
      (Registry.lookup_of_mem registry explained.sorted entry member)
    exact definition_name schema target entry.1 entry.2 settled.named settled.defined

theorem answer_registered (sound : schema.Sound) (leaves : schema.HasLeaves) (session : Session) (call : Call)
    (admitted : call.Admitted schema) (answer : Answer) (answered : (session.call schema call).2.2 = .ok answer) :
    ∀ type ∈ answer.types, (session.call schema call).1.registry.contains type.named = true := by
  cases call_ends schema sound session call admitted with
  | refused id about outside result =>
      rw [result] at answered
      cases answered
  | answered needs draft given within listed met replied result =>
      rw [result] at answered ⊢
      cases Except.ok.inj answered
      intro type member
      obtain ⟨target, needed, named⟩ := answer_target schema leaves call within needs answer listed replied type member
      obtain ⟨_, same, held⟩ := met_registers schema needs _ draft met target needed
      cases same.symm.trans named
      exact held

theorem derived_registry_closed (text : String) (schema : Schema) (read : Schema.ofText text = .ok schema)
    (session : Session) (reached : session.Reached schema) :
    session.registry.Closed schema.scalars ∧ ∀ call, call.Admitted schema →
      session.Ends schema call ∧ (session.call schema call).1.registry.Closed schema.scalars ∧
        ∀ answer, (session.call schema call).2.2 = .ok answer →
          ∀ type ∈ answer.types, (session.call schema call).1.registry.contains type.named = true := by
  have sound := Schema.sound_of_text text schema read
  have leaves := Schema.leaves_of_text text schema read
  have explained := reached_explained schema sound leaves session reached
  refine ⟨explained_closed schema sound leaves _ explained, ?_⟩
  intro call admitted
  have after := call_explained schema sound leaves session call admitted explained
  exact ⟨call_ends schema sound session call admitted, explained_closed schema sound leaves _ after,
    answer_registered schema sound leaves session call admitted⟩

def peopleText : String :=
  "scalar Date enum Kind \x7b CHILD ADULT \x7d " ++
    "type Person \x7b name: String, born: Date, kind: Kind!, friends: [Person!]!, home: Place \x7d " ++
    "type Place \x7b owner: Person, city: String \x7d"

def people : Schema where
  composites := [
    { name := "Person", kind := .object, fields := [
      { name := "name", type := .scalar .string },
      { name := "born", type := .scalar (.custom "Date") },
      { name := "kind", type := .nonNull (.named (.enum ⟨0⟩)) },
      { name := "friends", type := .nonNull (.list (.nonNull (.named (.composite .object ⟨0⟩)))) },
      { name := "home", type := .named (.composite .object ⟨1⟩) }] },
    { name := "Place", kind := .object, fields := [
      { name := "owner", type := .named (.composite .object ⟨0⟩) },
      { name := "city", type := .scalar .string }] }]
  enums := [{ name := "Kind", values := ["CHILD", "ADULT"] }]
  scalars := ["Date"]

def peopleSession : Session := (Session.call people {} (.composite .filter ⟨0⟩ ["name"])).1

def placeArguments : Answer := .arguments [
  { name := "filter", type := TypeRef.nonNull ⟨"PlaceFilterType"⟩ },
  { name := "update", type := TypeRef.nonNull ⟨"PlaceUpdateType"⟩ }]

theorem people_closed :
    Schema.ofText peopleText = .ok people ∧ peopleSession.Reached people ∧
      (peopleSession.call people (.updateArguments ⟨1⟩ [])).2.2 = .ok placeArguments ∧
      (peopleSession.call people (.updateArguments ⟨1⟩ [])).1.registry.Closed ["Date"] ∧
      ∀ type ∈ placeArguments.types,
        (peopleSession.call people (.updateArguments ⟨1⟩ [])).1.registry.contains type.named = true := by
  have read : Schema.ofText peopleText = .ok people := by decide +kernel
  have reached : peopleSession.Reached people := .call {} (.composite .filter ⟨0⟩ ["name"]) .fresh trivial
  have answered : (peopleSession.call people (.updateArguments ⟨1⟩ [])).2.2 = .ok placeArguments := by decide +kernel
  obtain ⟨_, calls⟩ := derived_registry_closed peopleText people read peopleSession reached
  obtain ⟨_, closed, registered⟩ := calls (.updateArguments ⟨1⟩ []) trivial
  exact ⟨read, reached, answered, closed, registered _ answered⟩

end DocGraph.Derivation
