import DocGraph.Proofs.Schema.Definitions

set_option autoImplicit false

namespace DocGraph.Schema

open GraphQL

theorem declare_cases (schema changed : Schema) (definition : TypeDefinition)
    (declared : schema.declare definition = .ok changed) : changed = schema ∨ changed = {
      composites := schema.composites ++ (compositesOf [definition]).map shellOf
      enums := schema.enums ++ [definition].filterMap enumOf?
      scalars := schema.scalars ++ [definition].filterMap scalarOf? } := by
  by_cases free : definition.name ∈ schema.names
  · left
    have composite (kind : CompositeKind) (made : Prod.snd <$> schema.addComposite kind definition.name = .ok changed) :
        changed = schema := by
      obtain ⟨⟨id, _⟩, added, rfl⟩ := (except_map_ok _ _ _).mp made
      unfold addComposite at added
      split at added
      · exact absurd free (name_free schema definition.name ‹_›)
      · split at added
        · cases Except.ok.inj added
          rfl
        · cases added
      · cases added
    unfold declare at declared
    split at declared
    · exact composite .object declared
    · exact composite .interface declared
    · obtain ⟨⟨id, held⟩, added, _⟩ := (except_bind_ok _ _ _).mp declared
      unfold addEnum at added
      split at added
      · exact absurd free (name_free schema definition.name ‹_›)
      · cases added
    · obtain ⟨⟨type, held⟩, added, rfl⟩ := (except_map_ok _ _ _).mp declared
      unfold addScalar at added
      split at added
      · cases Except.ok.inj added
        rfl
      · exact absurd free (name_free schema definition.name ‹_›)
      · cases Except.ok.inj added
        rfl
      · cases added
    · exact (Except.ok.inj declared).symm
    · exact (Except.ok.inj declared).symm
  · right
    exact Except.ok.inj (declared.symm.trans (declare_fresh schema definition free))

structure Continues (schema changed : Schema) : Prop where
  composites : schema.composites <+: changed.composites
  enums : schema.enums <+: changed.enums

theorem declare_continues (schema changed : Schema) (definition : TypeDefinition)
    (declared : schema.declare definition = .ok changed) : Continues schema changed := by
  rcases declare_cases schema changed definition declared with rfl | rfl
  · exact ⟨List.prefix_refl _, List.prefix_refl _⟩
  · exact ⟨List.prefix_append .., List.prefix_append ..⟩

theorem declares_continue (definitions : List TypeDefinition) (schema changed : Schema)
    (declares : definitions.foldlM declare schema = .ok changed) : Continues schema changed := by
  refine except_fold_keeps declare (Continues schema) definitions schema changed
    ⟨List.prefix_refl _, List.prefix_refl _⟩ ?_ declares
  intro definition _ held next before step
  have after := declare_continues held next definition step
  exact ⟨before.composites.trans after.composites, before.enums.trans after.enums⟩

theorem declared_composite_stays (schema changed : Schema) (longer : Continues schema changed)
    (name : String) (held : Declared) (found : schema.declaredComposite? name = some held) :
    changed.declaredComposite? name = some held := by
  obtain ⟨others, joined⟩ := longer.composites
  obtain ⟨id, named, listed⟩ := Option.bind_eq_some_iff.mp found
  obtain ⟨composite, here, _⟩ := Option.bind_eq_some_iff.mp listed
  have still : changed.compositeNamed? name = some id := by
    obtain ⟨index, first, rfl⟩ := Option.map_eq_some_iff.mp named
    simp [compositeNamed?, ← joined, List.findIdx?_append, first]
  have there : changed.composites[id.index]? = schema.composites[id.index]? := by
    rw [← joined]
    exact List.getElem?_append_left (List.getElem?_eq_some_iff.mp here).1
  rw [declaredComposite?, still]
  change (do let composite ← changed.composites[id.index]?; return Declared.composite composite.kind id) = some held
  rw [there]
  exact listed

theorem declare_composite (schema : Schema) (definition : TypeDefinition) (kind : CompositeKind)
    (defines : definition.body.kind? = some kind) :
    schema.declare definition = Prod.snd <$> schema.addComposite kind definition.name := by
  unfold declare
  cases body : definition.body <;> simp [TypeBody.kind?, body] at defines <;> rw [defines]

theorem composite_declared (schema changed : Schema) (definition : TypeDefinition) (kind : CompositeKind)
    (defines : definition.body.kind? = some kind) (declared : schema.declare definition = .ok changed) :
    ∃ id, changed.declaredComposite? definition.name = some (.composite kind id) := by
  rw [declare_composite schema definition kind defines] at declared
  obtain ⟨⟨id, _⟩, added, rfl⟩ := (except_map_ok _ _ _).mp declared
  unfold addComposite at added
  split at added
  · rename_i undeclared
    cases Except.ok.inj added
    have free := name_free schema definition.name undeclared
    simp only [names, List.mem_append, List.mem_map, not_or, not_exists, not_and] at free
    have fresh : schema.composites.findIdx? (fun composite => composite.name == definition.name) = none := by
      simpa using free.1.1
    exact ⟨⟨schema.composites.length⟩, by
      simp [declaredComposite?, compositeNamed?, List.findIdx?_append, fresh, List.findIdx?_cons]⟩
  · rename_i held id found
    split at added
    · rename_i same
      cases Except.ok.inj added
      unfold declared? at found
      split at found
      · rename_i listed
        exact ⟨id, by rw [listed, ← same, Option.some.inj found]⟩
      · cases found
      · split at found <;> cases found
    · cases added
  · cases added

theorem composites_declared (definitions : List TypeDefinition) (schema changed : Schema)
    (declares : definitions.foldlM declare schema = .ok changed) (definition : TypeDefinition) (member : definition ∈ definitions)
    (kind : CompositeKind) (defines : definition.body.kind? = some kind) :
    ∃ id, changed.declaredComposite? definition.name = some (.composite kind id) := by
  obtain ⟨front, back, rfl⟩ := List.append_of_mem member
  rw [List.foldlM_append, except_bind_ok] at declares
  obtain ⟨before, _, own⟩ := declares
  rw [List.foldlM_cons, except_bind_ok] at own
  obtain ⟨after, declared, others⟩ := own
  obtain ⟨id, found⟩ := composite_declared before after definition kind defines declared
  exact ⟨id, declared_composite_stays after changed (declares_continue back after changed others) _ _ found⟩

theorem declared_composite_listed (schema : Schema) (name : String) (held : Declared)
    (found : schema.declaredComposite? name = some held) : name ∈ schema.composites.map Composite.name := by
  obtain ⟨id, named, _⟩ := Option.bind_eq_some_iff.mp found
  obtain ⟨composite, listed, same⟩ := composite_named_found schema name id named
  exact same ▸ List.mem_map_of_mem (List.mem_of_getElem? listed)

theorem declare_again (schema : Schema) (definition : TypeDefinition) (kind : CompositeKind) (id : CompositeIndex)
    (defines : definition.body.kind? = some kind)
    (found : schema.declaredComposite? definition.name = some (.composite kind id)) :
    schema.declare definition = .ok schema := by
  have held : schema.declared? definition.name = some (.composite kind id) := by rw [declared?, found]
  have added : schema.addComposite kind definition.name = .ok (id, schema) := by simp [addComposite, held]
  rw [declare_composite schema definition kind defines, added]
  rfl

def filling (declared : Schema) (composite : Composite) (definition : TypeDefinition) : Composite :=
  if definition.body.kind?.isSome ∧ definition.name = composite.name then fill declared composite definition else composite

def own (name : String) (definitions : List TypeDefinition) : List TypeDefinition :=
  definitions.filter (fun definition => definition.body.kind?.isSome ∧ definition.name = name)

def gathered (declared : Schema) (name : String) (definitions : List TypeDefinition) : List Field :=
  (own name definitions).flatMap (fun definition => (declared.fieldsOf definition).toOption.getD [])

def described (name : String) (definitions : List TypeDefinition) (given : Option String) : Option String :=
  (own name definitions).foldl (fun given definition => definition.description.or given) given

theorem fillings (declared : Schema) (definitions : List TypeDefinition) (composite : Composite) :
    definitions.foldl (filling declared) composite = { composite with
      description := described composite.name definitions composite.description
      fields := composite.fields ++ gathered declared composite.name definitions } := by
  induction definitions generalizing composite with
  | nil => simp [described, gathered, own]
  | cons definition rest ih =>
      rw [List.foldl_cons, ih]
      by_cases mine : definition.body.kind?.isSome ∧ definition.name = composite.name
      · simp [filling, fill, described, gathered, own, mine]
      · simp [filling, described, gathered, own, mine]

def filledBy (declared schema : Schema) (definitions : List TypeDefinition) : Schema :=
  { schema with composites := schema.composites.map (fun composite => definitions.foldl (filling declared) composite) }

theorem filled_same_types (declared schema : Schema) (definitions : List TypeDefinition) (same : SameTypes schema declared) :
    SameTypes (filledBy declared schema definitions) declared := by
  refine ⟨?_, same.leaves.enums, same.leaves.scalars⟩
  rw [← same.composites, filledBy, List.map_map]
  refine List.map_congr_left (fun composite _ => ?_)
  rw [Function.comp_apply, fillings]

theorem members_filled (declared schema changed : Schema) (definition : TypeDefinition) (same : SameTypes schema declared)
    (apart : (schema.composites.map Composite.name).Nodup) (distinct : schema.FieldsDistinct)
    (known : definition.body.kind?.isSome → definition.name ∈ schema.composites.map Composite.name) :
    schema.addMembers definition = .ok changed ↔ (∃ fields, declared.fieldsOf definition = .ok fields) ∧
      changed.FieldsDistinct ∧ changed = filledBy declared schema [definition] := by
  cases defines : definition.body.kind?.isSome with
  | false =>
      have idle : filledBy declared schema [definition] = schema := by simp [filledBy, filling, defines]
      have none : declared.fieldsOf definition = .ok [] := by
        unfold fieldsOf
        cases body : definition.body with
        | object _ _ => simp [TypeBody.kind?, body] at defines
        | interface _ _ => simp [TypeBody.kind?, body] at defines
        | _ => rfl
      rw [other_members schema definition (by simpa using defines), idle]
      constructor
      · intro kept
        cases Except.ok.inj kept
        exact ⟨⟨[], none⟩, distinct, rfl⟩
      · rintro ⟨_, _, rfl⟩
        rfl
  | true =>
      obtain ⟨composite, member, named⟩ := List.mem_map.mp (known defines)
      obtain ⟨before, after, listed⟩ := List.append_of_mem member
      rw [listed, List.map_append, List.map_cons, named] at apart
      obtain ⟨_, behind, others⟩ := List.nodup_append.mp apart
      have early : definition.name ∉ before.map Composite.name := fun held => others _ held _ (List.mem_cons_self ..) rfl
      have late : definition.name ∉ after.map Composite.name := (List.nodup_cons.mp behind).1
      have elsewhere (composites : List Composite) (absent : definition.name ∉ composites.map Composite.name) :
          composites.map (fun composite => [definition].foldl (filling declared) composite) = composites := by
        refine (List.map_congr_left (fun other among => ?_)).trans (List.map_id composites)
        have different : definition.name ≠ other.name := fun held => absent (held ▸ List.mem_map_of_mem among)
        simp [filling, different]
      have filled : filledBy declared schema [definition] =
          { schema with composites := before ++ fill declared composite definition :: after } := by
        rw [filledBy, listed, List.map_append, List.map_cons, elsewhere before early, elsewhere after late]
        simp [filling, defines, named]
      rw [members_added declared schema changed before after composite definition defines named listed same early
        (distinct composite member), filled]
      refine and_congr_right' ⟨?_, ?_⟩
      · rintro ⟨own, rfl⟩
        refine ⟨?_, rfl⟩
        intro other among
        rcases List.mem_append.mp among with first | rest
        · exact distinct other (listed ▸ List.mem_append_left _ first)
        · rcases List.mem_cons.mp rest with rfl | last
          · exact own
          · exact distinct other (listed ▸ List.mem_append_right _ (List.mem_cons_of_mem composite last))
      · rintro ⟨whole, rfl⟩
        exact ⟨whole _ (List.mem_append_right _ (List.mem_cons_self ..)), rfl⟩

theorem all_members_filled (declared : Schema) (definitions : List TypeDefinition) (schema changed : Schema)
    (same : SameTypes schema declared)
    (apart : (schema.composites.map Composite.name).Nodup) (distinct : schema.FieldsDistinct)
    (known : ∀ definition ∈ definitions, definition.body.kind?.isSome →
      definition.name ∈ schema.composites.map Composite.name) :
    definitions.foldlM addMembers schema = .ok changed ↔
      (∀ definition ∈ definitions, ∃ fields, declared.fieldsOf definition = .ok fields) ∧
        changed.FieldsDistinct ∧ changed = filledBy declared schema definitions := by
  induction definitions generalizing schema with
  | nil =>
      have idle : filledBy declared schema [] = schema := by simp [filledBy]
      rw [idle]
      constructor
      · intro kept
        cases Except.ok.inj kept
        exact ⟨by simp, distinct, rfl⟩
      · rintro ⟨_, _, rfl⟩
        rfl
  | cons definition rest ih =>
      let next := filledBy declared schema [definition]
      have names : next.composites.map Composite.name = schema.composites.map Composite.name := by
        simp only [next, filledBy, List.map_map]
        refine List.map_congr_left (fun composite _ => ?_)
        rw [Function.comp_apply, fillings]
      have first (held : Schema) := members_filled declared schema held definition same apart distinct
        (known definition (List.mem_cons_self ..))
      have later (spread : next.FieldsDistinct) := ih next (filled_same_types declared schema [definition] same)
        (names.symm ▸ apart) spread (fun other member => names.symm ▸ known other (List.mem_cons_of_mem definition member))
      have whole : filledBy declared next rest = filledBy declared schema (definition :: rest) := by simp [next, filledBy]
      rw [List.foldlM_cons, except_bind_ok, List.forall_mem_cons, ← whole]
      constructor
      · rintro ⟨held, added, others⟩
        obtain ⟨readable, spread, rfl⟩ := (first held).mp added
        obtain ⟨readables, final⟩ := (later spread).mp others
        exact ⟨⟨readable, readables⟩, final⟩
      · rintro ⟨⟨readable, readables⟩, final, rfl⟩
        -- Fields that are apart in the end are apart on the way.
        have spread : next.FieldsDistinct := by
          intro composite member
          have among := List.mem_map_of_mem (f := fun composite => rest.foldl (filling declared) composite) member
          have longer := final _ among
          rw [fillings, List.map_append] at longer
          exact (List.nodup_append.mp longer).1
        exact ⟨next, (first next).mpr ⟨readable, spread, rfl⟩, (later spread).mpr ⟨readables, final, rfl⟩⟩

theorem of_types_filled (definitions : List TypeDefinition) (schema : Schema) : ofTypes definitions = .ok schema ↔
    ∃ declared, definitions.foldlM declare {} = .ok declared ∧
      (∀ definition ∈ definitions, ∃ fields, declared.fieldsOf definition = .ok fields) ∧
        schema.FieldsDistinct ∧ schema = filledBy declared declared definitions ∧ schema.check = .ok () := by
  have fills (declared filled : Schema) (declares : definitions.foldlM declare {} = .ok declared) :
      definitions.foldlM addMembers declared = .ok filled ↔
        (∀ definition ∈ definitions, ∃ fields, declared.fieldsOf definition = .ok fields) ∧
          filled.FieldsDistinct ∧ filled = filledBy declared declared definitions := by
    obtain ⟨declarations, run⟩ := all_declared definitions declared declares
    have apart : declared.NamesApart := run ▸ run_names_apart declarations
    have distinct : declared.FieldsDistinct := run ▸ run_distinct declarations
    apply all_members_filled declared definitions declared filled ⟨rfl, rfl, rfl⟩
      (List.nodup_append.mp (List.nodup_append.mp apart).1).1 distinct
    intro definition member defines
    obtain ⟨kind, given⟩ := Option.isSome_iff_exists.mp defines
    obtain ⟨id, found⟩ := composites_declared definitions {} declared declares definition member kind given
    exact declared_composite_listed declared definition.name _ found
  unfold ofTypes
  simp only [except_bind_ok]
  constructor
  · rintro ⟨declared, declares, filled, added, _, checked, same⟩
    cases Except.ok.inj same
    obtain ⟨readable, distinct, final⟩ := (fills declared schema declares).mp added
    exact ⟨declared, declares, readable, distinct, final, checked⟩
  · rintro ⟨declared, declares, readable, distinct, final, checked⟩
    exact ⟨declared, declares, schema, (fills declared schema declares).mpr ⟨readable, distinct, final⟩, (), checked, rfl⟩

end DocGraph.Schema
