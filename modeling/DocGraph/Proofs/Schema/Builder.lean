import DocGraph.Proofs.InputType.Registry
import DocGraph.Proofs.Schema.Runs
import DocGraph.Schema.Builder

set_option autoImplicit false

namespace DocGraph

namespace NameTable

theorem lookup_insert (names : NameTable) (name key : String) (id : NamedId) :
    (names.insert name id).lookup? key = if name = key then some id else names.lookup? key := by
  rw [insert, lookup?, Keyed.find_put]
  by_cases same : name = key
  · rw [if_pos same, if_pos same]
    rfl
  · rw [if_neg same, if_neg same]
    rfl

theorem lookup_mem (names : NameTable) (keys : (names.map Prod.fst).Nodup) (name : String) (id : NamedId) :
    names.lookup? name = some id ↔ (name, id) ∈ names := by
  induction names with
  | nil => simp [lookup?, Keyed.find?]
  | cons entry rest ih =>
      rcases entry with ⟨key, held⟩
      obtain ⟨fresh, apart⟩ := List.nodup_cons.mp keys
      by_cases same : key = name
      · subst same
        have absent : (key, id) ∉ rest := fun member => fresh (List.mem_map.mpr ⟨_, member, rfl⟩)
        simp [lookup?, Keyed.find?, absent, eq_comm]
      · have other : ¬ name = key := fun h => same h.symm
        simpa [lookup?, Keyed.find?, same, other] using ih apart

theorem lookup_free (names : NameTable) (name : String) (free : names.lookup? name = none) : name ∉ names.map Prod.fst := by
  intro member
  obtain ⟨entry, listed, same⟩ := List.mem_map.mp member
  have missed := List.find?_eq_none.mp (Option.map_eq_none_iff.mp free) entry listed
  exact missed (beq_iff_eq.mpr same)

theorem insert_free (names : NameTable) (name : String) (id : NamedId) (free : names.lookup? name = none) :
    names.insert name id = names ++ [(name, id)] := by
  have absent := lookup_free names name free
  clear free
  unfold insert
  induction names with
  | nil => rfl
  | cons entry rest ih =>
      obtain ⟨other, later⟩ := not_or.mp (mt List.mem_cons.mpr absent)
      rw [Keyed.put, if_neg (Ne.symm other), ih later, List.cons_append]

theorem insert_keys (names : NameTable) (name : String) (id : NamedId) (free : names.lookup? name = none)
    (keys : (names.map Prod.fst).Nodup) : ((names.insert name id).map Prod.fst).Nodup := by
  rw [insert_free names name id free, List.map_append]
  refine List.nodup_append.mpr ⟨keys, List.pairwise_singleton _ _, ?_⟩
  intro held member key single same
  rw [same, List.mem_singleton.mp single] at member
  exact lookup_free names name free member

theorem mem_scalars (names : NameTable) (keys : (names.map Prod.fst).Nodup) (name : String) :
    name ∈ names.scalars ↔ names.lookup? name = some .scalar := by
  rw [lookup_mem names keys]
  simp [scalars]

theorem scalars_insert (names : NameTable) (name : String) (id : NamedId) (free : names.lookup? name = none) :
    (names.insert name id).scalars = if id = .scalar then names.scalars ++ [name] else names.scalars := by
  rw [insert_free names name id free]
  by_cases scalar : id = .scalar <;> simp [scalars, scalar]

def Locates (names : NameTable) (place : Nat → NamedId) (items : List String) : Prop :=
  ∀ name index, names.lookup? name = some (place index) ↔ items[index]? = some name

variable (names : NameTable) (place : Nat → NamedId) (items : List String) (name : String)
  (free : names.lookup? name = none)

include free in
theorem locates_item (injective : ∀ i j, place i = place j → i = j) (locates : names.Locates place items) :
    (names.insert name (place items.length)).Locates place (items ++ [name]) := by
  intro key index
  rw [lookup_insert]
  by_cases within : index < items.length
  · rw [List.getElem?_append_left within]
    by_cases same : name = key
    · subst same
      have absent := mt (locates name index).mpr (by rw [free]; exact nofun)
      have other : items.length ≠ index := Nat.ne_of_gt within
      rw [if_pos rfl, Option.some.injEq]
      exact ⟨fun h => absurd (injective _ _ h) other, fun h => absurd h absent⟩
    · rw [if_neg same]
      exact locates key index
  · have beyond : items.length ≤ index := Nat.le_of_not_lt within
    have absent : ¬ names.lookup? key = some (place index) := by
      rw [locates key index, List.getElem?_eq_none beyond]
      exact nofun
    rw [List.getElem?_append_right beyond]
    by_cases last : index = items.length
    · subst last
      by_cases same : name = key
      · simp [same]
      · simp [same, absent]
    · have past : 1 ≤ index - items.length := by omega
      have other : items.length ≠ index := fun h => last h.symm
      rw [List.getElem?_eq_none past]
      by_cases same : name = key
      · rw [if_pos same, Option.some.injEq]
        exact ⟨fun h => absurd (injective _ _ h) other, nofun⟩
      · rw [if_neg same]
        exact ⟨fun h => absurd h absent, nofun⟩

include free in
theorem locates_other (id : NamedId) (apart : ∀ index, id ≠ place index) (locates : names.Locates place items) :
    (names.insert name id).Locates place items := by
  intro key index
  rw [lookup_insert]
  by_cases same : name = key
  · subst same
    have absent := mt (locates name index).mpr (by rw [free]; exact nofun)
    rw [if_pos rfl, Option.some.injEq]
    exact ⟨fun h => absurd h (apart index), fun h => absurd h absent⟩
  · rw [if_neg same]
    exact locates key index

theorem locates_search {α : Type} (label : α → String) (listed : List α)
    (injective : ∀ i j, place i = place j → i = j) (locates : names.Locates place (listed.map label)) (key : String)
    (index : Nat) :
    listed.findIdx? (fun item => label item == key) = some index ↔ names.lookup? key = some (place index) := by
  have told (other : Nat) (found : listed.findIdx? (fun item => label item == key) = some other) :
      names.lookup? key = some (place other) := by
    obtain ⟨within, same, _⟩ := List.findIdx?_eq_some_iff_getElem.mp found
    rw [locates key other, List.getElem?_map, List.getElem?_eq_getElem within, Option.map_some, beq_iff_eq.mp same]
  constructor
  · exact told index
  · intro held
    cases found : listed.findIdx? (fun item => label item == key) with
    | none =>
        have missing : key ∉ listed.map label := by simpa using found
        exact absurd (List.mem_of_getElem? ((locates key index).mp held)) missing
    | some other =>
        have same := Option.some.inj (held.symm.trans (told other found))
        rw [injective index other same]

end NameTable

namespace Builder

namespace Building

variable {α β : Type}

theorem run_get (next : Builder → Building α) (builder : Builder) :
    (get >>= next).run.run builder = (next builder).run.run builder := rfl

theorem run_return (steps : Building α) (f : α → β) (builder : Builder) :
    (steps >>= fun value => pure (f value)).run.run builder =
      ((steps.run.run builder).1.map f, (steps.run.run builder).2) := by
  rw [ExceptT.run_bind, StateT.run_bind]
  rcases steps.run.run builder with ⟨result, after⟩
  cases result <;> rfl

variable (builder : Builder)

theorem run_composite (kind : CompositeKind) (text : String) : (composite kind text).run.run builder =
    match builder.names.lookup? text with
    | some (.composite id) =>
        match builder.compositeKind? id with
        | some held =>
            if held = kind then (.ok id, builder)
            else (.error (.conflictingKind text (.composite held) (.composite kind)), builder)
        | none => (.ok id, builder)
    | some held => (.error (.conflictingKind text (builder.kindOf held) (.composite kind)), builder)
    | none =>
        (.ok ⟨builder.composites.length⟩,
          { builder with
            composites := builder.composites ++ [{ name := text, kind := kind }]
            names := builder.names.insert text (.composite ⟨builder.composites.length⟩) }) := by
  unfold composite
  rw [run_get]
  cases builder.names.lookup? text with
  | none => rfl
  | some held =>
      cases held with
      | composite id =>
          dsimp only
          rw [run_get]
          cases builder.compositeKind? id with
          | none => rfl
          | some held =>
              by_cases same : held = kind
              · simp only [if_pos same]
                rfl
              · simp only [if_neg same]
                rfl
      | enum id => rfl
      | scalar => rfl

theorem run_enum (text : String) (values : List String) : (enum text values).run.run builder =
    match builder.names.lookup? text with
    | some held => (.error (.conflictingKind text (builder.kindOf held) .enum), builder)
    | none =>
        (.ok ⟨builder.enums.length⟩,
          { builder with
            enums := builder.enums ++ [{ name := text, values := values }]
            names := builder.names.insert text (.enum ⟨builder.enums.length⟩) }) := by
  unfold enum
  rw [run_get]
  cases builder.names.lookup? text <;> rfl

theorem run_scalar (text : String) : (scalar text).run.run builder =
    match ScalarType.builtin? text, builder.names.lookup? text with
    | some builtin, _ => (.ok builtin, builder)
    | none, none => (.ok (.custom text), { builder with names := builder.names.insert text .scalar })
    | none, some .scalar => (.ok (.custom text), builder)
    | none, some held => (.error (.conflictingKind text (builder.kindOf held) .scalar), builder) := by
  unfold scalar
  cases ScalarType.builtin? text with
  | some builtin => rfl
  | none =>
      dsimp only
      rw [run_get]
      cases builder.names.lookup? text with
      | none => rfl
      | some held => cases held <;> rfl

theorem run_field (owner : CompositeIndex) (given : Field) : (field owner given).run.run builder =
    match builder.composites[owner.index]? with
    | none => (.error (.undeclaredType owner), builder)
    | some composite =>
        match composite.field? given.name with
        | some _ => (.error (.duplicateField composite.name given.name), builder)
        | none =>
            (.ok (), { builder with
              composites := builder.composites.set owner.index { composite with fields := composite.fields ++ [given] } }) := by
  unfold field
  rw [run_get]
  cases builder.composites[owner.index]? with
  | none => rfl
  | some composite =>
      dsimp only
      cases composite.field? given.name <;> rfl

def Atomic (steps : Building α) : Prop :=
  ∀ builder after error, steps.run.run builder = (.error error, after) → after = builder

theorem composite_atomic (kind : CompositeKind) (text : String) : (composite kind text).Atomic := by
  intro builder after error failed
  rw [run_composite] at failed
  split at failed
  · split at failed
    · split at failed
      · cases failed
      · cases failed
        rfl
    · cases failed
  · cases failed
    rfl
  · cases failed

theorem enum_atomic (text : String) (values : List String) : (enum text values).Atomic := by
  intro builder after error failed
  rw [run_enum] at failed
  split at failed
  · cases failed
    rfl
  · cases failed

theorem scalar_atomic (text : String) : (scalar text).Atomic := by
  intro builder after error failed
  rw [run_scalar] at failed
  split at failed
  · cases failed
  · cases failed
  · cases failed
  · cases failed
    rfl

theorem field_atomic (owner : CompositeIndex) (given : Field) : (field owner given).Atomic := by
  intro builder after error failed
  rw [run_field] at failed
  split at failed
  · cases failed
    rfl
  · split at failed
    · cases failed
      rfl
    · cases failed

theorem return_atomic (steps : Building α) (f : α → β) (atomic : steps.Atomic) :
    (steps >>= fun value => pure (f value)).Atomic := by
  intro builder after error failed
  rw [run_return] at failed
  refine atomic builder after error ?_
  generalize steps.run.run builder = outcome at failed ⊢
  rcases outcome with ⟨result, left⟩
  cases result with
  | ok value => cases failed
  | error held =>
      cases failed
      rfl

theorem call_atomic (declaration : Declaration) : (call declaration).Atomic := by
  cases declaration with
  | composite kind name => exact return_atomic _ _ (composite_atomic kind name)
  | enum name values => exact return_atomic _ _ (enum_atomic name values)
  | scalar name => exact return_atomic _ _ (scalar_atomic name)
  | describe id text => exact return_atomic _ _ (fun _ _ _ failed => by cases failed)
  | describeEnum id text => exact return_atomic _ _ (fun _ _ _ failed => by cases failed)
  | field owner given => exact return_atomic _ _ (field_atomic owner given)

end Building

theorem step_refused (builder : Builder) (declaration : Declaration) (error : SchemaError)
    (refused : (builder.step declaration).2 = .error error) : (builder.step declaration).1 = builder :=
  Building.call_atomic declaration builder _ error (Prod.ext refused rfl)

structure Agrees (builder : Builder) : Prop where
  keys : (builder.names.map Prod.fst).Nodup
  composites : builder.names.Locates (fun index => .composite ⟨index⟩) (builder.composites.map Composite.name)
  enums : builder.names.Locates (fun index => .enum ⟨index⟩) (builder.enums.map Enumeration.name)

section

variable (builder : Builder) (agrees : builder.Agrees)

include agrees in
theorem composite_located (name : String) (id : CompositeIndex) : builder.names.lookup? name = some (.composite id) ↔
    ∃ composite, builder.composites[id.index]? = some composite ∧ composite.name = name := by
  rw [← Option.map_eq_some_iff, ← List.getElem?_map]
  exact agrees.composites name id.index

include agrees in
theorem enum_located (name : String) (id : EnumIndex) : builder.names.lookup? name = some (.enum id) ↔
    ∃ definition, builder.enums[id.index]? = some definition ∧ definition.name = name := by
  rw [← Option.map_eq_some_iff, ← List.getElem?_map]
  exact agrees.enums name id.index

include agrees in
theorem composite_searched (name : String) (id : CompositeIndex) :
    builder.schema.compositeNamed? name = some id ↔ builder.names.lookup? name = some (.composite id) := by
  rw [← NameTable.locates_search builder.names _ Composite.name builder.composites (by simp) agrees.composites name id.index,
    Schema.compositeNamed?, Option.map_eq_some_iff]
  constructor
  · rintro ⟨_, found, same⟩
    exact same ▸ found
  · intro found
    exact ⟨id.index, found, rfl⟩

include agrees in
theorem enum_searched (name : String) (id : EnumIndex) :
    builder.schema.enumNamed? name = some id ↔ builder.names.lookup? name = some (.enum id) := by
  rw [← NameTable.locates_search builder.names _ Enumeration.name builder.enums (by simp) agrees.enums name id.index,
    Schema.enumNamed?, Option.map_eq_some_iff]
  constructor
  · rintro ⟨_, found, same⟩
    exact same ▸ found
  · intro found
    exact ⟨id.index, found, rfl⟩

def declared? (name : String) : Option Declared :=
  match builder.names.lookup? name with
  | some (.composite id) => (builder.compositeKind? id).map (fun kind => .composite kind id)
  | some (.enum id) => some (.enum id)
  | some .scalar => some .scalar
  | none => none

include agrees in
theorem declared_named (name : String) : builder.schema.declared? name = builder.declared? name := by
  have noComposite (other : ∀ id, builder.names.lookup? name ≠ some (.composite id)) :
      builder.schema.declaredComposite? name = none := by
    have missing : builder.schema.compositeNamed? name = none :=
      Option.eq_none_iff_forall_ne_some.mpr (fun id found => other id ((composite_searched builder agrees name id).mp found))
    rw [Schema.declaredComposite?, missing]
    rfl
  have noEnum (other : ∀ id, builder.names.lookup? name ≠ some (.enum id)) : builder.schema.enumNamed? name = none :=
    Option.eq_none_iff_forall_ne_some.mpr (fun id found => other id ((enum_searched builder agrees name id).mp found))
  unfold Schema.declared? declared?
  cases told : builder.names.lookup? name with
  | none =>
      have unlisted : name ∉ builder.schema.scalars := by
        rw [show builder.schema.scalars = builder.names.scalars from rfl, NameTable.mem_scalars builder.names agrees.keys, told]
        simp
      rw [noComposite (by simp [told]), noEnum (by simp [told])]
      simp [unlisted]
  | some held =>
      cases held with
      | composite id =>
          obtain ⟨composite, listed, _⟩ := (composite_located builder agrees name id).mp told
          have found : builder.schema.declaredComposite? name = some (.composite composite.kind id) := by
            rw [Schema.declaredComposite?, (composite_searched builder agrees name id).mpr told]
            change (builder.composites[id.index]?.bind fun composite => some (Declared.composite composite.kind id)) = _
            rw [listed]
            rfl
          have kind : builder.compositeKind? id = some composite.kind := by rw [compositeKind?, listed, Option.map_some]
          simp only [found, kind, Option.map_some]
      | enum id =>
          rw [noComposite (by simp [told]), (enum_searched builder agrees name id).mpr told]
      | scalar =>
          have listed : name ∈ builder.schema.scalars := (NameTable.mem_scalars builder.names agrees.keys name).mpr told
          rw [noComposite (by simp [told]), noEnum (by simp [told])]
          simp [listed]

include agrees in
theorem composite_declared (name : String) (id : CompositeIndex) (told : builder.names.lookup? name = some (.composite id)) :
    ∃ kind, builder.compositeKind? id = some kind ∧ builder.schema.declared? name = some (.composite kind id) := by
  obtain ⟨composite, listed, _⟩ := (composite_located builder agrees name id).mp told
  have known : builder.compositeKind? id = some composite.kind := by rw [compositeKind?, listed, Option.map_some]
  refine ⟨composite.kind, known, ?_⟩
  rw [declared_named builder agrees name, declared?, told]
  simp only [known, Option.map_some]

theorem step_returns {α : Type} (declaration : Declaration) (steps : Building α) (f : α → Declaration.Answer)
    (returns : Building.call declaration = steps >>= fun value => pure (f value)) :
    builder.step declaration = ((steps.run.run builder).2, (steps.run.run builder).1.map f) := by
  rw [step, returns, Building.run_return]

section

variable (name : String) (free : builder.names.lookup? name = none)

include agrees free

theorem agrees_composite (kind : CompositeKind) : Agrees { builder with
    composites := builder.composites ++ [{ name := name, kind := kind }]
    names := builder.names.insert name (.composite ⟨builder.composites.length⟩) } := by
  refine ⟨NameTable.insert_keys builder.names name _ free agrees.keys, ?_, ?_⟩
  · have located := NameTable.locates_item builder.names _ _ name free (by simp) agrees.composites
    rw [List.length_map] at located
    rwa [List.map_append]
  · exact NameTable.locates_other builder.names _ _ name free _ (by simp) agrees.enums

theorem agrees_enum (values : List String) : Agrees { builder with
    enums := builder.enums ++ [{ name := name, values := values }]
    names := builder.names.insert name (.enum ⟨builder.enums.length⟩) } := by
  refine ⟨NameTable.insert_keys builder.names name _ free agrees.keys, ?_, ?_⟩
  · exact NameTable.locates_other builder.names _ _ name free _ (by simp) agrees.composites
  · have located := NameTable.locates_item builder.names _ _ name free (by simp) agrees.enums
    rw [List.length_map] at located
    rwa [List.map_append]

theorem agrees_scalar : Agrees { builder with names := builder.names.insert name .scalar } :=
  ⟨NameTable.insert_keys builder.names name _ free agrees.keys,
    NameTable.locates_other builder.names _ _ name free _ (by simp) agrees.composites,
    NameTable.locates_other builder.names _ _ name free _ (by simp) agrees.enums⟩

end

-- A call does to the schema of a builder what the declaration does to the schema.
structure Preserved (declaration : Declaration) : Prop where
  answer : (builder.step declaration).2 = (builder.schema.step declaration).2
  schema : (builder.step declaration).1.schema = (builder.schema.step declaration).1
  agrees : (builder.step declaration).1.Agrees

theorem preserved_of_steps (declaration : Declaration) (after : Builder) (result : Except SchemaError Declaration.Answer)
    (mine : builder.step declaration = (after, result)) (agrees : after.Agrees)
    (theirs : builder.schema.step declaration = (after.schema, result)) : builder.Preserved declaration := by
  constructor
  · rw [mine, theirs]
  · rw [mine, theirs]
  · rw [mine]
    exact agrees

include agrees in
theorem composite_preserved (kind : CompositeKind) (name : String) : builder.Preserved (.composite kind name) := by
  have mine := step_returns builder (.composite kind name) _ _ rfl
  have declared := declared_named builder agrees name
  rw [Building.run_composite] at mine
  unfold declared? at declared
  cases told : builder.names.lookup? name with
  | none =>
      rw [told] at mine declared
      refine preserved_of_steps builder _ _ _ mine (agrees_composite builder agrees name told kind) ?_
      have same : (builder.names.insert name (.composite ⟨builder.composites.length⟩)).scalars = builder.names.scalars :=
        NameTable.scalars_insert builder.names name _ told
      rw [Schema.step, Schema.attempt, Schema.addComposite, declared]
      simp only [schema, same]
      rfl
  | some held =>
      rw [told] at mine declared
      cases held with
      | composite id =>
          obtain ⟨other, known, declared⟩ := composite_declared builder agrees name id told
          simp only [known] at mine
          by_cases same : other = kind
          · rw [if_pos same] at mine
            refine preserved_of_steps builder _ _ _ mine agrees ?_
            rw [Schema.step, Schema.attempt, Schema.addComposite, declared]
            simp only [if_pos same]
            rfl
          · rw [if_neg same] at mine
            refine preserved_of_steps builder _ _ _ mine agrees ?_
            rw [Schema.step, Schema.attempt, Schema.addComposite, declared]
            simp only [if_neg same]
            rfl
      | _ =>
          refine preserved_of_steps builder _ _ _ mine agrees ?_
          rw [Schema.step, Schema.attempt, Schema.addComposite, declared]
          rfl

include agrees in
theorem enum_preserved (name : String) (values : List String) : builder.Preserved (.enum name values) := by
  have mine := step_returns builder (.enum name values) _ _ rfl
  have declared := declared_named builder agrees name
  rw [Building.run_enum] at mine
  unfold declared? at declared
  cases told : builder.names.lookup? name with
  | none =>
      rw [told] at mine declared
      refine preserved_of_steps builder _ _ _ mine (agrees_enum builder agrees name told values) ?_
      have same : (builder.names.insert name (.enum ⟨builder.enums.length⟩)).scalars = builder.names.scalars :=
        NameTable.scalars_insert builder.names name _ told
      rw [Schema.step, Schema.attempt, Schema.addEnum, declared]
      simp only [schema, same]
      rfl
  | some held =>
      rw [told] at mine declared
      refine preserved_of_steps builder _ _ _ mine agrees ?_
      cases held with
      | composite id =>
          obtain ⟨kind, known, declared⟩ := composite_declared builder agrees name id told
          simp only [Schema.step, Schema.attempt, Schema.addEnum, declared, kindOf, known]
          rfl
      | _ =>
          rw [Schema.step, Schema.attempt, Schema.addEnum, declared]
          rfl

include agrees in
theorem scalar_preserved (name : String) : builder.Preserved (.scalar name) := by
  have mine := step_returns builder (.scalar name) _ _ rfl
  have declared := declared_named builder agrees name
  rw [Building.run_scalar] at mine
  unfold declared? at declared
  cases builtin : ScalarType.builtin? name with
  | some type =>
      rw [builtin] at mine
      refine preserved_of_steps builder _ _ _ mine agrees ?_
      rw [Schema.step, Schema.attempt, Schema.addScalar, builtin]
      rfl
  | none =>
      cases told : builder.names.lookup? name with
      | none =>
          rw [builtin, told] at mine
          rw [told] at declared
          refine preserved_of_steps builder _ _ _ mine (agrees_scalar builder agrees name told) ?_
          have more : (builder.names.insert name .scalar).scalars = builder.names.scalars ++ [name] :=
            NameTable.scalars_insert builder.names name _ told
          rw [Schema.step, Schema.attempt, Schema.addScalar, builtin, declared]
          simp only [schema, more]
          rfl
      | some held =>
          rw [builtin, told] at mine
          rw [told] at declared
          cases held with
          | composite id =>
              obtain ⟨kind, known, declared⟩ := composite_declared builder agrees name id told
              refine preserved_of_steps builder _ _ _ mine agrees ?_
              simp only [Schema.step, Schema.attempt, Schema.addScalar, builtin, declared, kindOf, known]
              rfl
          | _ =>
              refine preserved_of_steps builder _ _ _ mine agrees ?_
              rw [Schema.step, Schema.attempt, Schema.addScalar, builtin, declared]
              rfl

include agrees in
theorem agrees_of_labels (after : Builder) (names : after.names = builder.names)
    (composites : after.composites.map Composite.name = builder.composites.map Composite.name)
    (enums : after.enums.map Enumeration.name = builder.enums.map Enumeration.name) : after.Agrees := by
  constructor
  · rw [names]
    exact agrees.keys
  · rw [names, composites]
    exact agrees.composites
  · rw [names, enums]
    exact agrees.enums

include agrees in
theorem field_preserved (owner : CompositeIndex) (given : Field) : builder.Preserved (.field owner given) := by
  have mine := step_returns builder (.field owner given) (Building.field owner given) (fun _ => .done) rfl
  rw [Building.run_field] at mine
  cases found : builder.composites[owner.index]? with
  | none =>
      rw [found] at mine
      refine preserved_of_steps builder _ _ _ mine agrees ?_
      have absent : builder.schema.composites[owner.index]? = none := found
      rw [Schema.step, Schema.attempt, Schema.addField, absent]
      rfl
  | some composite =>
      have listed : builder.schema.composites[owner.index]? = some composite := found
      rw [found] at mine
      cases held : composite.field? given.name with
      | some other =>
          simp only [held] at mine
          refine preserved_of_steps builder _ _ _ mine agrees ?_
          rw [Schema.step, Schema.attempt, Schema.addField, listed]
          simp only [held]
          rfl
      | none =>
          simp only [held] at mine
          refine preserved_of_steps builder _ _ _ mine ?_ ?_
          · exact agrees_of_labels builder agrees _ rfl (Schema.map_set_same Composite.name _ _ composite _ found rfl) rfl
          · rw [Schema.step, Schema.attempt, Schema.addField, listed]
            simp only [held]
            rfl

include agrees in
theorem step_preserved (declaration : Declaration) : builder.Preserved declaration := by
  cases declaration with
  | composite kind name => exact composite_preserved builder agrees kind name
  | enum name values => exact enum_preserved builder agrees name values
  | scalar name => exact scalar_preserved builder agrees name
  | describe id text =>
      have labels := Schema.map_modify Composite.name (fun composite => { composite with description := some text })
        (fun _ => rfl) builder.composites id.index
      exact preserved_of_steps builder _ _ _ rfl (agrees_of_labels builder agrees _ rfl labels rfl) rfl
  | describeEnum id text =>
      have labels := Schema.map_modify Enumeration.name (fun definition => { definition with description := some text })
        (fun _ => rfl) builder.enums id.index
      exact preserved_of_steps builder _ _ _ rfl (agrees_of_labels builder agrees _ rfl rfl labels) rfl
  | field owner given => exact field_preserved builder agrees owner given

end

theorem run_preserved (declarations : List Declaration) (builder : Builder) (agrees : builder.Agrees) :
    (builder.run declarations).Agrees ∧ (builder.run declarations).schema = builder.schema.run declarations := by
  induction declarations generalizing builder with
  | nil => exact ⟨agrees, rfl⟩
  | cons declaration rest ih =>
      have step := step_preserved builder agrees declaration
      obtain ⟨later, same⟩ := ih (builder.step declaration).1 step.agrees
      refine ⟨later, same.trans ?_⟩
      rw [step.schema]
      rfl

theorem agrees_empty : Agrees {} := by
  constructor
  · exact List.nodup_nil
  · intro name index
    simp [NameTable.lookup?, Keyed.find?]
  · intro name index
    simp [NameTable.lookup?, Keyed.find?]

structure Consistent (builder : Builder) : Prop where
  refused : ∀ declaration error, (builder.step declaration).2 = .error error → (builder.step declaration).1 = builder
  composites : ∀ name id, builder.names.lookup? name = some (.composite id) ↔
    ∃ composite, builder.composites[id.index]? = some composite ∧ composite.name = name
  enums : ∀ name id, builder.names.lookup? name = some (.enum id) ↔
    ∃ definition, builder.enums[id.index]? = some definition ∧ definition.name = name
  apart : (builder.composites.map Composite.name ++ builder.enums.map Enumeration.name ++ builder.names.scalars).Nodup
  located : ∀ (id : CompositeIndex) (composite : Composite), builder.composites[id.index]? = some composite →
    builder.names.compositeNamed? composite.name = some id
  answered : ∀ kind name id, (builder.step (.composite kind name)).2 = .ok (.composite id) → ∀ declarations,
    ((builder.step (.composite kind name)).1.run declarations).names.compositeNamed? name = some id ∧
      ∃ composite, ((builder.step (.composite kind name)).1.run declarations).composites[id.index]? = some composite ∧
        composite.name = name ∧ composite.kind = kind
  built : (∃ graph, builder.build = .ok graph) ↔ ∀ composite ∈ builder.composites, composite.fields ≠ [] ∧
    ∀ field ∈ composite.fields, field.type.Refers builder.schema
  knows : ∀ graph, builder.build = .ok graph → graph = { schema := builder.schema, names := builder.names } ∧
    ∀ id : CompositeIndex, id.index < builder.composites.length →
      (∀ filter, KnowsTypes (Filter.document graph.schema id filter).result) ∧
      (∀ request key excluded computed,
        KnowsTypes (Projection.document graph.schema id request key excluded computed).result) ∧
      (∀ update overwrite computed, KnowsTypes (Update.check graph.schema id update overwrite computed)) ∧
      ∀ (session : Derivation.Session) (call : Derivation.Call), call.composite? = some id →
        ∃ answer, (session.call graph.schema call).2.2 = .ok answer

theorem composite_told (builder : Builder) (agrees : builder.Agrees) (id : CompositeIndex) (composite : Composite)
    (listed : builder.composites[id.index]? = some composite) : builder.names.compositeNamed? composite.name = some id := by
  have told := (composite_located builder agrees composite.name id).mpr ⟨composite, listed, rfl⟩
  rw [NameTable.compositeNamed?, told]

theorem build_ok (builder : Builder) (graph : TypeGraph) : builder.build = .ok graph ↔
    builder.schema.check = .ok () ∧ graph = { schema := builder.schema, names := builder.names } := by
  unfold build
  cases builder.schema.check with
  | error error => exact ⟨nofun, nofun⟩
  | ok _ => exact ⟨fun same => ⟨rfl, (Except.ok.inj same).symm⟩, fun ⟨_, same⟩ => same ▸ rfl⟩

theorem run_consistent (declarations : List Declaration) : (Builder.run {} declarations).Consistent := by
  obtain ⟨agrees, same⟩ := run_preserved declarations {} agrees_empty
  have runs : (Builder.run {} declarations).schema = Schema.run {} declarations := same
  generalize Builder.run {} declarations = builder at agrees runs
  constructor
  case refused => exact step_refused builder
  case composites => exact composite_located builder agrees
  case enums => exact enum_located builder agrees
  case apart =>
    have apart : builder.schema.NamesApart := runs ▸ Schema.run_names_apart declarations
    exact apart
  case located => exact composite_told builder agrees
  case answered =>
    intro kind name id answered later
    have step := step_preserved builder agrees (.composite kind name)
    obtain ⟨reached, follows⟩ := run_preserved later _ step.agrees
    obtain ⟨composite, here, rfl, rfl⟩ := Schema.composite_answered builder.schema kind name id (step.answer ▸ answered)
    obtain ⟨held, there, named, kinded⟩ := Schema.run_places _ later id composite here
    rw [← step.schema, ← follows, Schema.composite_ok] at there
    exact ⟨named ▸ composite_told _ reached id held there, held, there, named, kinded⟩
  case built =>
    refine Iff.trans ?_ (Schema.check_ok builder.schema)
    constructor
    · rintro ⟨graph, built⟩
      exact ((build_ok builder graph).mp built).1
    · intro checked
      exact ⟨_, (build_ok builder _).mpr ⟨checked, rfl⟩⟩
  case knows =>
    intro graph built
    obtain ⟨checked, rfl⟩ := (build_ok builder graph).mp built
    refine ⟨rfl, fun id within => ?_⟩
    have sound := Schema.check_sound builder.schema (runs ▸ Schema.run_distinct declarations) checked
    exact ⟨Filter.document_knows _ sound id within, Projection.document_knows _ sound id within,
      Update.check_knows _ sound id within, Schema.calls_answered _ sound id within⟩

example : (Builder.run {} [
    .composite .object "Page",
    .enum "Page" ["FIRST"],
    .field ⟨0⟩ { name := "parent", type := .named (.composite .object ⟨0⟩) }]).build.isOk := by decide +kernel

end Builder

end DocGraph
