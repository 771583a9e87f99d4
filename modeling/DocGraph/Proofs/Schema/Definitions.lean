import DocGraph.Proofs.Schema.Declarations

set_option autoImplicit false

namespace DocGraph

open GraphQL

def GraphQL.TypeBody.kind? : TypeBody → Option CompositeKind
  | .object _ _ => some .object
  | .interface _ _ => some .interface
  | _ => none

namespace Schema

def compositesOf (definitions : List TypeDefinition) : List (CompositeKind × TypeDefinition) :=
  definitions.filterMap (fun definition => definition.body.kind?.map (fun kind => (kind, definition)))

def enumOf? (definition : TypeDefinition) : Option Enumeration :=
  match definition.body with
  | .enum values => some ⟨definition.name, definition.description, values.map EnumValueDefinition.name⟩
  | _ => none

def scalarOf? (definition : TypeDefinition) : Option String :=
  match definition.body with
  | .scalar => if (ScalarType.builtin? definition.name).isNone then some definition.name else none
  | _ => none

def shellOf (defined : CompositeKind × TypeDefinition) : Composite := { name := defined.2.name, kind := defined.1 }

def fieldsOf (declared : Schema) (definition : TypeDefinition) : Except SchemaError (List Field) :=
  definition.body.fields.mapM (declared.fieldOf definition.name)

def readingOf (declared : Schema) (defined : CompositeKind × TypeDefinition) : Composite where
  name := defined.2.name
  kind := defined.1
  description := defined.2.description
  fields := (declared.fieldsOf defined.2).toOption.getD []

def Readable (declared : Schema) (definition : TypeDefinition) : Prop :=
  ∃ fields, declared.fieldsOf definition = .ok fields ∧ (fields.map Field.name).Nodup

theorem modify_middle {α : Type} (before : List α) (item : α) (after : List α) (change : α → α) :
    (before ++ item :: after).modify before.length change = before ++ change item :: after := by
  induction before with
  | nil => rfl
  | cons head rest ih => simp [ih]

theorem undeclared_of_free (schema : Schema) (name : String) (free : name ∉ schema.names) : schema.declared? name = none := by
  simp only [names, List.mem_append, List.mem_map, not_or, not_exists, not_and] at free
  have composites : schema.compositeNamed? name = none := by simpa [compositeNamed?] using free.1.1
  have enums : schema.enumNamed? name = none := by simpa [enumNamed?] using free.1.2
  simp [declared?, declaredComposite?, composites, enums, free.2]

theorem declare_fresh (schema : Schema) (definition : TypeDefinition) (free : definition.name ∉ schema.names) :
    schema.declare definition = .ok {
      composites := schema.composites ++ (compositesOf [definition]).map shellOf
      enums := schema.enums ++ [definition].filterMap enumOf?
      scalars := schema.scalars ++ [definition].filterMap scalarOf? } := by
  have undeclared := undeclared_of_free schema definition.name free
  unfold declare
  cases body : definition.body with
  | scalar =>
      cases builtin : ScalarType.builtin? definition.name <;>
        simp [addScalar, compositesOf, enumOf?, scalarOf?, TypeBody.kind?, body, builtin, undeclared, Functor.map, Except.map]
  | enum values =>
      cases text : definition.description <;>
        simp [addEnum, compositesOf, enumOf?, scalarOf?, TypeBody.kind?, body, undeclared, text, bind, Except.bind, pure,
          Except.pure, setEnumDescription, modify_middle]
  | _ => simp [addComposite, compositesOf, enumOf?, scalarOf?, TypeBody.kind?, shellOf, body, undeclared, Functor.map, Except.map]

def declaredBy (definitions : List TypeDefinition) : Schema where
  composites := (compositesOf definitions).map shellOf
  enums := definitions.filterMap enumOf?
  scalars := definitions.filterMap scalarOf?

theorem declared_by_names (definition : TypeDefinition) : ∀ name ∈ (declaredBy [definition]).names, name = definition.name := by
  intro name member
  cases body : definition.body with
  | scalar =>
      cases builtin : ScalarType.builtin? definition.name with
      | none => simpa [declaredBy, names, compositesOf, enumOf?, scalarOf?, TypeBody.kind?, body, builtin] using member
      | some held => simp [declaredBy, names, compositesOf, enumOf?, scalarOf?, TypeBody.kind?, body, builtin] at member
  | union _ => simp [declaredBy, names, compositesOf, enumOf?, scalarOf?, TypeBody.kind?, body] at member
  | input _ => simp [declaredBy, names, compositesOf, enumOf?, scalarOf?, TypeBody.kind?, body] at member
  | _ => simpa [declaredBy, names, compositesOf, enumOf?, scalarOf?, TypeBody.kind?, shellOf, body] using member

theorem declares_all (definitions : List TypeDefinition) (schema : Schema)
    (free : ∀ definition ∈ definitions, definition.name ∉ schema.names)
    (apart : (definitions.map TypeDefinition.name).Nodup) : definitions.foldlM declare schema = .ok {
      composites := schema.composites ++ (declaredBy definitions).composites
      enums := schema.enums ++ (declaredBy definitions).enums
      scalars := schema.scalars ++ (declaredBy definitions).scalars } := by
  induction definitions generalizing schema with
  | nil => simp [declaredBy, compositesOf, pure, Except.pure]
  | cons definition rest ih =>
      obtain ⟨other, others⟩ := List.nodup_cons.mp apart
      rw [List.foldlM_cons, declare_fresh schema definition (free definition (List.mem_cons_self ..))]
      -- What is declared by then are the names from before and the one of the definition.
      refine (ih _ ?_ others).trans ?_
      · intro next member taken
        have known : next.name ∈ schema.names ∨ next.name ∈ (declaredBy [definition]).names := by
          simp only [names, declaredBy, List.map_append, List.mem_append] at taken ⊢
          grind
        rcases known with before | own
        · exact free next (List.mem_cons_of_mem definition member) before
        · exact other (declared_by_names definition _ own ▸ List.mem_map_of_mem member)
      · have join : definition :: rest = [definition] ++ rest := rfl
        simp only [declaredBy, compositesOf, join, List.filterMap_append, List.map_append, List.append_assoc]

structure SameTypes (schema other : Schema) : Prop where
  composites : schema.composites.map (fun composite => (composite.name, composite.kind)) =
    other.composites.map (fun composite => (composite.name, composite.kind))
  leaves : SharesLeaves schema other

theorem same_type_named (schema other : Schema) (same : SameTypes schema other) (name : String) :
    schema.typeNamed? name = other.typeNamed? name := by
  have looked (held : Schema) : held.compositeNamed? name =
      ((held.composites.map (fun composite => (composite.name, composite.kind))).findIdx?
        (fun known => known.1 == name)).map CompositeIndex.mk := by
    rw [List.findIdx?_map]
    rfl
  have kinds (held : Schema) (id : CompositeIndex) : held.composites[id.index]?.map Composite.kind =
      (held.composites.map (fun composite => (composite.name, composite.kind)))[id.index]?.map Prod.snd := by
    rw [List.getElem?_map, Option.map_map]
    rfl
  have declared (held : Schema) : held.declaredComposite? name = (held.compositeNamed? name).bind (fun id =>
      (held.composites[id.index]?.map Composite.kind).map (Declared.composite · id)) := by
    unfold declaredComposite?
    cases held.compositeNamed? name with
    | none => rfl
    | some id => cases found : held.composites[id.index]? <;> simp [found]
  unfold typeNamed? declared? enumNamed?
  simp only [declared, looked, kinds, same.composites, same.leaves.enums, same.leaves.scalars]

theorem same_field (schema other : Schema) (same : SameTypes schema other) (owner : String) (definition : FieldDefinition) :
    schema.fieldOf owner definition = other.fieldOf owner definition := by
  have types (node : TypeNode) : schema.fieldTypeOf? node = other.fieldTypeOf? node := by
    induction node with
    | named name => rw [fieldTypeOf?, fieldTypeOf?, same_type_named schema other same]
    | list of ih => rw [fieldTypeOf?, fieldTypeOf?, ih]
    | nonNull of ih => rw [fieldTypeOf?, fieldTypeOf?, ih]
  rw [fieldOf, fieldOf, types]

theorem same_refers (schema other : Schema) (same : SameTypes schema other) (type : FieldType) (refers : type.Refers schema) :
    type.Refers other := by
  unfold FieldType.Refers at refers ⊢
  generalize type.innermost = innermost at refers ⊢
  cases innermost with
  | scalar scalar => trivial
  | enum id => exact same.leaves.enums ▸ refers
  | composite kind id =>
      obtain ⟨target, found, kinds⟩ := refers
      have there := congrArg (·[id.index]?) same.composites
      simp only [List.getElem?_map, found, Option.map_some] at there
      obtain ⟨held, listed, alike⟩ := Option.map_eq_some_iff.mp there.symm
      exact ⟨held, listed, (congrArg Prod.snd alike).trans kinds⟩

theorem add_field_middle (schema : Schema) (before after : List Composite) (composite : Composite)
    (listed : schema.composites = before ++ composite :: after) (field : Field) :
    schema.addField ⟨before.length⟩ field =
      if field.name ∈ composite.fields.map Field.name then .error (.duplicateField composite.name field.name)
      else .ok { schema with
        composites := before ++ { composite with fields := composite.fields ++ [field] } :: after } := by
  unfold addField
  rw [listed, List.getElem?_append_right (Nat.le_refl _), Nat.sub_self]
  cases taken : composite.field? field.name with
  | some held =>
      obtain ⟨named, member⟩ := Composite.name_of_field?_eq_some taken
      have known : field.name ∈ composite.fields.map Field.name := named ▸ List.mem_map_of_mem member
      simp only [List.getElem?_cons_zero, taken, if_pos known]
  | none =>
      have fresh : field.name ∉ composite.fields.map Field.name := by simpa [Composite.field?] using taken
      simp [taken, fresh]

theorem fields_added (declared : Schema) (owner : String) (before after : List Composite)
    (definitions : List FieldDefinition) (schema changed : Schema) (composite : Composite)
    (listed : schema.composites = before ++ composite :: after) (same : SameTypes schema declared)
    (distinct : (composite.fields.map Field.name).Nodup) :
    definitions.foldlM (fun schema definition => do
      schema.addField ⟨before.length⟩ (← schema.fieldOf owner definition)) schema = .ok changed ↔
      ∃ fields, definitions.mapM (declared.fieldOf owner) = .ok fields ∧
        ((composite.fields ++ fields).map Field.name).Nodup ∧ changed = { schema with
          composites := before ++ { composite with fields := composite.fields ++ fields } :: after } := by
  induction definitions generalizing schema composite with
  | nil =>
      simp only [List.foldlM_nil, List.mapM_nil, pure, Except.pure, Except.ok.injEq, exists_eq_left', List.append_nil,
        distinct, true_and, ← listed]
      exact eq_comm
  | cons definition rest ih =>
      rw [List.foldlM_cons, same_field schema declared same]
      simp only [except_map_list_cons]
      cases declared.fieldOf owner definition with
      | error error => exact ⟨nofun, nofun⟩
      | ok field =>
          simp only [Except.ok.injEq, exists_eq_left']
          change schema.addField ⟨before.length⟩ field >>= _ = _ ↔ _
          rw [add_field_middle schema before after composite listed field]
          by_cases taken : field.name ∈ composite.fields.map Field.name
          · rw [if_pos taken]
            refine ⟨nofun, ?_⟩
            rintro ⟨_, ⟨fields, _, rfl⟩, apart, _⟩
            rw [List.map_append] at apart
            exact absurd rfl ((List.nodup_append.mp apart).2.2 field.name taken field.name (List.mem_cons_self ..))
          · have kinds : SameTypes { schema with
                composites := before ++ { composite with fields := composite.fields ++ [field] } :: after } declared := by
              refine ⟨?_, same.leaves.enums, same.leaves.scalars⟩
              rw [← same.composites, listed]
              simp
            rw [if_neg taken]
            refine (ih _ _ rfl kinds (distinct_extends field composite.fields distinct taken)).trans ?_
            simp

def fill (declared : Schema) (composite : Composite) (definition : TypeDefinition) : Composite where
  name := composite.name
  kind := composite.kind
  description := definition.description.or composite.description
  fields := composite.fields ++ (declared.fieldsOf definition).toOption.getD []

theorem members_added (declared schema changed : Schema) (before after : List Composite) (composite : Composite)
    (definition : TypeDefinition) (defines : definition.body.kind?.isSome) (named : composite.name = definition.name)
    (listed : schema.composites = before ++ composite :: after) (same : SameTypes schema declared)
    (fresh : definition.name ∉ before.map Composite.name) (distinct : (composite.fields.map Field.name).Nodup) :
    schema.addMembers definition = .ok changed ↔ (∃ fields, declared.fieldsOf definition = .ok fields) ∧
      ((fill declared composite definition).fields.map Field.name).Nodup ∧
      changed = { schema with composites := before ++ fill declared composite definition :: after } := by
  have found : schema.compositeNamed? definition.name = some ⟨before.length⟩ := by
    have none : before.findIdx? (fun composite => composite.name == definition.name) = none := by simpa using fresh
    simp [compositeNamed?, listed, List.findIdx?_append, none, List.findIdx?_cons, named]
  -- The composite is described first, if the definition has a description.
  let known : Composite := { composite with description := definition.description.or composite.description }
  let described : Schema := { schema with composites := before ++ known :: after }
  have opened : schema.addMembers definition = definition.body.fields.foldlM (fun schema field => do
      schema.addField ⟨before.length⟩ (← schema.fieldOf definition.name field)) described := by
    unfold addMembers
    rw [found]
    cases body : definition.body with
    | object interfaces fields | interface interfaces fields =>
        refine congrArg (fields.foldlM _) ?_
        cases text : definition.description with
        | none => simp [described, known, text, ← listed]
        | some text' => simp [described, known, text, setDescription, listed, modify_middle]
    | _ => simp [TypeBody.kind?, body] at defines
  have kinds : SameTypes described declared := by
    refine ⟨?_, same.leaves.enums, same.leaves.scalars⟩
    rw [← same.composites, listed]
    simp [described, known]
  rw [opened]
  refine (fields_added declared definition.name before after definition.body.fields described changed known rfl kinds
    distinct).trans ?_
  have filled (fields : List Field) (reads : declared.fieldsOf definition = .ok fields) :
      fill declared composite definition = { known with fields := known.fields ++ fields } := by
    simp [fill, known, reads, Except.toOption]
  constructor
  · rintro ⟨fields, reads, apart, rfl⟩
    rw [filled fields reads]
    exact ⟨⟨fields, reads⟩, apart, rfl⟩
  · rintro ⟨⟨fields, reads⟩, apart, rfl⟩
    rw [filled fields reads] at apart ⊢
    exact ⟨fields, reads, apart, rfl⟩

theorem other_members (schema : Schema) (definition : TypeDefinition) (other : definition.body.kind? = none) :
    schema.addMembers definition = .ok schema := by
  unfold addMembers
  cases body : definition.body with
  | object _ _ => simp [TypeBody.kind?, body] at other
  | interface _ _ => simp [TypeBody.kind?, body] at other
  | _ => rfl

theorem all_members_added (declared : Schema) (definitions : List TypeDefinition) (schema changed : Schema)
    (before : List Composite) (listed : schema.composites = before ++ (compositesOf definitions).map shellOf)
    (same : SameTypes schema declared)
    (apart : (before.map Composite.name ++ definitions.map TypeDefinition.name).Nodup) :
    definitions.foldlM addMembers schema = .ok changed ↔ (∀ defined ∈ compositesOf definitions, Readable declared defined.2) ∧
      changed = { schema with composites := before ++ (compositesOf definitions).map (readingOf declared) } := by
  induction definitions generalizing schema before with
  | nil =>
      simp only [compositesOf, List.filterMap_nil, List.map_nil, List.append_nil] at listed
      simp [compositesOf, pure, Except.pure, ← listed, eq_comm]
  | cons definition rest ih =>
      rw [List.foldlM_cons]
      cases defines : definition.body.kind? with
      | none =>
          have skipped : compositesOf (definition :: rest) = compositesOf rest := by simp [compositesOf, defines]
          rw [other_members schema definition defines, skipped]
          rw [skipped] at listed
          exact ih schema before listed same (apart.sublist ((List.sublist_cons_self ..).append_left _))
      | some kind =>
          have split : compositesOf (definition :: rest) = (kind, definition) :: compositesOf rest := by
            simp [compositesOf, defines]
          rw [split, List.map_cons] at listed
          rw [split, List.forall_mem_cons, List.map_cons, except_bind_ok]
          have fresh : definition.name ∉ before.map Composite.name := fun held =>
            (List.nodup_append.mp apart).2.2 _ held _ (List.mem_cons_self ..) rfl
          have one (next : Schema) : schema.addMembers definition = .ok next ↔ Readable declared definition ∧ next =
              { schema with composites := before ++ readingOf declared (kind, definition) :: (compositesOf rest).map shellOf } := by
            have empty : fill declared (shellOf (kind, definition)) definition = readingOf declared (kind, definition) := by
              simp [fill, readingOf, shellOf]
            rw [members_added declared schema next before _ _ definition (by simp [defines]) rfl listed same fresh List.nodup_nil,
              empty, ← and_assoc]
            refine and_congr_left' ⟨?_, ?_⟩
            · rintro ⟨⟨fields, reads⟩, apart⟩
              exact ⟨fields, reads, by simpa [readingOf, reads, Except.toOption] using apart⟩
            · rintro ⟨fields, reads, apart⟩
              exact ⟨⟨fields, reads⟩, by simpa [readingOf, reads, Except.toOption] using apart⟩
          let filled : Schema := { schema with
            composites := before ++ readingOf declared (kind, definition) :: (compositesOf rest).map shellOf }
          have kinds : SameTypes filled declared := by
            refine ⟨?_, same.leaves.enums, same.leaves.scalars⟩
            rw [← same.composites, listed]
            simp [filled, readingOf, shellOf]
          have others := ih filled (before ++ [readingOf declared (kind, definition)]) (by simp [filled]) kinds
            (by simpa [readingOf] using apart)
          simp only [List.append_assoc, List.singleton_append] at others
          constructor
          · rintro ⟨next, added, later⟩
            obtain ⟨readable, rfl⟩ := (one next).mp added
            obtain ⟨readables, final⟩ := others.mp later
            exact ⟨⟨readable, readables⟩, final⟩
          · rintro ⟨⟨readable, readables⟩, final⟩
            exact ⟨filled, (one filled).mpr ⟨readable, rfl⟩, others.mpr ⟨readables, final⟩⟩

def readBy (definitions : List TypeDefinition) : Schema :=
  { declaredBy definitions with composites := (compositesOf definitions).map (readingOf (declaredBy definitions)) }

theorem of_types_apart (definitions : List TypeDefinition) (apart : (definitions.map TypeDefinition.name).Nodup)
    (schema : Schema) : ofTypes definitions = .ok schema ↔
      (∀ defined ∈ compositesOf definitions, Readable (declaredBy definitions) defined.2) ∧
        schema = readBy definitions ∧ schema.check = .ok () := by
  have declares := declares_all definitions {} (fun _ _ => List.not_mem_nil) apart
  simp only [List.nil_append] at declares
  have fills (changed : Schema) := all_members_added (declaredBy definitions) definitions (declaredBy definitions) changed []
    rfl ⟨rfl, rfl, rfl⟩ apart
  simp only [List.nil_append] at fills
  unfold ofTypes
  rw [declares]
  simp only [except_bind_ok, Except.ok.injEq, exists_eq_left']
  constructor
  · rintro ⟨filled, added, _, checked, same⟩
    cases Except.ok.inj same
    exact ⟨((fills schema).mp added).1, ((fills schema).mp added).2, checked⟩
  · rintro ⟨readable, same, checked⟩
    exact ⟨schema, (fills schema).mpr ⟨readable, same⟩, (), checked, rfl⟩

end Schema

end DocGraph
