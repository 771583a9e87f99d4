import DocGraph.Proofs.Schema.Declarations

set_option autoImplicit false

namespace DocGraph

def FieldType.Declares (scalars : List String) (type : FieldType) : Prop :=
  ∀ name, type.innermost = .scalar (.custom name) → name ∈ scalars

namespace Schema

structure LeavesHave (holds : String → Prop) (schema : Schema) : Prop where
  enums : ∀ definition ∈ schema.enums, holds definition.name
  scalars : ∀ name ∈ schema.scalars, holds name

theorem add_composite_leaves (schema changed : Schema) (kind : CompositeKind) (name : String) (id : CompositeIndex)
    (added : schema.addComposite kind name = .ok (id, changed)) : SharesLeaves changed schema := by
  unfold addComposite at added
  split at added
  · cases Except.ok.inj added
    exact ⟨rfl, rfl⟩
  · split at added
    · cases Except.ok.inj added
      exact ⟨rfl, rfl⟩
    · cases added
  · cases added

theorem add_enum_leaves (holds : String → Prop) (schema changed : Schema) (name : String) (values : List String)
    (id : EnumIndex) (named : holds name) (before : LeavesHave holds schema)
    (added : schema.addEnum name values = .ok (id, changed)) : LeavesHave holds changed := by
  unfold addEnum at added
  split at added
  · cases Except.ok.inj added
    refine ⟨fun definition member => ?_, before.scalars⟩
    rcases List.mem_append.mp member with held | fresh
    · exact before.enums definition held
    · rw [List.mem_singleton.mp fresh]
      exact named
  · cases added

theorem add_scalar_leaves (holds : String → Prop) (schema changed : Schema) (name : String) (type : ScalarType)
    (named : holds name) (before : LeavesHave holds schema)
    (added : schema.addScalar name = .ok (type, changed)) : LeavesHave holds changed := by
  unfold addScalar at added
  split at added
  · cases Except.ok.inj added
    exact before
  · cases Except.ok.inj added
    refine ⟨before.enums, fun other member => ?_⟩
    rcases List.mem_append.mp member with held | fresh
    · exact before.scalars other held
    · rw [List.mem_singleton.mp fresh]
      exact named
  · cases Except.ok.inj added
    exact before
  · cases added

theorem set_enum_description_leaves (holds : String → Prop) (schema : Schema) (id : EnumIndex) (text : String)
    (before : LeavesHave holds schema) : LeavesHave holds (schema.setEnumDescription id text) := by
  refine ⟨fun definition member => ?_, before.scalars⟩
  obtain ⟨index, within, rfl⟩ := List.getElem_of_mem member
  simp only [setEnumDescription, List.length_modify] at within
  have held := before.enums schema.enums[index] (List.getElem_mem within)
  simp only [setEnumDescription, List.getElem_modify]
  split <;> exact held

theorem leaves_shared (holds : String → Prop) (schema changed : Schema) (shared : SharesLeaves changed schema)
    (before : LeavesHave holds schema) : LeavesHave holds changed :=
  ⟨shared.enums ▸ before.enums, shared.scalars ▸ before.scalars⟩

theorem declare_leaves (holds : String → Prop) (schema changed : Schema) (definition : GraphQL.TypeDefinition)
    (named : holds definition.name) (before : LeavesHave holds schema)
    (declared : schema.declare definition = .ok changed) : LeavesHave holds changed := by
  unfold declare at declared
  split at declared
  · obtain ⟨⟨id, held⟩, added, rfl⟩ := (except_map_ok _ _ _).mp declared
    exact leaves_shared holds schema held (add_composite_leaves schema held _ _ id added) before
  · obtain ⟨⟨id, held⟩, added, rfl⟩ := (except_map_ok _ _ _).mp declared
    exact leaves_shared holds schema held (add_composite_leaves schema held _ _ id added) before
  · obtain ⟨⟨id, held⟩, added, later⟩ := (except_bind_ok _ _ _).mp declared
    have enums := add_enum_leaves holds schema held _ _ id named before added
    cases Except.ok.inj later
    split
    · exact set_enum_description_leaves holds held id _ enums
    · exact enums
  · obtain ⟨⟨type, held⟩, added, rfl⟩ := (except_map_ok _ _ _).mp declared
    exact add_scalar_leaves holds schema held definition.name type named before added
  · cases Except.ok.inj declared
    exact before
  · cases Except.ok.inj declared
    exact before

theorem type_named_declares (schema : Schema) (name : String) (type : NamedType)
    (found : schema.typeNamed? name = some type) : (FieldType.named type).Declares schema.scalars := by
  intro custom same
  change type = .scalar (.custom custom) at same
  subst same
  unfold typeNamed? at found
  split at found
  · cases found
  · cases found
  · rename_i declared
    cases found
    unfold declared? at declared
    split at declared
    · rename_i composite
      cases declared
      obtain ⟨id, _, later⟩ := Option.bind_eq_some_iff.mp composite
      obtain ⟨_, _, other⟩ := Option.bind_eq_some_iff.mp later
      cases other
    · cases declared
    · split at declared
      · rename_i member
        simpa using member
      · cases declared
  · obtain ⟨builtin, held, same⟩ := Option.map_eq_some_iff.mp found
    cases same
    unfold ScalarType.builtin? at held
    split at held <;> cases held

theorem field_type_named (schema : Schema) (node : GraphQL.TypeNode) : ∀ type,
    schema.fieldTypeOf? node = .ok type → ∃ name, schema.typeNamed? name = some type.innermost := by
  induction node with
  | named name =>
      intro type read
      unfold fieldTypeOf? at read
      split at read
      · rename_i held found
        cases Except.ok.inj read
        exact ⟨name, found⟩
      · cases read
  | list of ih =>
      intro type read
      obtain ⟨inner, made, rfl⟩ := (except_map_ok _ _ _).mp read
      exact ih inner made
  | nonNull of ih =>
      intro type read
      obtain ⟨inner, made, rfl⟩ := (except_map_ok _ _ _).mp read
      exact ih inner made

theorem innermost_of_text (holds : NamedType → Prop) (text : String) (schema : Schema) (read : ofText text = .ok schema)
    (named : ∀ (held : Schema) name type, SharesLeaves held schema → held.typeNamed? name = some type → holds type) :
    ∀ composite ∈ schema.composites, ∀ field ∈ composite.fields, holds field.type.innermost := by
  refine fields_of_text (fun field => holds field.type.innermost) text schema read ?_
  intro held owner definition field same _ made
  obtain ⟨name, found⟩ := field_type_named held definition.type field.type (field_of_type held owner definition field made)
  exact named held name _ same found

structure HasLeaves (schema : Schema) : Prop where
  named : LeavesHave GraphQL.IsName schema
  declared : ∀ composite ∈ schema.composites, ∀ field ∈ composite.fields, field.type.Declares schema.scalars

theorem leaves_of_text (text : String) (schema : Schema) (read : ofText text = .ok schema) : schema.HasLeaves := by
  obtain ⟨definitions, built, proper⟩ := types_of_text text schema read
  constructor
  · obtain ⟨declared, declares, _, _, leaves⟩ := of_types_ok definitions schema built
    refine leaves_shared _ declared schema leaves ?_
    refine except_fold_keeps declare (LeavesHave GraphQL.IsName) definitions {} declared
      ⟨fun _ none => absurd none List.not_mem_nil, fun _ none => absurd none List.not_mem_nil⟩ ?_ declares
    intro definition member held next before step
    exact declare_leaves _ held next definition (proper definition member).1 before step
  · exact innermost_of_text (fun type => (FieldType.named type).Declares schema.scalars) text schema read
      (fun held name type same found => same.scalars ▸ type_named_declares held name type found)

def BuiltinApart (schema : Schema) (type : FieldType) : Prop :=
  ∀ scalar, type.innermost = .scalar scalar → scalar.isCustom = false →
    scalar.name ∉ schema.enums.map Enumeration.name ++ schema.scalars

theorem builtin_name (name : String) (scalar : ScalarType) (found : ScalarType.builtin? name = some scalar) :
    scalar.name = name := by
  have same := ScalarType.name_ofName name
  rw [ScalarType.ofName, found] at same
  exact same

theorem type_named_apart (schema : Schema) (name : String) (type : NamedType)
    (found : schema.typeNamed? name = some type) : schema.BuiltinApart (.named type) := by
  intro scalar same builtin
  change type = .scalar scalar at same
  subst same
  unfold typeNamed? at found
  split at found
  · cases found
  · cases found
  · cases found
    cases builtin
  · rename_i undeclared
    obtain ⟨held, known, same⟩ := Option.map_eq_some_iff.mp found
    cases same
    rw [builtin_name name scalar known]
    have free := name_free schema name undeclared
    rw [names, List.append_assoc, List.mem_append, not_or] at free
    exact free.2

theorem builtins_of_text (text : String) (schema : Schema) (read : ofText text = .ok schema) :
    ∀ composite ∈ schema.composites, ∀ field ∈ composite.fields, schema.BuiltinApart field.type :=
  innermost_of_text (fun type => schema.BuiltinApart (.named type)) text schema read
    (fun held name type same found => by
      have apart := type_named_apart held name type found
      rw [BuiltinApart, same.enums, same.scalars] at apart
      exact apart)

end Schema

end DocGraph
