import DocGraph.Proofs.GraphQL.Names
import DocGraph.Proofs.Outcome
import DocGraph.Proofs.Schema.Lookup
import DocGraph.Schema.OfText

set_option autoImplicit false

namespace DocGraph

def FieldType.Refers (schema : Schema) (type : FieldType) : Prop :=
  match type.innermost with
  | .scalar _ => True
  | .enum id => id.index < schema.enums.length
  | .composite kind id => ∃ target, schema.composites[id.index]? = some target ∧ target.kind = kind

def FieldType.MarkedOnce : FieldType → Prop
  | .named _ => True
  | .list of => of.MarkedOnce
  | .nonNull of => of.MarkedOnce ∧ ∀ inner, of ≠ .nonNull inner

namespace Schema

def FieldsDistinct (schema : Schema) : Prop :=
  ∀ composite ∈ schema.composites, (composite.fields.map Field.name).Nodup

structure Sound (schema : Schema) : Prop where
  distinct : schema.FieldsDistinct
  given : ∀ composite ∈ schema.composites, composite.fields ≠ []
  refers : ∀ composite ∈ schema.composites, ∀ field ∈ composite.fields, field.type.Refers schema

theorem check_field_ok (schema : Schema) (owner : Composite) (field : Field) :
    schema.checkField owner field = .ok () ↔ field.type.Refers schema := by
  unfold checkField FieldType.Refers
  cases field.type.innermost with
  | scalar scalar => simp
  | enum id => by_cases within : id.index < schema.enums.length <;> simp [within]
  | composite kind id =>
      cases found : schema.composites[id.index]? with
      | none => simp [found]
      | some target => by_cases same : target.kind = kind <;> simp [found, same]

theorem check_composite_ok (schema : Schema) (composite : Composite) :
    schema.checkComposite composite = .ok () ↔
      composite.fields ≠ [] ∧ ∀ field ∈ composite.fields, field.type.Refers schema := by
  unfold checkComposite
  cases fields : composite.fields with
  | nil => simp
  | cons first rest =>
      rw [List.isEmpty_cons, if_neg Bool.false_ne_true, except_for_ok]
      simp only [check_field_ok, ne_eq, reduceCtorEq, not_false_eq_true, true_and]

theorem check_ok (schema : Schema) : schema.check = .ok () ↔ ∀ composite ∈ schema.composites,
    composite.fields ≠ [] ∧ ∀ field ∈ composite.fields, field.type.Refers schema := by
  simp only [check, except_for_ok, check_composite_ok]

theorem check_sound (schema : Schema) (distinct : schema.FieldsDistinct) (checked : schema.check = .ok ()) :
    schema.Sound :=
  have filled := (check_ok schema).mp checked
  ⟨distinct, fun composite member => (filled composite member).1, fun composite member => (filled composite member).2⟩

def FieldsHave (holds : List Field → Prop) (schema : Schema) : Prop :=
  ∀ composite ∈ schema.composites, holds composite.fields

theorem have_of_fields (holds : List Field → Prop) (schema changed : Schema) (empty : holds [])
    (before : FieldsHave holds schema) (fields : ∀ composite ∈ changed.composites, composite.fields = [] ∨
      ∃ held ∈ schema.composites, held.fields = composite.fields) : FieldsHave holds changed := by
  intro composite member
  rcases fields composite member with none | ⟨held, listed, same⟩
  · rw [none]
    exact empty
  · rw [← same]
    exact before held listed

theorem set_description_fields (schema : Schema) (id : CompositeIndex) (text : String) (composite : Composite)
    (member : composite ∈ (schema.setDescription id text).composites) :
    ∃ held ∈ schema.composites, held.fields = composite.fields := by
  obtain ⟨index, within, rfl⟩ := List.getElem_of_mem member
  simp only [setDescription, List.length_modify] at within
  refine ⟨schema.composites[index], List.getElem_mem within, ?_⟩
  simp only [setDescription, List.getElem_modify]
  split <;> rfl

theorem add_composite_keeps (holds : List Field → Prop) (schema changed : Schema) (kind : CompositeKind)
    (name : String) (id : CompositeIndex) (empty : holds []) (before : FieldsHave holds schema)
    (added : schema.addComposite kind name = .ok (id, changed)) : FieldsHave holds changed := by
  unfold addComposite at added
  split at added
  · cases Except.ok.inj added
    refine have_of_fields holds schema _ empty before ?_
    intro composite member
    rcases List.mem_append.mp member with held | fresh
    · exact .inr ⟨composite, held, rfl⟩
    · rw [List.mem_singleton.mp fresh]
      exact .inl rfl
  · split at added
    · cases Except.ok.inj added
      exact before
    · cases added
  · cases added

theorem add_enum_composites (schema changed : Schema) (name : String) (values : List String) (id : EnumIndex)
    (added : schema.addEnum name values = .ok (id, changed)) : changed.composites = schema.composites := by
  unfold addEnum at added
  split at added
  · cases Except.ok.inj added
    rfl
  · cases added

theorem add_scalar_composites (schema changed : Schema) (name : String) (type : ScalarType)
    (added : schema.addScalar name = .ok (type, changed)) : changed.composites = schema.composites := by
  unfold addScalar at added
  split at added
  all_goals first
    | (cases Except.ok.inj added; rfl)
    | cases added

theorem declare_keeps (holds : List Field → Prop) (schema changed : Schema) (definition : GraphQL.TypeDefinition)
    (empty : holds []) (before : FieldsHave holds schema) (declared : schema.declare definition = .ok changed) :
    FieldsHave holds changed := by
  unfold declare at declared
  split at declared
  · obtain ⟨⟨id, held⟩, added, rfl⟩ := (except_map_ok _ _ _).mp declared
    exact add_composite_keeps holds schema held .object definition.name id empty before added
  · obtain ⟨⟨id, held⟩, added, rfl⟩ := (except_map_ok _ _ _).mp declared
    exact add_composite_keeps holds schema held .interface definition.name id empty before added
  · obtain ⟨⟨id, held⟩, added, later⟩ := (except_bind_ok _ _ _).mp declared
    have same := add_enum_composites schema held _ _ id added
    have kept : changed.composites = schema.composites := by
      cases Except.ok.inj later
      split <;> exact same
    exact fun composite member => before composite (kept ▸ member)
  · obtain ⟨⟨type, held⟩, added, rfl⟩ := (except_map_ok _ _ _).mp declared
    have same := add_scalar_composites schema held definition.name type added
    exact fun composite member => before composite (same ▸ member)
  · cases Except.ok.inj declared
    exact before
  · cases Except.ok.inj declared
    exact before

def Extends (holds : List Field → Prop) (field : Field) : Prop :=
  ∀ fields, holds fields → field.name ∉ fields.map Field.name → holds (fields ++ [field])

theorem add_field_keeps (holds : List Field → Prop) (schema changed : Schema) (owner : CompositeIndex)
    (field : Field) (extended : Extends holds field) (before : FieldsHave holds schema)
    (added : schema.addField owner field = .ok changed) : FieldsHave holds changed := by
  unfold addField at added
  split at added
  · cases added
  · rename_i composite found
    split at added
    · cases added
    · rename_i fresh
      cases Except.ok.inj added
      intro other member
      rcases List.mem_or_eq_of_mem_set member with held | rfl
      · exact before other held
      · refine extended composite.fields (before composite (List.mem_of_getElem? found)) ?_
        intro taken
        obtain ⟨held, listed, same⟩ := List.mem_map.mp taken
        have missing := List.find?_eq_none.mp fresh held listed
        simp [same] at missing

theorem field_of_name (schema : Schema) (owner : String) (definition : GraphQL.FieldDefinition) (field : Field)
    (read : schema.fieldOf owner definition = .ok field) : field.name = definition.name := by
  obtain ⟨type, _, later⟩ := (except_bind_ok _ _ _).mp read
  obtain ⟨origin, _, same⟩ := (except_bind_ok _ _ _).mp later
  cases Except.ok.inj same
  rfl

theorem field_of_type (schema : Schema) (owner : String) (definition : GraphQL.FieldDefinition) (field : Field)
    (read : schema.fieldOf owner definition = .ok field) : schema.fieldTypeOf? definition.type = .ok field.type := by
  obtain ⟨type, made, later⟩ := (except_bind_ok _ _ _).mp read
  obtain ⟨origin, _, same⟩ := (except_bind_ok _ _ _).mp later
  cases Except.ok.inj same
  exact (except_map_error_ok _ _ _).mp made

structure SharesLeaves (schema other : Schema) : Prop where
  enums : schema.enums = other.enums
  scalars : schema.scalars = other.scalars

theorem shares_leaves_trans (first second third : Schema) (left : SharesLeaves first second)
    (right : SharesLeaves second third) : SharesLeaves first third :=
  ⟨left.enums.trans right.enums, left.scalars.trans right.scalars⟩

def ReadsExtend (holds : List Field → Prop) (declared : Schema) (definitions : List GraphQL.FieldDefinition) : Prop :=
  ∀ definition ∈ definitions, ∀ (schema : Schema) (owner : String) (field : Field), SharesLeaves schema declared →
    schema.fieldOf owner definition = .ok field → Extends holds field

theorem add_members_invariant (invariant : Schema → Prop) (schema changed : Schema)
    (definition : GraphQL.TypeDefinition) (before : invariant schema)
    (describes : ∀ id text, invariant (schema.setDescription id text))
    (adds : ∀ field ∈ definition.body.fields, ∀ held id read next, invariant held →
      held.fieldOf definition.name field = .ok read → held.addField id read = .ok next → invariant next)
    (added : schema.addMembers definition = .ok changed) : invariant changed := by
  have fold (id : CompositeIndex) (fields : List GraphQL.FieldDefinition) (listed : definition.body.fields = fields)
      (start : Schema) (begun : invariant start)
      (folded : fields.foldlM (fun schema field => do
        schema.addField id (← schema.fieldOf definition.name field)) start = .ok changed) : invariant changed := by
    refine except_fold_keeps _ invariant fields start changed begun ?_ folded
    intro field member held next kept step
    obtain ⟨read, made, later⟩ := (except_bind_ok _ _ _).mp step
    exact adds field (listed ▸ member) held id read next kept made later
  unfold addMembers at added
  split at added
  · rename_i interfaces fields id body _
    refine fold id fields (by rw [body]; rfl) _ ?_ added
    split
    · exact describes _ _
    · exact before
  · rename_i interfaces fields id body _
    refine fold id fields (by rw [body]; rfl) _ ?_ added
    split
    · exact describes _ _
    · exact before
  · exact Except.ok.inj added ▸ before

theorem add_field_leaves (schema changed : Schema) (owner : CompositeIndex) (field : Field)
    (added : schema.addField owner field = .ok changed) : SharesLeaves changed schema := by
  unfold addField at added
  split at added
  · cases added
  · split at added
    · cases added
    · cases Except.ok.inj added
      exact ⟨rfl, rfl⟩

theorem add_members_leaves (declared schema changed : Schema) (definition : GraphQL.TypeDefinition)
    (before : SharesLeaves schema declared) (added : schema.addMembers definition = .ok changed) :
    SharesLeaves changed declared := by
  refine add_members_invariant (fun held => SharesLeaves held declared) schema changed definition before
    (fun _ _ => ⟨before.enums, before.scalars⟩) ?_ added
  intro field _ held id read next kept _ step
  exact shares_leaves_trans next held declared (add_field_leaves held next id read step) kept

theorem add_members_keeps (holds : List Field → Prop) (schema changed : Schema)
    (definition : GraphQL.TypeDefinition) (empty : holds [])
    (reads : ReadsExtend holds schema definition.body.fields)
    (before : FieldsHave holds schema) (added : schema.addMembers definition = .ok changed) :
    FieldsHave holds changed := by
  refine (add_members_invariant (fun held => FieldsHave holds held ∧ SharesLeaves held schema) schema changed
    definition ⟨before, rfl, rfl⟩ ?_ ?_ added).1
  · intro id text
    exact ⟨have_of_fields holds schema _ empty before
      (fun composite member => .inr (set_description_fields schema id text composite member)), rfl, rfl⟩
  · intro field member held id read next kept made step
    exact ⟨add_field_keeps holds held next id read (reads field member held _ read kept.2 made) kept.1 step,
      shares_leaves_trans next held schema (add_field_leaves held next id read step) kept.2⟩

theorem of_types_ok (definitions : List GraphQL.TypeDefinition) (schema : Schema)
    (read : ofTypes definitions = .ok schema) : ∃ declared, definitions.foldlM declare {} = .ok declared ∧
      definitions.foldlM addMembers declared = .ok schema ∧ schema.check = .ok () ∧ SharesLeaves schema declared := by
  obtain ⟨declared, declares, later⟩ := (except_bind_ok _ _ _).mp read
  obtain ⟨filled, fills, last⟩ := (except_bind_ok _ _ _).mp later
  obtain ⟨_, checked, same⟩ := (except_bind_ok _ _ _).mp last
  cases Except.ok.inj same
  refine ⟨declared, declares, fills, checked, ?_⟩
  exact except_fold_keeps addMembers (fun held => SharesLeaves held declared) definitions declared schema ⟨rfl, rfl⟩
    (fun definition _ held next kept => add_members_leaves declared held next definition kept) fills

theorem of_types_keeps (holds : List Field → Prop) (definitions : List GraphQL.TypeDefinition) (schema : Schema)
    (empty : holds [])
    (reads : ∀ definition ∈ definitions, ReadsExtend holds schema definition.body.fields)
    (read : ofTypes definitions = .ok schema) : FieldsHave holds schema := by
  obtain ⟨declared, declares, fills, _, leaves⟩ := of_types_ok definitions schema read
  have none : FieldsHave holds {} := fun _ member => absurd member List.not_mem_nil
  have named : FieldsHave holds declared := except_fold_keeps declare (FieldsHave holds) definitions {} declared none
    (fun definition _ held next before => declare_keeps holds held next definition empty before) declares
  refine (except_fold_keeps addMembers (fun held => FieldsHave holds held ∧ SharesLeaves held declared) definitions declared
    schema ⟨named, rfl, rfl⟩ ?_ fills).1
  intro definition member held next before step
  have same : SharesLeaves held schema := shares_leaves_trans held declared schema before.2 ⟨leaves.enums.symm, leaves.scalars.symm⟩
  have extended : ReadsExtend holds held definition.body.fields := fun field listed reader owner read shares =>
    reads definition member field listed reader owner read (shares_leaves_trans reader held schema shares same)
  exact ⟨add_members_keeps holds held next definition empty extended before.1 step,
    add_members_leaves declared held next definition before.2 step⟩

theorem distinct_extends (field : Field) : Extends (fun fields => (fields.map Field.name).Nodup) field := by
  intro fields distinct fresh
  have names : (fields.map Field.name ++ [field.name]).Nodup := by
    rw [List.nodup_append]
    refine ⟨distinct, by simp, ?_⟩
    intro name held other single same
    exact fresh (List.mem_singleton.mp single ▸ same ▸ held)
  simpa using names

theorem sound_of_types (definitions : List GraphQL.TypeDefinition) (schema : Schema)
    (read : ofTypes definitions = .ok schema) : schema.Sound := by
  obtain ⟨_, _, _, checked, _⟩ := of_types_ok definitions schema read
  exact check_sound schema (of_types_keeps (fun fields => (fields.map Field.name).Nodup) definitions schema .nil
    (fun _ _ _ _ _ _ field _ _ => distinct_extends field) read) checked

theorem of_text_ok (text : String) (schema : Schema) (read : ofText text = .ok schema) :
    ∃ definitions, GraphQL.definitionsOfText? text = some definitions ∧ ofDefinitions definitions = .ok schema := by
  unfold ofText at read
  split at read
  · cases read
  · rename_i definitions found
    exact ⟨definitions, found, (except_map_error_ok _ _ _).mp read⟩

theorem sound_of_text (text : String) (schema : Schema) (read : ofText text = .ok schema) : schema.Sound := by
  obtain ⟨definitions, _, built⟩ := of_text_ok text schema read
  exact sound_of_types _ schema built

theorem types_of_text (text : String) (schema : Schema) (read : ofText text = .ok schema) :
    ∃ definitions : List GraphQL.TypeDefinition, ofTypes definitions = .ok schema ∧
      ∀ definition ∈ definitions, GraphQL.IsName definition.name ∧ definition.body.Proper := by
  obtain ⟨definitions, found, built⟩ := of_text_ok text schema read
  refine ⟨_, built, fun definition member => ?_⟩
  obtain ⟨whole, among, here⟩ := List.mem_filterMap.mp member
  have named := GraphQL.definitions_named text definitions found whole among
  have proper := GraphQL.definitions_proper text definitions found whole among
  cases whole with
  | type _ =>
      cases here
      exact ⟨named, proper⟩
  | _ => cases here

theorem fields_of_text (holds : Field → Prop) (text : String) (schema : Schema) (read : ofText text = .ok schema)
    (each : ∀ (held : Schema) (owner : String) (definition : GraphQL.FieldDefinition) (field : Field),
      SharesLeaves held schema → definition.Proper → held.fieldOf owner definition = .ok field → holds field) :
    ∀ composite ∈ schema.composites, ∀ field ∈ composite.fields, holds field := by
  obtain ⟨definitions, built, proper⟩ := types_of_text text schema read
  refine of_types_keeps (fun fields => ∀ field ∈ fields, holds field) definitions schema (by simp) ?_ built
  intro type member definition listed held owner field same made fields before _ other inside
  rcases List.mem_append.mp inside with earlier | single
  · exact before other earlier
  · have fine := (proper type member).2.fields definition listed
    exact List.mem_singleton.mp single ▸ each held owner definition field same fine made

theorem field_type_marked (schema : Schema) (node : GraphQL.TypeNode) (proper : node.Proper) :
    ∀ type, schema.fieldTypeOf? node = .ok type →
      type.MarkedOnce ∧ ∀ inner, type = .nonNull inner → ∃ of, node = .nonNull of := by
  induction node with
  | named name =>
      intro type read
      unfold fieldTypeOf? at read
      split at read
      · cases Except.ok.inj read
        exact ⟨trivial, nofun⟩
      · cases read
  | list of ih =>
      intro type read
      obtain ⟨inner, made, rfl⟩ := (except_map_ok _ _ _).mp read
      exact ⟨(ih proper inner made).1, nofun⟩
  | nonNull of ih =>
      intro type read
      obtain ⟨inner, made, rfl⟩ := (except_map_ok _ _ _).mp read
      obtain ⟨once, marked⟩ := ih proper.1 inner made
      refine ⟨⟨once, fun innermost double => ?_⟩, fun _ _ => ⟨of, rfl⟩⟩
      obtain ⟨again, twice⟩ := marked innermost double
      exact proper.2 again twice

theorem marks_of_text (text : String) (schema : Schema) (read : ofText text = .ok schema) :
    ∀ composite ∈ schema.composites, ∀ field ∈ composite.fields, field.type.MarkedOnce := by
  refine fields_of_text (fun field => field.type.MarkedOnce) text schema read ?_
  intro held owner definition field _ proper made
  exact (field_type_marked held definition.type proper.typed field.type (field_of_type held owner definition field made)).1

theorem marked_of_text (text : String) (schema : Schema) (read : ofText text = .ok schema) :
    ∀ composite ∈ schema.composites, ∀ field ∈ composite.fields, ∀ of, field.type ≠ .nonNull (.nonNull of) := by
  intro composite listed field member of double
  have once := marks_of_text text schema read composite listed field member
  rw [double] at once
  exact once.2 of rfl

end Schema

end DocGraph
