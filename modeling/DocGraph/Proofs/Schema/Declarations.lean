import DocGraph.Proofs.Schema.Sound
import DocGraph.Schema.Declaration

set_option autoImplicit false

namespace DocGraph.Schema

def names (schema : Schema) : List String :=
  schema.composites.map Composite.name ++ schema.enums.map Enumeration.name ++ schema.scalars

def NamesApart (schema : Schema) : Prop := schema.names.Nodup

def NamesGrow (before after : Schema) : Prop :=
  after.names = before.names ∨ ∃ name, name ∉ before.names ∧ after.names.Perm (name :: before.names)

theorem names_grow_apart (before after : Schema) (grow : NamesGrow before after) (apart : before.NamesApart) :
    after.NamesApart := by
  rcases grow with same | ⟨name, free, perm⟩
  · exact (congrArg List.Nodup same).mpr apart
  · exact perm.nodup_iff.mpr (List.nodup_cons.mpr ⟨free, apart⟩)

theorem composite_named_found (schema : Schema) (name : String) (id : CompositeIndex)
    (named : schema.compositeNamed? name = some id) :
    ∃ composite, schema.composites[id.index]? = some composite ∧ composite.name = name := by
  obtain ⟨index, found, rfl⟩ := Option.map_eq_some_iff.mp named
  obtain ⟨within, here, _⟩ := List.findIdx?_eq_some_iff_getElem.mp found
  exact ⟨_, List.getElem?_eq_getElem within, by simpa using here⟩

theorem name_free (schema : Schema) (name : String) (undeclared : schema.declared? name = none) : name ∉ schema.names := by
  unfold declared? at undeclared
  split at undeclared
  · cases undeclared
  · cases undeclared
  · rename_i noComposite noEnum
    have composites : ∀ composite ∈ schema.composites, composite.name ≠ name := by
      cases named : schema.compositeNamed? name with
      | none => simpa [compositeNamed?] using named
      | some id =>
          obtain ⟨composite, found, _⟩ := composite_named_found schema name id named
          simp [declaredComposite?, named, found] at noComposite
    have enums : ∀ definition ∈ schema.enums, definition.name ≠ name := by simpa [enumNamed?] using noEnum
    have scalars : name ∉ schema.scalars := by
      intro member
      simp [member] at undeclared
    simp only [names, List.mem_append, List.mem_map, not_or, not_exists, not_and]
    exact ⟨⟨composites, enums⟩, scalars⟩

theorem add_composite_names (schema changed : Schema) (kind : CompositeKind) (name : String) (id : CompositeIndex)
    (added : schema.addComposite kind name = .ok (id, changed)) : NamesGrow schema changed := by
  unfold addComposite at added
  split at added
  · rename_i undeclared
    cases Except.ok.inj added
    refine .inr ⟨name, name_free schema name undeclared, ?_⟩
    simp only [names, List.map_append, List.map_cons, List.map_nil, List.append_assoc, List.singleton_append]
    exact List.perm_middle
  · split at added
    · cases Except.ok.inj added
      exact .inl rfl
    · cases added
  · cases added

theorem add_enum_names (schema changed : Schema) (name : String) (values : List String) (id : EnumIndex)
    (added : schema.addEnum name values = .ok (id, changed)) : NamesGrow schema changed := by
  unfold addEnum at added
  split at added
  · rename_i undeclared
    cases Except.ok.inj added
    refine .inr ⟨name, name_free schema name undeclared, ?_⟩
    simp only [names, List.map_append, List.map_cons, List.map_nil, List.append_assoc, List.singleton_append]
    rw [← List.append_assoc, ← List.append_assoc]
    exact List.perm_middle
  · cases added

theorem add_scalar_names (schema changed : Schema) (name : String) (type : ScalarType)
    (added : schema.addScalar name = .ok (type, changed)) : NamesGrow schema changed := by
  unfold addScalar at added
  split at added
  · cases Except.ok.inj added
    exact .inl rfl
  · rename_i undeclared
    cases Except.ok.inj added
    refine .inr ⟨name, name_free schema name undeclared, ?_⟩
    simp only [names, ← List.append_assoc]
    exact List.perm_append_singleton name _
  · cases Except.ok.inj added
    exact .inl rfl
  · cases added

theorem map_modify {α β : Type} (f : α → β) (change : α → α) (same : ∀ item, f (change item) = f item)
    (items : List α) (index : Nat) : (items.modify index change).map f = items.map f := by
  refine List.ext_getElem (by simp) ?_
  intro place _ _
  rw [List.getElem_map, List.getElem_map, List.getElem_modify]
  split
  · exact same _
  · rfl

theorem map_set_same {α β : Type} (f : α → β) (items : List α) (index : Nat) (held item : α)
    (found : items[index]? = some held) (same : f item = f held) : (items.set index item).map f = items.map f := by
  obtain ⟨within, rfl⟩ := List.getElem?_eq_some_iff.mp found
  rw [List.map_set, same, ← List.getElem_map f (h := by simpa using within)]
  exact List.set_getElem_self _

theorem set_description_names (schema : Schema) (id : CompositeIndex) (text : String) :
    (schema.setDescription id text).names = schema.names := by
  have same := map_modify Composite.name (fun composite => { composite with description := some text }) (fun _ => rfl)
    schema.composites id.index
  simp only [names, setDescription, same]

theorem set_enum_description_names (schema : Schema) (id : EnumIndex) (text : String) :
    (schema.setEnumDescription id text).names = schema.names := by
  have same := map_modify Enumeration.name (fun definition => { definition with description := some text })
    (fun _ => rfl) schema.enums id.index
  simp only [names, setEnumDescription, same]

theorem add_field_names (schema changed : Schema) (owner : CompositeIndex) (field : Field)
    (added : schema.addField owner field = .ok changed) : changed.names = schema.names := by
  unfold addField at added
  split at added
  · cases added
  · rename_i composite found
    split at added
    · cases added
    · cases Except.ok.inj added
      have same := map_set_same Composite.name schema.composites owner.index composite
        { composite with fields := composite.fields ++ [field] } found rfl
      simp only [names, same]

theorem attempt_names (schema changed : Schema) (declaration : Declaration) (answer : Declaration.Answer)
    (made : schema.attempt declaration = .ok (answer, changed)) : NamesGrow schema changed := by
  cases declaration with
  | composite kind name =>
      obtain ⟨⟨id, _⟩, added, same⟩ := (except_map_ok _ _ _).mp made
      cases same
      exact add_composite_names schema _ kind name id added
  | enum name values =>
      obtain ⟨⟨id, _⟩, added, same⟩ := (except_map_ok _ _ _).mp made
      cases same
      exact add_enum_names schema _ name values id added
  | scalar name =>
      obtain ⟨⟨type, _⟩, added, same⟩ := (except_map_ok _ _ _).mp made
      cases same
      exact add_scalar_names schema _ name type added
  | describe id text =>
      cases Except.ok.inj made
      exact .inl (set_description_names schema id text)
  | describeEnum id text =>
      cases Except.ok.inj made
      exact .inl (set_enum_description_names schema id text)
  | field owner field =>
      obtain ⟨_, added, same⟩ := (except_map_ok _ _ _).mp made
      cases same
      exact .inl (add_field_names schema changed owner field added)

theorem attempt_distinct (schema changed : Schema) (declaration : Declaration) (answer : Declaration.Answer)
    (before : schema.FieldsDistinct) (made : schema.attempt declaration = .ok (answer, changed)) :
    changed.FieldsDistinct := by
  cases declaration with
  | composite kind name =>
      obtain ⟨⟨id, _⟩, added, same⟩ := (except_map_ok _ _ _).mp made
      cases same
      exact add_composite_keeps (fun fields => (fields.map Field.name).Nodup) schema _ kind name id .nil before added
  | enum name values =>
      obtain ⟨⟨id, _⟩, added, same⟩ := (except_map_ok _ _ _).mp made
      cases same
      exact fun composite member => before composite (add_enum_composites schema _ name values id added ▸ member)
  | scalar name =>
      obtain ⟨⟨type, _⟩, added, same⟩ := (except_map_ok _ _ _).mp made
      cases same
      exact fun composite member => before composite (add_scalar_composites schema _ name type added ▸ member)
  | describe id text =>
      cases Except.ok.inj made
      exact have_of_fields (fun fields => (fields.map Field.name).Nodup) schema _ .nil before
        (fun composite member => .inr (set_description_fields schema id text composite member))
  | describeEnum id text =>
      cases Except.ok.inj made
      exact before
  | field owner field =>
      obtain ⟨_, added, same⟩ := (except_map_ok _ _ _).mp made
      cases same
      exact add_field_keeps _ schema changed owner field (distinct_extends field) before added

theorem step_cases (schema : Schema) (declaration : Declaration) :
    (∃ answer, schema.attempt declaration = .ok (answer, (schema.step declaration).1) ∧
      (schema.step declaration).2 = .ok answer) ∨
      ∃ error, schema.step declaration = (schema, .error error) := by
  unfold step
  cases made : schema.attempt declaration with
  | ok result => exact .inl ⟨result.1, rfl, rfl⟩
  | error error => exact .inr ⟨error, rfl⟩

theorem run_keeps (invariant : Schema → Prop) (declarations : List Declaration) (schema : Schema) (start : invariant schema)
    (keeps : ∀ held declaration answer next, invariant held → held.attempt declaration = .ok (answer, next) →
      invariant next) : invariant (schema.run declarations) := by
  induction declarations generalizing schema with
  | nil => exact start
  | cons declaration rest ih =>
      refine ih (schema.step declaration).1 ?_
      rcases step_cases schema declaration with ⟨answer, made, _⟩ | ⟨error, failed⟩
      · exact keeps schema declaration answer _ start made
      · rw [failed]
        exact start

theorem run_names_apart (declarations : List Declaration) : (Schema.run {} declarations).NamesApart :=
  run_keeps NamesApart declarations {} List.nodup_nil
    (fun held declaration answer next apart made =>
      names_grow_apart held next (attempt_names held next declaration answer made) apart)

theorem run_distinct (declarations : List Declaration) : (Schema.run {} declarations).FieldsDistinct :=
  run_keeps FieldsDistinct declarations {} (fun _ member => absurd member List.not_mem_nil)
    (fun held declaration answer next before made => attempt_distinct held next declaration answer before made)

theorem index_unique {α : Type} (name : α → String) (items : List α) (apart : (items.map name).Nodup) (i j : Nat)
    (first second : α) (here : items[i]? = some first) (there : items[j]? = some second)
    (same : name first = name second) : i = j := by
  have within : i < (items.map name).length := by simpa using (List.getElem?_eq_some_iff.mp here).1
  refine (List.getElem?_inj within apart).mp ?_
  rw [List.getElem?_map, List.getElem?_map, here, there, Option.map_some, Option.map_some, same]

section

variable (schema : Schema) (apart : schema.NamesApart)

include apart in
theorem composite_index_unique (a b : CompositeIndex) (first second : Composite) (here : schema.composite a = .ok first)
    (there : schema.composite b = .ok second) (same : first.name = second.name) : a = b :=
  congrArg CompositeIndex.mk (index_unique Composite.name schema.composites
    (List.nodup_append.mp (List.nodup_append.mp apart).1).1 a.index b.index first second
    ((composite_ok schema a first).mp here) ((composite_ok schema b second).mp there) same)

include apart in
theorem enum_index_unique (a b : EnumIndex) (first second : Enumeration) (here : schema.enumeration a = .ok first)
    (there : schema.enumeration b = .ok second) (same : first.name = second.name) : a = b :=
  congrArg EnumIndex.mk (index_unique Enumeration.name schema.enums
    (List.nodup_append.mp (List.nodup_append.mp apart).1).2.1 a.index b.index first second
    ((enumeration_ok schema a first).mp here) ((enumeration_ok schema b second).mp there) same)

include apart in
theorem composite_named (id : CompositeIndex) (composite : Composite) (found : schema.composite id = .ok composite) :
    schema.compositeNamed? composite.name = some id := by
  cases named : schema.compositeNamed? composite.name with
  | none =>
      have missing : ∀ other ∈ schema.composites, other.name ≠ composite.name := by simpa [compositeNamed?] using named
      exact absurd rfl (missing composite (composite_mem schema id composite found))
  | some other =>
      obtain ⟨target, there, same⟩ := composite_named_found schema composite.name other named
      exact congrArg some (composite_index_unique schema apart other id target composite
        ((composite_ok schema other target).mpr there) found same)

end

def Declares (schema changed : Schema) : Prop := ∃ declarations, schema.run declarations = changed

theorem declares_trans (first second third : Schema) (earlier : Declares first second) (later : Declares second third) :
    Declares first third := by
  obtain ⟨before, rfl⟩ := earlier
  obtain ⟨after, rfl⟩ := later
  exact ⟨before ++ after, List.foldl_append⟩

theorem declares_attempt (schema changed : Schema) (declaration : Declaration) (answer : Declaration.Answer)
    (made : schema.attempt declaration = .ok (answer, changed)) : Declares schema changed := by
  refine ⟨[declaration], ?_⟩
  change (schema.step declaration).1 = changed
  rw [step, made]

theorem declares_enum_description (schema : Schema) (id : EnumIndex) (text : String) :
    Declares schema (schema.setEnumDescription id text) := declares_attempt schema _ (.describeEnum id text) .done rfl

theorem declare_declares (schema changed : Schema) (definition : GraphQL.TypeDefinition)
    (declared : schema.declare definition = .ok changed) : Declares schema changed := by
  have composite (kind : CompositeKind) (made : Prod.snd <$> schema.addComposite kind definition.name = .ok changed) :
      Declares schema changed := by
    obtain ⟨⟨id, _⟩, added, rfl⟩ := (except_map_ok _ _ _).mp made
    exact declares_attempt schema _ (.composite kind definition.name) (.composite id)
      ((except_map_ok _ _ _).mpr ⟨_, added, rfl⟩)
  unfold declare at declared
  split at declared
  · exact composite .object declared
  · exact composite .interface declared
  · obtain ⟨⟨id, held⟩, added, later⟩ := (except_bind_ok _ _ _).mp declared
    have enum := declares_attempt schema held (.enum _ _) (.enum id) ((except_map_ok _ _ _).mpr ⟨_, added, rfl⟩)
    cases Except.ok.inj later
    split
    · exact declares_trans _ _ _ enum (declares_enum_description held id _)
    · exact enum
  · obtain ⟨⟨type, _⟩, added, rfl⟩ := (except_map_ok _ _ _).mp declared
    exact declares_attempt schema _ (.scalar definition.name) (.scalar type) ((except_map_ok _ _ _).mpr ⟨_, added, rfl⟩)
  · exact ⟨[], Except.ok.inj declared⟩
  · exact ⟨[], Except.ok.inj declared⟩

theorem add_members_declares (schema changed : Schema) (definition : GraphQL.TypeDefinition)
    (added : schema.addMembers definition = .ok changed) : Declares schema changed := by
  refine add_members_invariant (Declares schema) schema changed definition ⟨[], rfl⟩ ?_ ?_ added
  · exact fun id text => declares_attempt schema _ (.describe id text) .done rfl
  · intro field _ held id read next before _ step
    exact declares_trans _ _ _ before (declares_attempt held next (.field id read) .done
      ((except_map_ok _ _ _).mpr ⟨next, step, rfl⟩))

theorem all_declared (definitions : List GraphQL.TypeDefinition) (declared : Schema)
    (declares : definitions.foldlM declare {} = .ok declared) : Declares {} declared :=
  except_fold_keeps declare (Declares {}) definitions {} declared ⟨[], rfl⟩
    (fun definition _ held next before step => declares_trans _ _ _ before (declare_declares held next definition step))
    declares

theorem text_declared (text : String) (schema : Schema) (read : ofText text = .ok schema) : Declares {} schema := by
  obtain ⟨definitions, _, built⟩ := of_text_ok text schema read
  obtain ⟨declared, declares, fills, _, _⟩ := of_types_ok _ schema built
  have first := all_declared _ declared declares
  exact except_fold_keeps addMembers (Declares {}) _ declared schema first
    (fun definition _ held next before step => declares_trans _ _ _ before (add_members_declares held next definition step))
    fills

theorem names_apart_of_text (text : String) (schema : Schema) (read : ofText text = .ok schema) : schema.NamesApart := by
  obtain ⟨declarations, rfl⟩ := text_declared text schema read
  exact run_names_apart declarations

end DocGraph.Schema
