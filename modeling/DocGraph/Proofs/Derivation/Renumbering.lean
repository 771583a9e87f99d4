import DocGraph.Proofs.Derivation.Sessions
import DocGraph.Proofs.Schema.Renumbering

set_option autoImplicit false

namespace DocGraph

variable (numbers : Renumbering)

@[simp] theorem FieldType.wrap_renumber (keep : Bool) (reference : TypeRef) (type : FieldType) :
    (type.renumber numbers).wrap keep reference = type.wrap keep reference := by
  induction type with
  | named type => rfl
  | list of ih => exact congrArg TypeRef.list ih
  | nonNull of ih =>
      rw [renumber, wrap, wrap, ih]

namespace Derivation

def Target.renumber : Target → Target
  | .composite family id scope => .composite family (numbers.composite id) scope
  | .enumCopy id => .enumCopy (numbers.enum id)
  | target => target

def Need.renumber : Need → Need
  | .type target => .type (target.renumber numbers)
  | .notice id => .notice (numbers.composite id)

def Call.renumber : Call → Call
  | .composite family id excluded => .composite family (numbers.composite id) excluded
  | .leafFilter type => .leafFilter (type.renumber numbers)
  | .queryArguments id excluded => .queryArguments (numbers.composite id) excluded
  | .updateArguments id excluded => .updateArguments (numbers.composite id) excluded
  | call => call

theorem nested_renumber (family : Family) (type : FieldType) :
    family.nested (type.renumber numbers) = family.nested type := by
  cases family <;> simp [Family.nested]

theorem takes_renumber (family : Family) (field : Field) : family.takes (field.renumber numbers) = family.takes field := by
  cases family <;> simp [Family.takes]

theorem taken_renumber (composite : Composite) (family : Family) (scope : Scope) :
    takenFields (composite.renumber numbers) family scope =
      (takenFields composite family scope).map (Field.renumber numbers) := by
  have kept (field : Field) : (family.takes ∘ Field.renumber numbers) field = family.takes field :=
    takes_renumber numbers family field
  unfold takenFields Composite.storedFields Composite.fieldsExcept
  rw [Composite.fields_renumber, List.filter_map, List.filter_map, funext kept]
  rfl

theorem wrapped_renumber (family : Family) (scope : Scope) (field : Field) (reference : TypeRef) :
    wrapped family scope (field.renumber numbers) reference = wrapped family scope field reference := by
  cases family <;> simp [wrapped, FieldType.nullable_renumber]

theorem string_leaf_renumber (type : FieldType) : isStringLeaf (type.renumber numbers) = isStringLeaf type := by
  rw [isStringLeaf, isStringLeaf, FieldType.innermost_renumber]
  cases type.innermost <;> rfl

theorem leaf_needs_renumber (type : FieldType) :
    leafNeeds (type.renumber numbers) = (leafNeeds type).map (Need.renumber numbers) := by
  rw [leafNeeds, leafNeeds, FieldType.innermost_renumber]
  cases type.innermost <;> rfl

theorem own_needs_renumber (family : Family) (id : CompositeIndex) (noneTaken : Bool) :
    ownNeeds family (numbers.composite id) noneTaken = (ownNeeds family id noneTaken).map (Need.renumber numbers) := by
  cases family <;> cases noneTaken <;> rfl

variable (schema other : Schema) (renumbers : Schema.Renumbers numbers schema other)

include renumbers

theorem composite_name_renumbered (family : Family) (id : CompositeIndex) :
    compositeName other family (numbers.composite id) = compositeName schema family id := by
  unfold compositeName
  rw [Schema.renumbered_composite numbers schema other renumbers id, except_map_bind]
  rfl

theorem target_name_renumbered (target : Target) : (target.renumber numbers).name other = target.name schema := by
  cases target with
  | composite family id scope => exact composite_name_renumbered numbers schema other renumbers family id
  | enumCopy id =>
      simp only [Target.renumber, Target.name, Schema.renumbered_enumeration numbers schema other renumbers]
  | _ => rfl

theorem leaf_name_renumbered (type : FieldType) : leafName other (type.renumber numbers) = leafName schema type := by
  rw [leafName, leafName, FieldType.innermost_renumber]
  cases type.innermost with
  | scalar scalar => rfl
  | enum id => simp only [NamedType.renumber, Schema.renumbered_enumeration numbers schema other renumbers]
  | composite kind id =>
      simp only [NamedType.renumber, Schema.renumbered_composite numbers schema other renumbers, except_map_bind]
      rfl

theorem input_field_renumbered (family : Family) (scope : Scope) (field : Field) :
    inputField other family scope (field.renumber numbers) = inputField schema family scope field := by
  have leaf : leafReference other family (field.type.renumber numbers) = leafReference schema family field.type := by
    cases family <;> simp only [leafReference, leaf_name_renumbered numbers schema other renumbers]
  have reference : fieldReference other family (field.type.renumber numbers) = fieldReference schema family field.type := by
    unfold fieldReference
    rw [FieldType.composite_renumber, leaf, nested_renumber]
    cases field.type.composite? with
    | none => rfl
    | some id => simp only [Option.map_some, composite_name_renumbered numbers schema other renumbers]
  unfold inputField
  simp only [Field.type_renumber, reference, wrapped_renumber, Field.name_renumber, Field.description_renumber]

theorem composite_fields_renumbered (family : Family) (id : CompositeIndex) (scope : Scope) :
    compositeFields other family (numbers.composite id) scope = compositeFields schema family id scope := by
  have part : partField other (numbers.composite id) = partField schema id := by
    funext part
    simp only [partField, composite_name_renumbered numbers schema other renumbers]
  unfold compositeFields
  rw [Schema.renumbered_composite numbers schema other renumbers id, except_map_bind]
  apply bind_congr
  intro composite
  have each : (inputField other family scope) ∘ Field.renumber numbers = inputField schema family scope :=
    funext (input_field_renumbered numbers schema other renumbers family scope)
  cases family <;> simp only [part, taken_renumber, List.mapM_map, each, List.isEmpty_map, Composite.name_renumber]

theorem definition_renumbered (target : Target) : (target.renumber numbers).definition other = target.definition schema := by
  cases target with
  | composite family id scope =>
      simp only [Target.renumber, Target.definition, composite_name_renumbered numbers schema other renumbers,
        composite_fields_renumbered numbers schema other renumbers]
  | enumCopy id =>
      simp only [Target.renumber, Target.definition, Schema.renumbered_enumeration numbers schema other renumbers]
  | _ => rfl

theorem leaf_filter_needs_renumbered (type : FieldType) : leafFilterNeeds other (type.renumber numbers) =
    (leafFilterNeeds schema type).map (List.map (Need.renumber numbers)) := by
  unfold leafFilterNeeds
  rw [leaf_name_renumbered numbers schema other renumbers, leaf_needs_renumber, string_leaf_renumber]
  cases leafName schema type with
  | error error => rfl
  | ok leaf => simp [bind, Except.bind, Except.map, pure, Except.pure, Need.renumber, Target.renumber]

theorem field_needs_renumbered (family : Family) (field : Field) : fieldNeeds other family (field.renumber numbers) =
    (fieldNeeds schema family field).map (List.map (Need.renumber numbers)) := by
  unfold fieldNeeds
  rw [Field.type_renumber, FieldType.composite_renumber, nested_renumber]
  cases field.type.composite? with
  | some id => rfl
  | none =>
      cases family with
      | filter => exact leaf_filter_needs_renumbered numbers schema other renumbers field.type
      | objectFilter => exact leaf_filter_needs_renumbered numbers schema other renumbers field.type
      | sort => rfl
      | _ => exact congrArg Except.ok (leaf_needs_renumber numbers field.type)

theorem needs_renumbered (target : Target) : (target.renumber numbers).needs other =
    (target.needs schema).map (List.map (Need.renumber numbers)) := by
  cases target with
  | composite family id scope =>
      simp only [Target.renumber, Target.needs]
      unfold compositeNeeds
      rw [Schema.renumbered_composite numbers schema other renumbers id, except_map_bind]
      cases schema.composite id with
      | error error => rfl
      | ok composite =>
          have each := except_map_list_changed (takenFields composite family scope) (fieldNeeds schema family)
            (fieldNeeds other family ∘ Field.renumber numbers) (List.map (Need.renumber numbers))
            (field_needs_renumbered numbers schema other renumbers family)
          have ordinary : ((takenFields (composite.renumber numbers) family scope).mapM (fieldNeeds other family)) =
              ((takenFields composite family scope).mapM (fieldNeeds schema family)).map
                (List.map (List.map (Need.renumber numbers))) := by
            rw [taken_renumber, List.mapM_map]
            exact each
          cases family with
          | update => rfl
          | _ =>
              simp only [bind, Except.bind] at ordinary ⊢
              rw [ordinary, taken_renumber, own_needs_renumber]
              cases (takenFields composite _ scope).mapM (fieldNeeds schema _) with
              | error error => rfl
              | ok needs => simp [Except.map, pure, Except.pure, List.map_flatten]
  | leafFilter leaf isString => rfl
  | _ => rfl

theorem notify_renumbered (draft : Draft) (id : CompositeIndex) :
    draft.notify other (numbers.composite id) = draft.notify schema id := by
  unfold Draft.notify
  rw [Schema.renumbered_composite numbers schema other renumbers id, except_map_bind]
  simp only [Composite.undeclared_readers_renumber, Composite.name_renumber]

theorem meets_renumbered (before after : Target → Draft → Except Error Draft)
    (same : ∀ target draft, after (target.renumber numbers) draft = before target draft) (needs : List Need)
    (draft : Draft) : (needs.map (Need.renumber numbers)).foldlM (Draft.meet other after) draft =
      needs.foldlM (Draft.meet schema before) draft := by
  have step (held : Draft) (need : Need) :
      held.meet other after (need.renumber numbers) = held.meet schema before need := by
    cases need with
    | type target => exact same target held
    | notice id => exact notify_renumbered numbers schema other renumbers held id
  rw [List.foldlM_map]
  simp only [step]

theorem derive_renumbered (bound : Nat) : ∀ target draft,
    derive other bound (target.renumber numbers) draft = derive schema bound target draft := by
  induction bound with
  | zero =>
      intro target draft
      rw [derive, derive, target_name_renumbered numbers schema other renumbers target]
  | succ bound ih =>
      intro target draft
      rw [derive, derive, target_name_renumbered numbers schema other renumbers target,
        definition_renumbered numbers schema other renumbers target, needs_renumbered numbers schema other renumbers target]
      simp only [except_map_bind, meets_renumbered numbers schema other renumbers _ _ ih]

theorem call_needs_renumbered (call : Call) : (call.renumber numbers).needs other =
    (call.needs schema).map (List.map (Need.renumber numbers)) := by
  cases call with
  | leafFilter type => exact leaf_filter_needs_renumbered numbers schema other renumbers type
  | _ => rfl

theorem answer_renumbered (call : Call) : (call.renumber numbers).answer other = call.answer schema := by
  cases call <;> simp only [Call.renumber, Call.answer, composite_name_renumbered numbers schema other renumbers,
    leaf_name_renumbered numbers schema other renumbers]

theorem call_renumbered (session : Session) (call : Call) :
    session.call other (call.renumber numbers) = session.call schema call := by
  have bound : nestingBound other = nestingBound schema := by
    rw [nestingBound, nestingBound, renumbers.size]
  have derives (needs : List Need) (draft : Draft) :
      deriveNeeds other (needs.map (Need.renumber numbers)) draft = deriveNeeds schema needs draft := by
    rw [deriveNeeds, deriveNeeds, bound]
    exact meets_renumbered numbers schema other renumbers _ _ (derive_renumbered numbers schema other renumbers _) needs draft
  unfold Session.call
  simp only [call_needs_renumbered numbers schema other renumbers, answer_renumbered numbers schema other renumbers,
    except_map_bind, derives]

theorem run_renumbered (calls : List Call) (session : Session) :
    session.run other (calls.map (Call.renumber numbers)) = session.run schema calls := by
  unfold Session.run
  rw [List.foldl_map]
  simp only [call_renumbered numbers schema other renumbers]

end Derivation

end DocGraph
