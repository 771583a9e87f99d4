import DocGraph.Proofs.Derivation.Entries
import DocGraph.Proofs.Filter.Entries
import DocGraph.Proofs.Filter.Refusal
import DocGraph.Proofs.InputType.Conforms

set_option autoImplicit false

namespace DocGraph

open DocGraph.Derivation

namespace Filter

variable (schema : Schema) (sound : schema.Sound) (free : CollisionFree schema) (registry : Registry)
  (grounded : Grounded schema registry) (scalars : List String)

theorem leaf_target_type (leaf : String) (isString : Bool)
    (of : Target.leafFilter leaf isString ∈ targets schema) :
    ∃ type ∈ schema.fieldTypes, type.composite? = none ∧ leafName schema type = .ok leaf ∧
      isStringLeaf type = isString := by
  rcases target_cases schema _ of with ⟨_, _, same, _⟩ | ⟨type, used, inside⟩ | shared
  · cases same
  · obtain ⟨plain, held, named, same | same | ⟨_, _, same⟩⟩ := leaf_target_shape schema type _ inside
    · cases same
      exact ⟨type, used, plain, named, rfl⟩
    · cases same
    · cases same
  · simp [sharedTargets] at shared

theorem string_leaf (leaf : String) (of : Target.leafFilter leaf true ∈ targets schema) : leaf = "String" := by
  obtain ⟨type, _, _, named, isString⟩ := leaf_target_type schema leaf true of
  unfold isStringLeaf at isString
  split at isString
  · rename_i innermost
    rw [leafName, innermost] at named
    exact (Except.ok.inj named).symm
  · cases isString

include free grounded in
theorem string_unregistered (of : Target.leafFilter "String" true ∈ targets schema) :
    registry.lookup? "String" = none := by
  cases found : registry.lookup? "String" with
  | none => rfl
  | some type =>
      obtain ⟨type, used, id, innermost, named⟩ := builtin_entry schema registry grounded .string rfl type found
      have plain : type.composite? = none := by rw [FieldType.composite?, innermost]
      have other : isStringLeaf type = false := by rw [isStringLeaf, innermost]
      have leafNamed : leafName schema type = .ok "String" := by
        rw [leafName, innermost]
        exact named
      have filter : Target.leafFilter "String" false ∈ targets schema := by
        refine leaf_of schema type _ used ?_
        rw [leaf_targets_eq schema type "String" plain leafNamed, other]
        exact List.mem_cons_self ..
      cases free _ filter _ of rfl

theorem operand_field_cases (leaf : String) (isString : Bool) (input : InputValue)
    (member : input ∈ operandFields leaf isString) :
    ∃ operator : Operator, operator ≠ .not ∧ (operator.forStringsOnly = true → isString = true) ∧
      input = operandField leaf operator := by
  obtain ⟨operator, kept, same⟩ := List.mem_map.mp member
  have offered := (List.mem_filter.mp kept).2
  simp only [Bool.and_eq_true, Bool.or_eq_true, Bool.not_eq_true', bne_iff_ne, ne_eq] at offered
  refine ⟨operator, offered.1, ?_, same.symm⟩
  intro strings
  rcases offered.2 with isString | general
  · exact isString
  · rw [strings] at general
    cases general

theorem leaf_filter_field_cases (leaf : String) (isString : Bool) (input : InputValue)
    (member : input ∈ leafFilterFields leaf isString) :
    input ∈ operandFields leaf isString ∨
      input.name = Operator.not.word ∧ input.type = ⟨negatedLeafFilterName leaf⟩ ∨
      input.name = "opr" ∧ input.type = ⟨deprecatedOperatorsName⟩ ∨
      (input.name = "value" ∨ input.name = "values" ∨ input.name = "NEQ") := by
  rcases List.mem_append.mp member with operand | other
  · exact .inl operand
  · simp only [List.mem_cons, List.not_mem_nil, or_false] at other
    rcases other with rfl | rfl | rfl | rfl | rfl
    · exact .inr (.inl ⟨rfl, rfl⟩)
    · exact .inr (.inr (.inl ⟨rfl, rfl⟩))
    all_goals simp

theorem operand_field_word (leaf : String) (isString : Bool) (input : InputValue) (operator : Operator)
    (member : input ∈ operandFields leaf isString) (named : input.name = operator.word) :
    operator ≠ .not ∧ (operator.forStringsOnly = true → isString = true) ∧ input = operandField leaf operator := by
  obtain ⟨held, plain, strings, same⟩ := operand_field_cases leaf isString input member
  have words : held.word = operator.word := by
    rw [← named, same]
    rfl
  have again := Operator.ofWord?_word held
  rw [words, Operator.ofWord?_word] at again
  cases again
  exact ⟨plain, strings, same⟩

theorem leaf_opr_type (leaf : String) (isString : Bool) (input : InputValue)
    (member : input ∈ leafFilterFields leaf isString) (named : input.name = "opr") :
    input.type = ⟨deprecatedOperatorsName⟩ := by
  rcases leaf_filter_field_cases leaf isString input member with operand | ⟨word, _⟩ | ⟨_, typed⟩ | other
  · obtain ⟨operator, _, _, same⟩ := operand_field_cases leaf isString input operand
    have word : operator.word = "opr" := by
      rw [← named, same]
      rfl
    cases operator <;> exact absurd word (by decide)
  · exact absurd (word.symm.trans named) (by decide)
  · exact typed
  · rcases other with word | word | word <;> exact absurd (word.symm.trans named) (by decide)

theorem leaf_not_type (leaf : String) (isString : Bool) (input : InputValue)
    (member : input ∈ leafFilterFields leaf isString) (named : input.name = Operator.not.word) :
    input.type = ⟨negatedLeafFilterName leaf⟩ := by
  rcases leaf_filter_field_cases leaf isString input member with operand | ⟨_, typed⟩ | ⟨word, _⟩ | other
  · exact absurd rfl (operand_field_word leaf isString input .not operand named).1
  · exact typed
  · exact absurd (word.symm.trans named) (by decide)
  · rcases other with word | word | word <;> exact absurd (word.symm.trans named) (by decide)

section

variable {registry scalars} {leaf : String} {isString : Bool}
  (of : Target.leafFilter leaf isString ∈ targets schema)

include free grounded of in
theorem string_operand_text (input : InputValue) (operator : Operator) (value : Json)
    (member : input ∈ operandFields leaf isString) (named : input.name = operator.word)
    (strings : operator.forStringsOnly = true) (conforms : input.type.Conforms registry scalars value) :
    LeafFilter.IsOptionalText value := by
  obtain ⟨_, onString, same⟩ := operand_field_word leaf isString input operator member named
  cases onString strings
  cases string_leaf schema leaf of
  have typed : input.type = ⟨"String"⟩ := by
    rw [same]
    cases operator <;> first | rfl | cases strings
  rw [typed] at conforms
  have name : TypeRef.IsName ⟨"String"⟩ := TypeRef.is_name_of_last _ 'g' (by decide) (by decide) (by decide)
  rcases TypeRef.conforms_builtin ⟨"String"⟩ .string value name
      (string_unregistered schema free registry grounded of) rfl conforms with null | accepted
  · exact .inl null
  · cases value with
    | str text => exact .inr ⟨text, rfl⟩
    | _ => exact accepted.elim

include sound free grounded of in
theorem negation_typed (registered : Registered schema registry (.negatedLeafFilter leaf isString)) (value : Json)
    (conforms : TypeRef.Conforms registry scalars ⟨negatedLeafFilterName leaf⟩ value) :
    value = .null ∨ ∃ negated, value = .obj negated ∧ LeafFilter.NegationTyped negated := by
  have negatedOf : Target.Of schema (.negatedLeafFilter leaf isString) :=
    needed_of schema sound (.leafFilter leaf isString) _ of (.negated leaf isString)
  obtain ⟨name, type, named, defined, found, _⟩ :=
    other_entry schema free registry grounded (.negatedLeafFilter leaf isString) negatedOf registered (by simp)
  cases Except.ok.inj named
  cases Except.ok.inj defined
  have isName : TypeRef.IsName ⟨negatedLeafFilterName leaf⟩ :=
    TypeRef.is_name_append leaf _ 'r' (by decide) (by decide) (by decide)
  rcases TypeRef.conforms_made _ _ _ _ value isName found conforms with null | ⟨members, same, input⟩
  · exact .inl null
  · have text (operator : Operator) (strings : operator.forStringsOnly = true) (held : Json)
        (given : Members.get? operator.word members = some held) : LeafFilter.IsOptionalText held := by
      obtain ⟨value, member, named, conforms⟩ := input _ held (Members.mem_of_get? _ held members given)
      exact string_operand_text schema free grounded of value operator held member named strings conforms
    refine .inr ⟨members, same, ?_, text .regex rfl, text .options rfl⟩
    intro key listed
    obtain ⟨⟨name, held⟩, member, rfl⟩ := List.mem_map.mp listed
    obtain ⟨value, inside, named, _⟩ := input name held member
    obtain ⟨operator, plain, _, same⟩ := operand_field_cases leaf isString value inside
    have word : name = operator.word := by
      rw [← named, same]
      rfl
    exact ⟨operator, word ▸ Operator.ofWord?_word operator, plain⟩

include free grounded in
theorem deprecated_operator_typed (registered : Registered schema registry .deprecatedOperators) (value : Json)
    (conforms : TypeRef.Conforms registry scalars ⟨deprecatedOperatorsName⟩ value) :
    value = .null ∨ ∃ text operator, value = .str text ∧ DeprecatedOperator.ofText? text = some operator := by
  obtain ⟨name, type, named, defined, found, _⟩ := other_entry schema free registry grounded .deprecatedOperators
    (shared_of schema _ (by simp [sharedTargets, Target.bare])) registered (by simp)
  cases Except.ok.inj named
  cases Except.ok.inj defined
  have isName : TypeRef.IsName ⟨deprecatedOperatorsName⟩ :=
    TypeRef.is_name_of_last _ 'r' (by decide) (by decide) (by decide)
  rcases TypeRef.conforms_enum _ _ value isName found conforms with null | ⟨member, listed, given⟩
  · exact .inl null
  · obtain ⟨operator, _, same⟩ := List.mem_map.mp (Keyed.mem_of_mem_collect _ _ _ listed)
    subst same
    rcases given with rfl | internal
    · exact .inr ⟨_, operator, rfl, by cases operator <;> decide⟩
    · cases Option.some.inj internal
      exact .inr ⟨_, operator, rfl, by cases operator <;> decide⟩

include sound free grounded of in
theorem leaf_filter_typed (registered : Registered schema registry (.leafFilter leaf isString)) (value : Json)
    (conforms : TypeRef.Conforms registry scalars ⟨leafFilterName leaf⟩ value) :
    value = .null ∨ ∃ filter, value = .obj filter ∧ LeafFilter.Typed filter := by
  obtain ⟨name, type, named, defined, found, needs⟩ :=
    other_entry schema free registry grounded (.leafFilter leaf isString) of registered (by simp)
  cases Except.ok.inj named
  cases Except.ok.inj defined
  have isName : TypeRef.IsName ⟨leafFilterName leaf⟩ :=
    TypeRef.is_name_append leaf _ 'r' (by decide) (by decide) (by decide)
  rcases TypeRef.conforms_made _ _ _ _ value isName found conforms with null | ⟨members, same, input⟩
  · exact .inl null
  · refine .inr ⟨members, same, ?_, ?_, ?_⟩
    · intro key listed
      obtain ⟨⟨name, held⟩, member, rfl⟩ := List.mem_map.mp listed
      obtain ⟨value, inside, named, _⟩ := input name held member
      rcases leaf_filter_field_cases leaf isString value inside with operand | ⟨word, _⟩ | ⟨opr, _⟩ | other
      · obtain ⟨operator, _, _, same⟩ := operand_field_cases leaf isString value operand
        have word : name = operator.word := by
          rw [← named, same]
          rfl
        exact .inr ⟨operator, word ▸ Operator.ofWord?_word operator⟩
      · exact .inr ⟨.not, by rw [← named, word, Operator.ofWord?_word]⟩
      · exact .inl (by rw [← named, opr]; rfl)
      · refine .inl ?_
        rw [← named]
        rcases other with word | word | word <;> rw [word] <;> rfl
    · intro held given
      obtain ⟨value, inside, named, conforms⟩ := input "opr" held (Members.mem_of_get? _ held members given)
      have typed := leaf_opr_type leaf isString value inside named
      exact deprecated_operator_typed schema free grounded (needs _ _ rfl (by simp)) held (typed ▸ conforms)
    · intro held member
      obtain ⟨value, inside, named, conforms⟩ := input _ held member
      have typed := leaf_not_type leaf isString value inside named
      exact negation_typed schema sound free grounded of (needs _ _ rfl (List.mem_cons_self ..)) held
        (typed ▸ conforms)

end

end Filter

end DocGraph
