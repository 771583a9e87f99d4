import DocGraph.Proofs.Filter.Entries
import DocGraph.Proofs.Filter.Leaf
import DocGraph.Proofs.Filter.Meaning

set_option autoImplicit false

namespace DocGraph.Filter

variable (judge : Members → Option Json → Bool)

theorem document_holds_append (front back : Members) (held : Option Json) :
    documentHolds judge (front ++ back) held = (documentHolds judge front held && documentHolds judge back held) := by
  induction front with
  | nil => simp [documentHolds]
  | cons entry rest ih =>
      rcases entry with ⟨key, condition⟩
      simp [documentHolds, ih, Bool.and_assoc]

theorem document_holds_path (path : String) (base : List String) (condition : Members) (held : Option Json)
    (spells : DotPath.Spells path base) (nonempty : base ≠ []) :
    documentHolds judge [(path, .obj condition)] held = conditionHolds judge condition (Json.descend base held) := by
  rw [documentHolds, documentHolds, entryHolds, DotPath.segments_spelled path base spells nonempty, Bool.and_true]

theorem native_ne_condition (operator : Operator) :
    operator.native ≠ "$exists" ∧ operator.native ≠ "$elemMatch" := by
  cases operator <;> decide

theorem condition_holds_native (operators : Members) (held : Option Json)
    (native : ∀ key ∈ Members.keys operators, ∃ operator : Operator, key = operator.native) :
    conditionHolds judge operators held = judge operators held := by
  cases operators with
  | nil => simp [conditionHolds]
  | cons entry rest =>
      rcases entry with ⟨key, operand⟩
      cases rest with
      | cons next others => simp [conditionHolds]
      | nil =>
          obtain ⟨operator, same⟩ := native key (by simp [Members.keys])
          have other := native_ne_condition operator
          rw [conditionHolds, same, if_neg other.1, if_neg other.2]

def oprAnswer (filter : Members) (held : Option Json) : Bool :=
  (Members.get? "opr" filter).all (fun operand => oprHolds operand held)

theorem presence_ok (filter : Members) (path : String) (required : Option Bool)
    (asked : presence filter path = .ok required) :
    (required = none ∧ (Members.get? "opr" filter).all Json.isNull = true) ∨
      ∃ text operator, Members.get? "opr" filter = some (.str text) ∧
        PresenceOperator.ofText? text = some operator ∧ required = some (operator == .present) := by
  unfold presence at asked
  cases given : Members.get? "opr" filter with
  | none =>
      simp only [given, Option.bind_none, Except.ok.injEq] at asked
      exact .inl ⟨asked.symm, rfl⟩
  | some operand =>
      cases operand with
      | null =>
          simp only [given, Option.bind_some, Json.nonNull?, Except.ok.injEq] at asked
          exact .inl ⟨asked.symm, rfl⟩
      | str text =>
          simp only [given, Option.bind_some, Json.nonNull?] at asked
          cases word : PresenceOperator.ofText? text with
          | none => simp [word] at asked
          | some operator =>
              simp only [word, Except.ok.injEq] at asked
              exact .inr ⟨text, operator, rfl, word, asked.symm⟩
      | _ => simp [given, Json.nonNull?] at asked

theorem presence_meaning (filter : Members) (path : String) (required : Option Bool) (held : Option Json)
    (asked : presence filter path = .ok required) :
    required.all (fun value => held.isSome == value) = oprAnswer filter held := by
  unfold oprAnswer
  rcases presence_ok filter path required asked with ⟨rfl, null⟩ | ⟨text, operator, given, word, rfl⟩
  · cases given : Members.get? "opr" filter with
    | none => rfl
    | some operand =>
        cases operand with
        | null => rfl
        | _ => simp [given, Json.isNull] at null
  · simp [given, oprHolds, word]

theorem presence_given (filter : Members) (path : String) (required : Option Bool)
    (asked : presence filter path = .ok required) :
    required.isSome = (Members.get? "opr" filter).any (fun operand => !operand.isNull) := by
  rcases presence_ok filter path required asked with ⟨rfl, null⟩ | ⟨text, operator, given, _, rfl⟩
  · cases given : Members.get? "opr" filter with
    | none => rfl
    | some operand =>
        rw [given] at null
        simpa using null
  · simp [given, Json.isNull]

theorem presence_entries_hold (required : Option Bool) (held : Option Json) :
    documentHolds judge (presenceEntries required) held = required.all (fun value => held.isSome == value) := by
  cases required with
  | none => simp [presenceEntries, documentHolds]
  | some value => simp [presenceEntries, documentHolds, entryHolds, presenceHolds]

theorem element_document (schema : Schema) (plain : schema.HasPlainNames) (composite : Composite)
    (filter inner : Members) (required : Option Bool) (declared : composite ∈ schema.composites)
    (different : (Members.keys filter).Nodup) (unique : Json.MembersUnique filter)
    (compiled : (objectEntries schema composite .nested "" filter).result = .ok inner) :
    Members.ofEntries (presenceEntries required ++ inner) = presenceEntries required ++ inner := by
  apply Members.of_entries_unique
  have innerUnique := object_entries_unique schema plain composite .nested "" [] filter inner declared rfl
    different unique compiled
  cases required with
  | none => simpa [presenceEntries] using innerUnique
  | some value =>
      refine List.nodup_cons.mpr ⟨?_, innerUnique⟩
      intro member
      obtain ⟨name, _, plainName, lies⟩ := object_entries_lie schema plain composite .nested "" [] filter inner
        declared rfl compiled "$exists" member
      exact lies_at_head name "$exists" plainName lies (by decide)

theorem leaf_operators_compiled (filter operators : Members) (path : String)
    (compiled : (LeafFilter.document filter path).result = .ok operators) : leafOperators filter = operators := by
  simp only [leafOperators, LeafFilter.document_elsewhere path "" filter operators compiled]

theorem nested_reserves (key : String) : Level.nested.reserves key = true ↔ key = "opr" := by
  simp [Level.reserves]

mutual
theorem field_entries_empty (schema : Schema) (plain : schema.HasPlainNames) (field : Field) (path : String)
    (filter : Json) (entries : Members) (unique : filter.UniqueKeys)
    (compiled : (fieldEntries schema field path filter).result = .ok entries) :
    entries.isEmpty = !fieldAsks schema field filter := by
  cases filter with
  | null =>
      rw [fieldEntries, Outcome.result_pure] at compiled
      simp [← compiled, fieldAsks]
  | obj filter =>
      rw [fieldAsks]
      cases kind : field.type.composite? with
      | none =>
          obtain ⟨operators, leafOk, written⟩ := (field_entries_leaf schema field path filter entries kind).mp compiled
          simp only [leaf_operators_compiled filter operators path leafOk, ← written, entryUnlessEmpty]
          cases operators <;> rfl
      | some id =>
          obtain ⟨required, composite, inner, asked, found, innerOk, written⟩ :=
            (field_entries_composite schema field path filter entries id kind).mp compiled
          have declared := schema.composite_mem id composite found
          have below := nested_entries_empty schema plain composite _ filter inner declared unique.1 unique.2 innerOk
          rw [← presence_given filter path required asked] at below
          simp only [found, below, ← written]
          by_cases listed : field.type.isList = true
          · rw [if_pos listed] at innerOk ⊢
            rw [element_document schema plain composite filter inner required declared unique.1 unique.2 innerOk]
            cases required <;> cases inner <;> rfl
          · rw [if_neg listed]
            cases required <;> cases inner <;> rfl
  | _ => simp [fieldEntries, Outcome.result_fail] at compiled
termination_by structural filter
theorem nested_entries_empty (schema : Schema) (plain : schema.HasPlainNames) (composite : Composite)
    (path : String) (filter entries : Members) (declared : composite ∈ schema.composites)
    (different : (Members.keys filter).Nodup) (unique : Json.MembersUnique filter)
    (compiled : (objectEntries schema composite .nested path filter).result = .ok entries) :
    nestedAsks schema composite filter =
      ((Members.get? "opr" filter).any (fun operand => !operand.isNull) || !entries.isEmpty) := by
  cases filter with
  | nil =>
      rw [object_entries_nil] at compiled
      simp [compiled, nestedAsks, Members.get?]
  | cons member rest =>
      rcases member with ⟨key, filter⟩
      have parts := List.nodup_cons.mp different
      obtain ⟨first, others, firstOk, othersOk, whole⟩ :=
        (object_entries_cons schema composite .nested path key filter rest entries).mp compiled
      have later := nested_entries_empty schema plain composite path rest others declared parts.2 unique.2 othersOk
      rw [nestedAsks, later, ← whole]
      rcases firstOk with ⟨reserved, rfl⟩ | ⟨free, field, found, fieldOk⟩
      · have same := (nested_reserves key).mp reserved
        subst same
        have absent := (Members.get?_eq_none "opr" rest).mpr parts.1
        simp [Members.get?, absent]
      · have other : key ≠ "opr" := fun same => by simp [(nested_reserves key).mpr same] at free
        have head := field_entries_empty schema plain field _ filter first unique.1 fieldOk
        have joined : (first ++ others).isEmpty = (first.isEmpty && others.isEmpty) := by cases first <;> rfl
        rw [if_neg other, found, Members.get?, if_neg other, joined, head, Option.any_some]
        cases fieldAsks schema field filter <;>
          cases (Members.get? "opr" rest).any (fun operand => !operand.isNull) <;> simp
termination_by structural filter
end

theorem leaf_field_meaning (schema : Schema) (field : Field) (path : String) (base : List String)
    (filter entries : Members) (held : Option Json) (spells : DotPath.Spells path base) (inside : base ≠ [])
    (leaf : field.type.composite? = none)
    (compiled : (fieldEntries schema field path (.obj filter)).result = .ok entries) :
    documentHolds judge entries held = fieldHolds schema judge field (.obj filter) (Json.descend base held) := by
  obtain ⟨operators, leafOk, written⟩ := (field_entries_leaf schema field path filter entries leaf).mp compiled
  have native := LeafFilter.document_native path filter operators leafOk
  rw [fieldHolds, leaf]
  simp only [leaf_operators_compiled filter operators path leafOk]
  rw [← written, entryUnlessEmpty]
  by_cases none : operators.isEmpty = true
  · simp [none, documentHolds]
  · rw [if_neg none, document_holds_path judge path base operators held spells inside,
      condition_holds_native judge operators _ native]
    simp [none]

theorem presence_entry_holds (path : String) (base : List String) (required : Option Bool) (held : Option Json)
    (spells : DotPath.Spells path base) (inside : base ≠ []) :
    documentHolds judge (entryUnlessEmpty path (presenceEntries required)) held =
      required.all (fun value => (Json.descend base held).isSome == value) := by
  cases required with
  | none => simp [presenceEntries, entryUnlessEmpty, documentHolds]
  | some value =>
      simp only [presenceEntries, entryUnlessEmpty, Option.map_some, Option.toList_some,
        List.isEmpty_cons, Bool.false_eq_true, if_false]
      rw [document_holds_path judge path base _ held spells inside]
      simp [conditionHolds, presenceHolds]

mutual
theorem field_meaning (schema : Schema) (plain : schema.HasPlainNames) (field : Field) (path : String)
    (base : List String) (filter : Json) (entries : Members) (held : Option Json)
    (spells : DotPath.Spells path base) (inside : base ≠ []) (unique : filter.UniqueKeys)
    (compiled : (fieldEntries schema field path filter).result = .ok entries) :
    documentHolds judge entries held = fieldHolds schema judge field filter (Json.descend base held) := by
  cases filter with
  | null =>
      rw [fieldEntries, Outcome.result_pure] at compiled
      simp [← compiled, documentHolds, fieldHolds]
  | obj filter =>
      cases kind : field.type.composite? with
      | none => exact leaf_field_meaning judge schema field path base filter entries held spells inside kind compiled
      | some id =>
          obtain ⟨required, composite, inner, asked, found, innerOk, written⟩ :=
            (field_entries_composite schema field path filter entries id kind).mp compiled
          have declared := schema.composite_mem id composite found
          have answer := presence_meaning filter path required
          rw [fieldHolds, kind]
          simp only [found]
          rw [← written]
          by_cases listed : field.type.isList = true
          · have asks := nested_entries_empty schema plain composite _ filter inner declared unique.1 unique.2 innerOk
            rw [← presence_given filter path required asked] at asks
            rw [if_pos listed] at innerOk
            -- An element meets the conditions relative to itself, the filter as a document of its own.
            have element : ∀ item, documentHolds judge (presenceEntries required ++ inner) (some item) =
                nestedHolds schema judge composite filter (some item) := by
              intro item
              rw [document_holds_append, presence_entries_hold, answer (some item) asked, Bool.and_comm]
              exact nested_meaning schema plain composite "" [] filter inner (some item) declared rfl unique.1
                unique.2 innerOk
            rw [if_pos listed, if_pos listed,
              element_document schema plain composite filter inner required declared unique.1 unique.2 innerOk,
              elementEntries, asks]
            by_cases empty : (presenceEntries required ++ inner).isEmpty = true
            · cases required <;> cases inner <;> simp [presenceEntries, documentHolds] at empty ⊢
            · have asked : (required.isSome || !inner.isEmpty) = true := by
                cases required <;> cases inner <;> simp [presenceEntries] at empty ⊢
              rw [if_neg empty, document_holds_path judge path base _ held spells inside, asked]
              simp only [conditionHolds, Bool.not_true, Bool.false_or]
              cases Json.descend base held with
              | none => simp [elementHolds]
              | some value =>
                  cases value <;> simp [elementHolds, element]
          · rw [if_neg listed] at innerOk
            rw [if_neg listed, if_neg listed, document_holds_append,
              ← nested_meaning schema plain composite path base filter inner held declared spells unique.1 unique.2
                innerOk, ← answer (Json.descend base held) asked, Bool.and_comm,
              presence_entry_holds judge path base required held spells inside]
  | _ => simp [fieldEntries, Outcome.result_fail] at compiled
termination_by structural filter
theorem nested_meaning (schema : Schema) (plain : schema.HasPlainNames) (composite : Composite) (path : String)
    (base : List String) (filter entries : Members) (held : Option Json)
    (declared : composite ∈ schema.composites) (spells : DotPath.Spells path base)
    (different : (Members.keys filter).Nodup) (unique : Json.MembersUnique filter)
    (compiled : (objectEntries schema composite .nested path filter).result = .ok entries) :
    (documentHolds judge entries held && oprAnswer filter (Json.descend base held)) =
      nestedHolds schema judge composite filter (Json.descend base held) := by
  cases filter with
  | nil =>
      rw [object_entries_nil] at compiled
      simp [compiled, documentHolds, nestedHolds, oprAnswer, Members.get?]
  | cons member rest =>
      rcases member with ⟨key, filter⟩
      have parts := List.nodup_cons.mp different
      obtain ⟨first, others, firstOk, othersOk, whole⟩ :=
        (object_entries_cons schema composite .nested path key filter rest entries).mp compiled
      have later := nested_meaning schema plain composite path base rest others held declared spells parts.2 unique.2
        othersOk
      rw [nestedHolds, ← later, ← whole, document_holds_append]
      rcases firstOk with ⟨reserved, rfl⟩ | ⟨free, field, found, fieldOk⟩
      · have same := (nested_reserves key).mp reserved
        subst same
        have absent := (Members.get?_eq_none "opr" rest).mpr parts.1
        simp [oprAnswer, Members.get?, absent, documentHolds, Bool.and_comm]
      · have other : key ≠ "opr" := fun same => by simp [(nested_reserves key).mpr same] at free
        have plainKey := schema.plain_field_name plain composite declared key field found
        rw [field_meaning schema plain field _ (base ++ [key]) filter first held
          (DotPath.spells_under path key base spells plainKey.1) (by simp) unique.1 fieldOk, Json.descend_one,
          if_neg other, found]
        simp [oprAnswer, Members.get?, other, Bool.and_assoc]
termination_by structural filter
end

end DocGraph.Filter
