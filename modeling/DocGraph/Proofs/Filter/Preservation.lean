import DocGraph.Proofs.Filter.Nested

set_option autoImplicit false

namespace DocGraph

namespace Combinator

theorem ofNative?_native (combinator : Combinator) : ofNative? combinator.native = some combinator := by
  cases combinator <;> decide

theorem native_head (combinator : Combinator) : combinator.native.toList.head? = some '$' := by
  cases combinator <;> decide

theorem native_injective (a b : Combinator) (same : a.native = b.native) : a = b := by
  have found := ofNative?_native a
  rw [same, ofNative?_native] at found
  exact (Option.some.inj found).symm

end Combinator

namespace Filter

variable (judge : Members → Option Json → Bool)

def combinatorsAnswer (schema : Schema) (composite : Composite) (filter : Members) (held : Option Json) : Bool :=
  Combinator.all.all (fun combinator =>
    (Members.get? combinator.word filter).all (fun value =>
      combinatorHolds schema judge composite combinator value held))

theorem combinators_answer_field (schema : Schema) (composite : Composite) (key : String) (value : Json)
    (rest : Members) (held : Option Json) (field : Combinator.ofWord? key = none) :
    combinatorsAnswer judge schema composite ((key, value) :: rest) held =
      combinatorsAnswer judge schema composite rest held := by
  have other : ∀ combinator : Combinator, Members.get? combinator.word ((key, value) :: rest) =
      Members.get? combinator.word rest := by
    intro combinator
    rw [Members.get?, if_neg ((Combinator.ofWord?_eq_none key).mp field combinator)]
  simp only [combinatorsAnswer, other]

theorem combinators_answer_word (schema : Schema) (composite : Composite) (combinator : Combinator) (value : Json)
    (rest : Members) (held : Option Json) (fresh : combinator.word ∉ Members.keys rest) :
    combinatorsAnswer judge schema composite ((combinator.word, value) :: rest) held =
      (combinatorHolds schema judge composite combinator value held &&
        combinatorsAnswer judge schema composite rest held) := by
  have absent := (Members.get?_eq_none combinator.word rest).mpr fresh
  cases combinator with
  | or =>
      have absent : Members.get? "OR" rest = none := absent
      simp [combinatorsAnswer, Combinator.all, Combinator.word, Members.get?, absent]
  | and =>
      have absent : Members.get? "AND" rest = none := absent
      simp [combinatorsAnswer, Combinator.all, Combinator.word, Members.get?, absent, Bool.and_left_comm]
  | nor =>
      have absent : Members.get? "NOR" rest = none := absent
      simp [combinatorsAnswer, Combinator.all, Combinator.word, Members.get?, absent, Bool.and_assoc,
        Bool.and_comm]

theorem root_fields_meaning (schema : Schema) (plain : schema.HasPlainNames) (composite : Composite)
    (filter entries : Members) (held : Option Json) (declared : composite ∈ schema.composites)
    (different : (Members.keys filter).Nodup) (unique : Json.MembersUnique filter)
    (compiled : (objectEntries schema composite .root "" filter).result = .ok entries) :
    (documentHolds judge entries held && combinatorsAnswer judge schema composite filter held) =
      rootHolds schema judge composite filter held := by
  induction filter generalizing entries with
  | nil =>
      rw [object_entries_nil] at compiled
      simp [compiled, documentHolds, rootHolds, combinatorsAnswer, Members.get?]
  | cons member rest ih =>
      rcases member with ⟨key, filter⟩
      have parts := List.nodup_cons.mp different
      obtain ⟨first, others, firstOk, othersOk, whole⟩ :=
        (object_entries_cons schema composite .root "" key filter rest entries).mp compiled
      rw [rootHolds, ← ih others parts.2 unique.2 othersOk, ← whole, document_holds_append]
      rcases firstOk with ⟨reserved, rfl⟩ | ⟨free, field, found, fieldOk⟩
      · obtain ⟨combinator, word⟩ := Option.isSome_iff_exists.mp reserved
        have same := (Combinator.ofWord?_eq_some key combinator).mp word
        subst same
        rw [word, combinators_answer_word judge schema composite combinator filter rest held parts.1]
        simp [documentHolds, Bool.and_left_comm]
      · have word : Combinator.ofWord? key = none := by simpa [Level.reserves] using free
        have plainKey := schema.plain_field_name plain composite declared key field found
        have spells : DotPath.Spells (DotPath.under "" key) [key] :=
          DotPath.spells_under "" key [] rfl plainKey.1
        rw [word, combinators_answer_field judge schema composite key filter rest held word,
          field_meaning judge schema plain field _ [key] filter first held spells (by simp) unique.1 fieldOk, found]
        simp [Json.descend, Bool.and_assoc]

theorem combined_entry_keys (schema : Schema) (type : CompositeIndex) (combinator : Combinator) (value : Json)
    (entries : Members) (compiled : (combinedEntry schema type combinator value).result = .ok entries) :
    entries = [] ∨ ∃ documents, entries = [(combinator.native, .arr documents)] := by
  cases value with
  | null =>
      rw [combinedEntry, Outcome.result_pure] at compiled
      exact .inl compiled.symm
  | arr filters =>
      rw [combinedEntry, Outcome.result_bind] at compiled
      obtain ⟨documents, _, written⟩ := compiled
      rw [Outcome.result_pure] at written
      rw [← written]
      split
      · exact .inl rfl
      · exact .inr ⟨documents, rfl⟩
  | _ => simp [combinedEntry, Outcome.result_fail] at compiled

theorem combined_keys (schema : Schema) (type : CompositeIndex) (combinator : Combinator) (filter entries : Members)
    (compiled : (combined schema type combinator filter).result = .ok entries) :
    (Members.keys entries).Nodup ∧ ∀ key ∈ Members.keys entries, key = combinator.native := by
  rw [combined_given] at compiled
  cases given : Members.get? combinator.word filter with
  | none =>
      rw [given, Outcome.result_pure] at compiled
      simp [← compiled, Members.keys]
  | some value =>
      rw [given] at compiled
      rcases combined_entry_keys schema type combinator value entries compiled with rfl | ⟨documents, rfl⟩ <;>
        simp [Members.keys]

theorem assembled_ok (schema : Schema) (type : CompositeIndex) (filter document : Members)
    (combine : Combinator → Outcome Members) :
    (assembled schema type filter combine).result = .ok document ↔
      ∃ composite fields or and nor, schema.composite type = .ok composite ∧
        (objectEntries schema composite .root "" filter).result = .ok fields ∧
        (combine .or).result = .ok or ∧ (combine .and).result = .ok and ∧ (combine .nor).result = .ok nor ∧
        Members.ofEntries (fields ++ or ++ and ++ nor) = document := by
  simp [assembled, Outcome.result_bind, Outcome.result_pure, Outcome.result_lift]

theorem root_entries_unique (schema : Schema) (plain : schema.HasPlainNames) (composite : Composite)
    (type : CompositeIndex) (filter fields or and nor : Members) (declared : composite ∈ schema.composites)
    (different : (Members.keys filter).Nodup) (unique : Json.MembersUnique filter)
    (fieldsOk : (objectEntries schema composite .root "" filter).result = .ok fields)
    (orOk : (combined schema type .or filter).result = .ok or)
    (andOk : (combined schema type .and filter).result = .ok and)
    (norOk : (combined schema type .nor filter).result = .ok nor) :
    (Members.keys (fields ++ or ++ and ++ nor)).Nodup := by
  have fieldsUnique := object_entries_unique schema plain composite .root "" [] filter fields declared rfl different
    unique fieldsOk
  have apart : ∀ combinator : Combinator, combinator.native ∉ Members.keys fields := by
    intro combinator member
    obtain ⟨name, _, plainName, lies⟩ := object_entries_lie schema plain composite .root "" [] filter fields
      declared rfl fieldsOk combinator.native member
    exact lies_at_head name combinator.native plainName lies combinator.native_head
  obtain ⟨orUnique, orKeys⟩ := combined_keys schema type .or filter or orOk
  obtain ⟨andUnique, andKeys⟩ := combined_keys schema type .and filter and andOk
  obtain ⟨norUnique, norKeys⟩ := combined_keys schema type .nor filter nor norOk
  simp only [Members.keys_append, List.nodup_append, List.mem_append]
  refine ⟨⟨⟨fieldsUnique, orUnique, ?_⟩, andUnique, ?_⟩, norUnique, ?_⟩
  · rintro key field other word rfl
    exact apart .or (orKeys key word ▸ field)
  · rintro key (field | word) other later rfl
    · exact apart .and (andKeys key later ▸ field)
    · exact absurd (Combinator.native_injective _ _ ((orKeys key word).symm.trans (andKeys key later))) (by decide)
  · rintro key ((field | word) | word) other later rfl
    · exact apart .nor (norKeys key later ▸ field)
    · exact absurd (Combinator.native_injective _ _ ((orKeys key word).symm.trans (norKeys key later))) (by decide)
    · exact absurd (Combinator.native_injective _ _ ((andKeys key word).symm.trans (norKeys key later))) (by decide)

theorem documents_hold_single (combinator : Combinator) (documents : List Json) (held : Option Json) :
    documentHolds judge [(combinator.native, .arr documents)] held =
      combinator.joins (documentsHold judge documents held) := by
  rw [documentHolds, documentHolds, entryHolds, Combinator.ofNative?_native, Option.any_some, Bool.and_true]

theorem assembled_meaning (schema : Schema) (plain : schema.HasPlainNames) (composite : Composite)
    (type : CompositeIndex) (filter document : Members) (held : Option Json)
    (found : schema.composite type = .ok composite) (different : (Members.keys filter).Nodup)
    (unique : Json.MembersUnique filter)
    (combine : ∀ combinator entries, (combined schema type combinator filter).result = .ok entries →
      documentHolds judge entries held = (Members.get? combinator.word filter).all (fun value =>
        combinatorHolds schema judge composite combinator value held))
    (compiled : (objectDocument schema type filter).result = .ok document) :
    documentHolds judge document held = rootHolds schema judge composite filter held := by
  obtain ⟨compositeHere, fields, or, and, nor, foundHere, fieldsOk, orOk, andOk, norOk, built⟩ :=
    (assembled_ok schema type filter document _).mp compiled
  have same : compositeHere = composite := Except.ok.inj (foundHere.symm.trans found)
  subst same
  have declared := schema.composite_mem type compositeHere found
  rw [← built, Members.of_entries_unique _ (root_entries_unique schema plain compositeHere type filter fields or and
      nor declared different unique fieldsOk orOk andOk norOk),
    ← root_fields_meaning judge schema plain compositeHere filter fields held declared different unique fieldsOk]
  simp only [document_holds_append, combine .or or orOk, combine .and and andOk, combine .nor nor norOk,
    combinatorsAnswer, Combinator.all, List.all_cons, List.all_nil, Bool.and_true, Bool.and_assoc]

mutual
theorem combined_meaning (schema : Schema) (plain : schema.HasPlainNames) (composite : Composite)
    (type : CompositeIndex) (combinator : Combinator) (filter entries : Members) (held : Option Json)
    (found : schema.composite type = .ok composite) (unique : Json.MembersUnique filter)
    (compiled : (combined schema type combinator filter).result = .ok entries) :
    documentHolds judge entries held = (Members.get? combinator.word filter).all (fun value =>
      combinatorHolds schema judge composite combinator value held) := by
  cases filter with
  | nil =>
      rw [combined, Outcome.result_pure] at compiled
      simp [← compiled, documentHolds, Members.get?]
  | cons member rest =>
      rcases member with ⟨key, value⟩
      rw [combined] at compiled
      by_cases same : key = combinator.word
      · rw [if_pos same] at compiled
        rw [Members.get?, if_pos same, Option.all_some]
        exact combined_entry_meaning schema plain composite type combinator value entries held found unique.1 compiled
      · rw [if_neg same] at compiled
        rw [Members.get?, if_neg same]
        exact combined_meaning schema plain composite type combinator rest entries held found unique.2 compiled
termination_by structural filter
theorem combined_entry_meaning (schema : Schema) (plain : schema.HasPlainNames) (composite : Composite)
    (type : CompositeIndex) (combinator : Combinator) (value : Json) (entries : Members) (held : Option Json)
    (found : schema.composite type = .ok composite) (unique : value.UniqueKeys)
    (compiled : (combinedEntry schema type combinator value).result = .ok entries) :
    documentHolds judge entries held = combinatorHolds schema judge composite combinator value held := by
  cases value with
  | null =>
      rw [combinedEntry, Outcome.result_pure] at compiled
      simp [← compiled, documentHolds, combinatorHolds]
  | arr filters =>
      rw [combinedEntry, Outcome.result_bind] at compiled
      obtain ⟨documents, documentsOk, written⟩ := compiled
      rw [Outcome.result_pure] at written
      obtain ⟨empty, answers⟩ :=
        combined_list_meaning schema plain composite type combinator filters documents held found unique documentsOk
      rw [combinatorHolds, ← written, ← answers, ← empty]
      by_cases none : documents.isEmpty = true
      · simp [none, documentHolds]
      · rw [if_neg none, documents_hold_single]
        simp [none]
  | _ => simp [combinedEntry, Outcome.result_fail] at compiled
termination_by structural value
theorem combined_list_meaning (schema : Schema) (plain : schema.HasPlainNames) (composite : Composite)
    (type : CompositeIndex) (combinator : Combinator) (filters documents : List Json) (held : Option Json)
    (found : schema.composite type = .ok composite) (unique : Json.ElementsUnique filters)
    (compiled : (combinedList schema type combinator filters).result = .ok documents) :
    documents.isEmpty = filters.isEmpty ∧
      documentsHold judge documents held = filtersHold schema judge composite filters held := by
  cases filters with
  | nil =>
      rw [combinedList, Outcome.result_pure] at compiled
      simp [← compiled, documentsHold, filtersHold]
  | cons filter rest =>
      rw [combinedList, Outcome.result_bind] at compiled
      obtain ⟨first, firstOk, compiled⟩ := compiled
      rw [Outcome.result_bind] at compiled
      obtain ⟨others, othersOk, written⟩ := compiled
      rw [Outcome.result_pure] at written
      have later := combined_list_meaning schema plain composite type combinator rest others held found unique.2
        othersOk
      cases filter with
      | obj filter =>
          rw [combinedItem, Outcome.result_bind] at firstOk
          obtain ⟨document, documentOk, made⟩ := firstOk
          rw [Outcome.result_pure] at made
          have here := assembled_meaning judge schema plain composite type filter document held found unique.1.1
            unique.1.2 (fun inner entries => combined_meaning schema plain composite type inner filter entries held
              found unique.1.2) documentOk
          simp [← written, ← made, documentsHold, filtersHold, here, later.2]
      | _ => simp [combinedItem, Outcome.result_fail] at firstOk
termination_by structural filters
end

-- A compiled filter holds of a document exactly when the filter does, whatever the operators of
-- leaves are taken to mean.
theorem compiled_filter_keeps_meaning (schema : Schema) (plain : schema.HasPlainNames) (type : CompositeIndex)
    (filter : Option Json) (document : Members) (value : Json) (unique : ∀ given ∈ filter, given.UniqueKeys)
    (compiled : (Filter.document schema type filter).result = .ok document) :
    documentHolds judge document (some value) = holds schema judge type filter value := by
  cases filter with
  | none =>
      simp only [Filter.document, Option.bind_none, Outcome.result_pure] at compiled
      simp [← compiled, documentHolds, holds]
  | some given =>
      cases given with
      | null =>
          simp only [Filter.document, Option.bind_some, Json.nonNull?, Outcome.result_pure] at compiled
          simp [← compiled, documentHolds, holds]
      | obj filter =>
          simp only [Filter.document, Option.bind_some, Json.nonNull?] at compiled
          obtain ⟨composite, _, _, _, _, found, _⟩ := (assembled_ok schema type filter document _).mp compiled
          have keys := unique (.obj filter) rfl
          simp only [holds, found]
          exact assembled_meaning judge schema plain composite type filter document (some value) found keys.1 keys.2
            (fun inner entries => combined_meaning judge schema plain composite type inner filter entries (some value)
              found keys.2) compiled
      | _ => simp [Filter.document, Json.nonNull?, Outcome.result_fail] at compiled

def gates : Schema where
  composites := [{
    name := "Gate"
    kind := .object
    fields := [
      { name := "opr", type := .scalar .string },
      { name := "OR", type := .scalar .int },
      { name := "inner", type := .named (.composite .object ⟨0⟩) },
      { name := "row", type := .list (.named (.composite .object ⟨0⟩)) }] }]

def gateFilter : Members := [
  ("opr", .obj [("EQ", .str "open")]),
  ("inner", .obj [("opr", .str "exists"), ("OR", .obj [("GT", Json.int 1)])]),
  ("row", .obj [("opr", .str "EXISTS"), ("inner", .obj [("OR", .obj [("NE", .null)])])]),
  ("NOR", .arr [.obj [("OR", .arr [.obj [("opr", .obj [("EQ", .str "shut")])]])]])]

def gateDocument : Members := [
  ("opr", .obj [("$eq", .str "open")]),
  ("inner", .obj [("$exists", .bool true)]),
  ("inner.OR", .obj [("$gt", Json.int 1)]),
  ("row", .obj [("$elemMatch", .obj [("$exists", .bool true), ("inner.OR", .obj [("$ne", .null)])])]),
  ("$nor", .arr [.obj [("$or", .arr [.obj [("opr", .obj [("$eq", .str "shut")])]])]])]

def openGate : Json := .obj [
  ("opr", .str "open"),
  ("inner", .obj [("OR", Json.int 2)]),
  ("row", .arr [.null, .obj [("inner", .obj [("OR", Json.int 3)])]])]

def sameText (operators : Members) (held : Option Json) : Bool :=
  match operators, held with
  | [(_, .str expected)], some (.str found) => expected == found
  | _, _ => held.isSome

theorem gate_filter_keeps_meaning :
    gates.HasPlainNames ∧ (∀ given ∈ some (Json.obj gateFilter), given.UniqueKeys) ∧
      (Filter.document gates ⟨0⟩ (some (.obj gateFilter))).result = .ok gateDocument ∧
      documentHolds sameText gateDocument (some openGate) = true ∧
      holds gates sameText ⟨0⟩ (some (.obj gateFilter)) openGate = true := by
  have plain : gates.HasPlainNames := by decide
  have unique : ∀ given ∈ some (Json.obj gateFilter), given.UniqueKeys := by
    rintro given ⟨⟩
    simp [gateFilter, Json.UniqueKeys, Json.MembersUnique, Json.ElementsUnique, Members.keys, Json.int]
  have compiled : (Filter.document gates ⟨0⟩ (some (.obj gateFilter))).result = .ok gateDocument := rfl
  have met : documentHolds sameText gateDocument (some openGate) = true := by decide
  exact ⟨plain, unique, compiled, met,
    (compiled_filter_keeps_meaning sameText gates plain ⟨0⟩ _ gateDocument openGate unique compiled) ▸ met⟩

end Filter

end DocGraph
