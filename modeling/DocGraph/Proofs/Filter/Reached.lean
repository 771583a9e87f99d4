import DocGraph.Proofs.Filter.Entries
import DocGraph.Proofs.Notice

set_option autoImplicit false

namespace DocGraph

namespace LeafFilter

def Deprecated (filter : Members) : Prop := ∃ key ∈ ["opr", "value", "values", "NEQ"], key ∈ Members.keys filter

theorem uses_deprecated_iff (filter : Members) : usesDeprecated filter = true ↔ Deprecated filter := by
  unfold usesDeprecated isDeprecatedKey Deprecated
  simp only [List.any_eq_true, Bool.or_eq_true, beq_iff_eq, or_assoc, List.mem_cons, List.not_mem_nil, or_false,
    Members.keys, List.mem_map]
  constructor
  · rintro ⟨entry, member, key⟩
    exact ⟨entry.1, key, entry, member, rfl⟩
  · rintro ⟨_, key, entry, member, rfl⟩
    exact ⟨entry, member, key⟩

theorem document_raises (filter : Members) (path : String) :
    .deprecatedLeafFilter ∈ (document filter path).raised ↔ Deprecated filter := by
  have silent (modern : Members) :
      .deprecatedLeafFilter ∈ (liftM (modernDocument modern path) : Outcome Members).raised ↔ False :=
    iff_of_false List.not_mem_nil id
  unfold document
  rw [Outcome.mem_raised_then _ _ _ _ silent, ← uses_deprecated_iff, and_false, or_false]
  unfold modern
  cases usesDeprecated filter with
  | true =>
      rw [if_pos rfl, Outcome.mem_raised_bind]
      exact iff_of_true (.inl (List.mem_singleton.mpr rfl)) rfl
  | false => simp [pure, Outcome.ok]

end LeafFilter

namespace Filter

mutual
inductive FieldReaches (schema : Schema) : Field → String → Json → Members → Prop where
  | leaf (field : Field) (path : String) (filter : Members) (plain : field.type.composite? = none) :
      FieldReaches schema field path (.obj filter) filter
  | nested (field : Field) (path : String) (filter leaf : Members) (id : CompositeIndex) (required : Option Bool)
      (composite : Composite) (refers : field.type.composite? = some id) (asked : presence filter path = .ok required)
      (found : schema.composite id = .ok composite)
      (inside : ObjectReaches schema composite .nested (if field.type.isList then "" else path) filter leaf) :
      FieldReaches schema field path (.obj filter) leaf
inductive ObjectReaches (schema : Schema) : Composite → Level → String → Members → Members → Prop where
  | entry (composite : Composite) (level : Level) (path key : String) (members before rest leaf : Members) (value : Json)
      (field : Field) (placed : members = before ++ (key, value) :: rest)
      (earlier : (objectEntries schema composite level path before).Succeeds) (plain : level.reserves key = false)
      (found : composite.field? key = some field)
      (inside : FieldReaches schema field (DotPath.under path key) value leaf) :
      ObjectReaches schema composite level path members leaf
end

-- The leaf filters that are reached in a filter. Combinators are compiled in the order in which they are listed.
inductive FilterReaches (schema : Schema) (type : CompositeIndex) : Members → Members → Prop where
  | fields (composite : Composite) (filter leaf : Members) (found : schema.composite type = .ok composite)
      (inside : ObjectReaches schema composite .root "" filter leaf) : FilterReaches schema type filter leaf
  | joined (composite : Composite) (filter inner leaf : Members) (combinator : Combinator) (before rest : List Json)
      (found : schema.composite type = .ok composite)
      (fields : (objectEntries schema composite .root "" filter).Succeeds)
      (earlier : ∀ other ∈ Combinator.all.takeWhile (· != combinator), (combined schema type other filter).Succeeds)
      (given : Members.get? combinator.word filter = some (.arr (before ++ .obj inner :: rest)))
      (listed : (combinedList schema type combinator before).Succeeds) (inside : FilterReaches schema type inner leaf) :
      FilterReaches schema type filter leaf

def Reaches (schema : Schema) (type : CompositeIndex) (filter : Option Json) (leaf : Members) : Prop :=
  ∃ members, filter = some (.obj members) ∧ FilterReaches schema type members leaf

variable (schema : Schema)

theorem reaches_within (type : CompositeIndex) (filter leaf : Members) (reached : FilterReaches schema type filter leaf) :
    ∃ composite, schema.composite type = .ok composite := by
  cases reached with
  | fields composite _ _ found _ => exact ⟨composite, found⟩
  | joined composite _ _ _ _ _ _ found _ _ _ _ _ => exact ⟨composite, found⟩

def keyEntries (composite : Composite) (level : Level) (path key : String) (filter : Json) : Outcome Members :=
  if level.reserves key then pure []
  else do
    let field ← composite.field key
    fieldEntries schema field (DotPath.under path key) filter

theorem object_entries_head (composite : Composite) (level : Level) (path key : String) (filter : Json) (rest : Members) :
    objectEntries schema composite level path ((key, filter) :: rest) =
      keyEntries schema composite level path key filter >>= fun first =>
        objectEntries schema composite level path rest >>= fun others => pure (first ++ others) := by
  rw [objectEntries, keyEntries]
  cases level.reserves key with
  | true => rfl
  | false => cases composite.field key <;> rfl

theorem object_entries_succeed (composite : Composite) (level : Level) (path key : String) (filter : Json)
    (rest : Members) : (objectEntries schema composite level path ((key, filter) :: rest)).Succeeds ↔
      (keyEntries schema composite level path key filter).Succeeds ∧
        (objectEntries schema composite level path rest).Succeeds := by
  unfold Outcome.Succeeds
  rw [object_entries_head]
  simp only [Outcome.result_bind, Outcome.result_pure]
  constructor
  · rintro ⟨_, first, here, others, later, _⟩
    exact ⟨⟨first, here⟩, others, later⟩
  · rintro ⟨⟨first, here⟩, others, later⟩
    exact ⟨_, first, here, others, later, rfl⟩

theorem object_reaches_cons (composite : Composite) (level : Level) (path key : String) (filter : Json)
    (rest leaf : Members) : ObjectReaches schema composite level path ((key, filter) :: rest) leaf ↔
      (level.reserves key = false ∧ ∃ field, composite.field? key = some field ∧
        FieldReaches schema field (DotPath.under path key) filter leaf) ∨
      (keyEntries schema composite level path key filter).Succeeds ∧ ObjectReaches schema composite level path rest leaf := by
  constructor
  · intro reached
    cases reached with
    | entry _ _ _ name _ before behind _ value field placed earlier plain found inside =>
        cases before with
        | nil =>
            cases placed
            exact .inl ⟨plain, field, found, inside⟩
        | cons head before =>
            cases placed
            obtain ⟨here, earlier⟩ := (object_entries_succeed schema composite level path key filter before).mp earlier
            exact .inr ⟨here, .entry _ _ _ name _ before behind _ value field rfl earlier plain found inside⟩
  · rintro (⟨plain, field, found, inside⟩ | ⟨here, reached⟩)
    · exact .entry _ _ _ key _ [] rest _ filter field rfl ⟨[], rfl⟩ plain found inside
    · cases reached with
      | entry _ _ _ name _ before behind _ value field placed earlier plain found inside =>
          have earlier := (object_entries_succeed schema composite level path key filter before).mpr ⟨here, earlier⟩
          exact .entry _ _ _ name _ ((key, filter) :: before) behind _ value field (congrArg _ placed) earlier plain found
            inside

theorem key_entries_raise (composite : Composite) (level : Level) (path key : String) (filter : Json) (notice : Notice) :
    notice ∈ (keyEntries schema composite level path key filter).raised ↔
      level.reserves key = false ∧ ∃ field, composite.field? key = some field ∧
        notice ∈ (fieldEntries schema field (DotPath.under path key) filter).raised := by
  unfold keyEntries
  cases level.reserves key with
  | true => simp [pure, Outcome.ok]
  | false => simp [Outcome.mem_raised_lift_bind, Composite.field_ok]

theorem field_entries_raise (field : Field) (path : String) (filter : Members) (id : CompositeIndex) (notice : Notice)
    (refers : field.type.composite? = some id) :
    notice ∈ (fieldEntries schema field path (.obj filter)).raised ↔
      ∃ required composite, presence filter path = .ok required ∧ schema.composite id = .ok composite ∧
        notice ∈ (objectEntries schema composite .nested (if field.type.isList then "" else path) filter).raised := by
  rw [fieldEntries, refers]
  simp only [Outcome.mem_raised_lift_bind]
  cases field.type.isList with
  | true => simp [Outcome.raised_return]
  | false => simp [Outcome.raised_return]

mutual
theorem field_raises (field : Field) (path : String) (filter : Json) :
    .deprecatedLeafFilter ∈ (fieldEntries schema field path filter).raised ↔
      ∃ leaf, FieldReaches schema field path filter leaf ∧ LeafFilter.Deprecated leaf := by
  cases filter with
  | obj members =>
      cases refers : field.type.composite? with
      | none =>
          rw [fieldEntries, refers]
          simp only [Outcome.raised_return]
          rw [LeafFilter.document_raises]
          constructor
          · exact fun deprecated => ⟨members, .leaf field path members refers, deprecated⟩
          · rintro ⟨leaf, reached, deprecated⟩
            cases reached with
            | leaf => exact deprecated
            | nested _ _ _ _ id _ _ other => cases refers.symm.trans other
      | some id =>
          rw [field_entries_raise schema field path members id _ refers]
          constructor
          · rintro ⟨required, composite, asked, found, raised⟩
            obtain ⟨leaf, inside, deprecated⟩ := (object_raises composite .nested _ members).mp raised
            exact ⟨leaf, .nested field path members leaf id required composite refers asked found inside, deprecated⟩
          · rintro ⟨leaf, reached, deprecated⟩
            cases reached with
            | leaf _ _ _ plain => cases refers.symm.trans plain
            | nested _ _ _ _ other required composite again asked found inside =>
                cases refers.symm.trans again
                exact ⟨required, composite, asked, found, (object_raises composite .nested _ members).mpr
                  ⟨leaf, inside, deprecated⟩⟩
  | _ => exact iff_of_false (by simp [fieldEntries, pure, Outcome.ok, Outcome.fail]) (by rintro ⟨_, ⟨⟩, _⟩)
termination_by structural filter
theorem object_raises (composite : Composite) (level : Level) (path : String) (members : Members) :
    .deprecatedLeafFilter ∈ (objectEntries schema composite level path members).raised ↔
      ∃ leaf, ObjectReaches schema composite level path members leaf ∧ LeafFilter.Deprecated leaf := by
  cases members with
  | nil =>
      refine iff_of_false (by simp [objectEntries, pure, Outcome.ok]) ?_
      rintro ⟨leaf, ⟨_, _, _, _, _, before, _, _, _, _, placed, _⟩, _⟩
      simp at placed
  | cons entry rest =>
      rcases entry with ⟨key, filter⟩
      have here (field : Field) := field_raises field (DotPath.under path key) filter
      have later := object_raises composite level path rest
      have follows (first : Members) : .deprecatedLeafFilter ∈ (objectEntries schema composite level path rest >>=
          fun others => pure (first ++ others)).raised ↔
            ∃ leaf, ObjectReaches schema composite level path rest leaf ∧ LeafFilter.Deprecated leaf := by
        rw [Outcome.raised_return]
        exact later
      rw [object_entries_head, Outcome.mem_raised_then _ _ _ _ follows, key_entries_raise]
      simp only [here, object_reaches_cons]
      constructor
      · rintro (⟨plain, field, found, leaf, inside, deprecated⟩ | ⟨compiled, leaf, reached, deprecated⟩)
        · exact ⟨leaf, .inl ⟨plain, field, found, inside⟩, deprecated⟩
        · exact ⟨leaf, .inr ⟨compiled, reached⟩, deprecated⟩
      · rintro ⟨leaf, ⟨plain, field, found, inside⟩ | ⟨compiled, reached⟩, deprecated⟩
        · exact .inl ⟨plain, field, found, leaf, inside, deprecated⟩
        · exact .inr ⟨compiled, leaf, reached, deprecated⟩
termination_by structural members
end

def ListReaches (type : CompositeIndex) (combinator : Combinator) (items : List Json) (leaf : Members) : Prop :=
  ∃ before inner rest, items = before ++ .obj inner :: rest ∧ (combinedList schema type combinator before).Succeeds ∧
    FilterReaches schema type inner leaf

def CombinedReaches (type : CompositeIndex) (combinator : Combinator) (filter leaf : Members) : Prop :=
  ∃ items, Members.get? combinator.word filter = some (.arr items) ∧ ListReaches schema type combinator items leaf

theorem filter_reaches_iff (type : CompositeIndex) (composite : Composite) (filter leaf : Members)
    (found : schema.composite type = .ok composite) : FilterReaches schema type filter leaf ↔
      ObjectReaches schema composite .root "" filter leaf ∨ (objectEntries schema composite .root "" filter).Succeeds ∧
        (CombinedReaches schema type .or filter leaf ∨ (combined schema type .or filter).Succeeds ∧
          (CombinedReaches schema type .and filter leaf ∨ (combined schema type .and filter).Succeeds ∧
            CombinedReaches schema type .nor filter leaf)) := by
  have joins (combinator : Combinator) (fields : (objectEntries schema composite .root "" filter).Succeeds)
      (earlier : ∀ other ∈ Combinator.all.takeWhile (· != combinator), (combined schema type other filter).Succeeds)
      (reached : CombinedReaches schema type combinator filter leaf) : FilterReaches schema type filter leaf := by
    obtain ⟨_, given, before, inner, rest, rfl, listed, inside⟩ := reached
    exact .joined composite filter inner leaf combinator before rest found fields earlier given listed inside
  constructor
  · intro reached
    cases reached with
    | fields other _ _ again inside =>
        cases again.symm.trans found
        exact .inl inside
    | joined other _ inner _ combinator before rest again fields earlier given listed inside =>
        cases again.symm.trans found
        have reached : CombinedReaches schema type combinator filter leaf :=
          ⟨_, given, before, inner, rest, rfl, listed, inside⟩
        refine .inr ⟨fields, ?_⟩
        cases combinator with
        | or => exact .inl reached
        | and => exact .inr ⟨earlier .or (by decide), .inl reached⟩
        | nor => exact .inr ⟨earlier .or (by decide), .inr ⟨earlier .and (by decide), reached⟩⟩
  · rintro (inside | ⟨fields, or | ⟨passed, and | ⟨again, nor⟩⟩⟩)
    · exact .fields composite filter leaf found inside
    · exact joins .or fields (by simp [Combinator.all]) or
    · exact joins .and fields (by simp [Combinator.all, passed]) and
    · exact joins .nor fields (by simp [Combinator.all, passed, again]) nor

theorem list_reaches_cons (type : CompositeIndex) (combinator : Combinator) (item : Json) (rest : List Json)
    (leaf : Members) : ListReaches schema type combinator (item :: rest) leaf ↔
      (∃ inner, item = .obj inner ∧ FilterReaches schema type inner leaf) ∨
        (combinedItem schema type combinator item).Succeeds ∧ ListReaches schema type combinator rest leaf := by
  have succeeds (before : List Json) : (combinedList schema type combinator (item :: before)).Succeeds ↔
      (combinedItem schema type combinator item).Succeeds ∧ (combinedList schema type combinator before).Succeeds := by
    unfold Outcome.Succeeds
    rw [combinedList]
    simp only [Outcome.result_bind, Outcome.result_pure]
    constructor
    · rintro ⟨_, first, here, others, later, _⟩
      exact ⟨⟨first, here⟩, others, later⟩
    · rintro ⟨⟨first, here⟩, others, later⟩
      exact ⟨_, first, here, others, later, rfl⟩
  constructor
  · rintro ⟨before, inner, behind, placed, listed, inside⟩
    cases before with
    | nil =>
        cases placed
        exact .inl ⟨inner, rfl, inside⟩
    | cons head before =>
        cases placed
        obtain ⟨here, listed⟩ := (succeeds before).mp listed
        exact .inr ⟨here, before, inner, behind, rfl, listed, inside⟩
  · rintro (⟨inner, rfl, inside⟩ | ⟨here, before, inner, behind, rfl, listed, inside⟩)
    · exact ⟨[], inner, rest, rfl, ⟨[], rfl⟩, inside⟩
    · exact ⟨item :: before, inner, behind, rfl, (succeeds before).mpr ⟨here, listed⟩, inside⟩

theorem assembled_raises (type : CompositeIndex) (filter : Members)
    (each : ∀ combinator, .deprecatedLeafFilter ∈ (combined schema type combinator filter).raised ↔
      ∃ leaf, CombinedReaches schema type combinator filter leaf ∧ LeafFilter.Deprecated leaf) :
    .deprecatedLeafFilter ∈
        (assembled schema type filter (fun combinator => combined schema type combinator filter)).raised ↔
      ∃ leaf, FilterReaches schema type filter leaf ∧ LeafFilter.Deprecated leaf := by
  have last (write : Members → Members) : .deprecatedLeafFilter ∈
      (combined schema type .nor filter >>= fun nor => pure (write nor)).raised ↔
        ∃ leaf, CombinedReaches schema type .nor filter leaf ∧ LeafFilter.Deprecated leaf := by
    rw [Outcome.raised_return, each]
  unfold assembled
  rw [Outcome.mem_raised_lift_bind]
  cases found : schema.composite type with
  | error error =>
      refine iff_of_false (by simp) ?_
      rintro ⟨leaf, reached, _⟩
      obtain ⟨composite, again⟩ := reaches_within schema type filter leaf reached
      cases again.symm.trans found
  | ok composite =>
      have raises := Outcome.mem_raised_then (objectEntries schema composite .root "" filter) _ .deprecatedLeafFilter _
        fun fields => Outcome.mem_raised_then (combined schema type .or filter) _ _ _
          fun or => Outcome.mem_raised_then (combined schema type .and filter) _ _ _
            fun and => last (fun nor => Members.ofEntries (fields ++ or ++ and ++ nor))
      simp only [Except.ok.injEq, exists_eq_left', filter_reaches_iff schema type composite filter _ found]
      rw [raises, object_raises, each, each]
      simp only [or_and_right, exists_or, and_assoc, exists_and_left]

section

variable (type : CompositeIndex)

mutual
theorem combined_raises (combinator : Combinator) (filter : Members) :
    .deprecatedLeafFilter ∈ (combined schema type combinator filter).raised ↔
      ∃ leaf, CombinedReaches schema type combinator filter leaf ∧ LeafFilter.Deprecated leaf := by
  cases filter with
  | nil => exact iff_of_false (by simp [combined, pure, Outcome.ok]) (by rintro ⟨_, ⟨_, ⟨⟩, _⟩, _⟩)
  | cons entry rest =>
      rcases entry with ⟨key, value⟩
      by_cases same : key = combinator.word
      · rw [combined, if_pos same, combined_entry_raises combinator value]
        simp only [CombinedReaches, Members.get?, if_pos same, Option.some.injEq]
      · rw [combined, if_neg same, combined_raises combinator rest]
        simp only [CombinedReaches, Members.get?, if_neg same]
termination_by structural filter
theorem combined_entry_raises (combinator : Combinator) (value : Json) :
    .deprecatedLeafFilter ∈ (combinedEntry schema type combinator value).raised ↔
      ∃ leaf, (∃ items, value = .arr items ∧ ListReaches schema type combinator items leaf) ∧
        LeafFilter.Deprecated leaf := by
  cases value with
  | arr items =>
      rw [combinedEntry, Outcome.raised_return, combined_list_raises combinator items]
      simp only [Json.arr.injEq, exists_eq_left']
  | _ =>
      refine iff_of_false (by simp [combinedEntry, pure, Outcome.ok, Outcome.fail]) ?_
      rintro ⟨_, ⟨_, ⟨⟩, _⟩, _⟩
termination_by structural value
theorem combined_list_raises (combinator : Combinator) (items : List Json) :
    .deprecatedLeafFilter ∈ (combinedList schema type combinator items).raised ↔
      ∃ leaf, ListReaches schema type combinator items leaf ∧ LeafFilter.Deprecated leaf := by
  cases items with
  | nil =>
      refine iff_of_false (by simp [combinedList, pure, Outcome.ok]) ?_
      rintro ⟨_, ⟨before, _, _, placed, _⟩, _⟩
      simp at placed
  | cons item rest =>
      have follows (first : Json) : .deprecatedLeafFilter ∈ (combinedList schema type combinator rest >>=
          fun others => pure (first :: others)).raised ↔
            ∃ leaf, ListReaches schema type combinator rest leaf ∧ LeafFilter.Deprecated leaf := by
        rw [Outcome.raised_return, combined_list_raises combinator rest]
      rw [combinedList, Outcome.mem_raised_then _ _ _ _ follows, combined_item_raises combinator item]
      simp only [list_reaches_cons, or_and_right, exists_or, and_assoc, exists_and_left]
termination_by structural items
theorem combined_item_raises (combinator : Combinator) (item : Json) :
    .deprecatedLeafFilter ∈ (combinedItem schema type combinator item).raised ↔
      ∃ leaf, (∃ inner, item = .obj inner ∧ FilterReaches schema type inner leaf) ∧ LeafFilter.Deprecated leaf := by
  cases item with
  | obj filter =>
      rw [combinedItem, Outcome.raised_return,
        assembled_raises schema type filter (fun inner => combined_raises inner filter)]
      simp only [Json.obj.injEq, exists_eq_left']
  | _ =>
      refine iff_of_false (by simp [combinedItem, Outcome.fail]) ?_
      rintro ⟨_, ⟨_, ⟨⟩, _⟩, _⟩
termination_by structural item
end

theorem document_raises (filter : Option Json) : .deprecatedLeafFilter ∈ (document schema type filter).raised ↔
    ∃ leaf, Reaches schema type filter leaf ∧ LeafFilter.Deprecated leaf := by
  have nothing (silent : (document schema type filter).raised = []) (none : ∀ members, filter ≠ some (.obj members)) :
      .deprecatedLeafFilter ∈ (document schema type filter).raised ↔
        ∃ leaf, Reaches schema type filter leaf ∧ LeafFilter.Deprecated leaf := by
    rw [silent]
    refine iff_of_false List.not_mem_nil ?_
    rintro ⟨leaf, ⟨members, given, _⟩, _⟩
    exact none members given
  cases filter with
  | none => exact nothing rfl nofun
  | some value =>
      cases value with
      | obj members =>
          have same := assembled_raises schema type members (fun combinator => combined_raises schema type combinator members)
          refine same.trans ?_
          simp only [Reaches, Option.some.injEq, Json.obj.injEq, exists_eq_left']
      | _ => exact nothing rfl nofun

end

end Filter

end DocGraph
