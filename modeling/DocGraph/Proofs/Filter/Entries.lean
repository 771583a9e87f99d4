import DocGraph.Filter.Document
import DocGraph.Proofs.DotPath
import DocGraph.Proofs.Json.Members
import DocGraph.Proofs.Outcome
import DocGraph.Proofs.Schema.Names

set_option autoImplicit false

namespace DocGraph

namespace Combinator

theorem ofWord?_eq_some (text : String) (combinator : Combinator) :
    ofWord? text = some combinator ↔ text = combinator.word := by
  constructor
  · intro found
    have hit := List.find?_some found
    exact (eq_of_beq hit).symm
  · rintro rfl
    cases combinator <;> decide

theorem ofWord?_eq_none (text : String) :
    ofWord? text = none ↔ ∀ combinator : Combinator, text ≠ combinator.word := by
  rw [Option.eq_none_iff_forall_ne_some]
  simp only [ne_eq, ofWord?_eq_some]

end Combinator

namespace Filter

theorem combined_given (schema : Schema) (type : CompositeIndex) (combinator : Combinator) (filter : Members) :
    combined schema type combinator filter =
      match Members.get? combinator.word filter with
      | none => pure []
      | some value => combinedEntry schema type combinator value := by
  induction filter with
  | nil => simp [combined, Members.get?]
  | cons member rest ih =>
      rcases member with ⟨key, value⟩
      by_cases same : key = combinator.word <;> simp [combined, Members.get?, same, ih]

theorem object_entries_cons (schema : Schema) (composite : Composite) (level : Level) (path key : String)
    (filter : Json) (rest entries : Members) :
    (objectEntries schema composite level path ((key, filter) :: rest)).result = .ok entries ↔
      ∃ first others,
        (level.reserves key = true ∧ first = [] ∨ level.reserves key = false ∧
          ∃ field, composite.field? key = some field ∧
            (fieldEntries schema field (DotPath.under path key) filter).result = .ok first) ∧
        (objectEntries schema composite level path rest).result = .ok others ∧ first ++ others = entries := by
  rw [objectEntries]
  by_cases reserved : level.reserves key = true
  · simp [reserved, Outcome.result_bind, Outcome.result_pure]
  · simp only [reserved, Bool.false_eq_true, if_false, false_and, false_or, true_and, Outcome.result_bind,
      Outcome.result_pure, Outcome.result_lift, Composite.field_ok]
    constructor
    · rintro ⟨field, found, first, compiled, others, remaining, whole⟩
      exact ⟨first, others, ⟨field, found, compiled⟩, remaining, whole⟩
    · rintro ⟨first, others, ⟨field, found, compiled⟩, remaining, whole⟩
      exact ⟨field, found, first, compiled, others, remaining, whole⟩

theorem object_entries_nil (schema : Schema) (composite : Composite) (level : Level) (path : String)
    (entries : Members) :
    (objectEntries schema composite level path []).result = .ok entries ↔ entries = [] := by
  rw [objectEntries, Outcome.result_pure, eq_comm]

def elementEntries (path : String) (element : Members) : Members :=
  if element.isEmpty then [] else [(path, .obj [("$elemMatch", .obj element)])]

theorem field_entries_leaf (schema : Schema) (field : Field) (path : String) (filter entries : Members)
    (leaf : field.type.composite? = none) :
    (fieldEntries schema field path (.obj filter)).result = .ok entries ↔
      ∃ operators, (LeafFilter.document filter path).result = .ok operators ∧
        entryUnlessEmpty path operators = entries := by
  rw [fieldEntries, leaf]
  simp [Outcome.result_bind, Outcome.result_pure]

theorem field_entries_composite (schema : Schema) (field : Field) (path : String) (filter entries : Members)
    (id : CompositeIndex) (nested : field.type.composite? = some id) :
    (fieldEntries schema field path (.obj filter)).result = .ok entries ↔
      ∃ required composite inner, presence filter path = .ok required ∧ schema.composite id = .ok composite ∧
        (objectEntries schema composite .nested (if field.type.isList then "" else path) filter).result = .ok inner ∧
        (if field.type.isList then elementEntries path (Members.ofEntries (presenceEntries required ++ inner))
          else entryUnlessEmpty path (presenceEntries required) ++ inner) = entries := by
  rw [fieldEntries, nested]
  by_cases listed : field.type.isList = true
  · simp [listed, Outcome.result_bind, Outcome.result_pure, Outcome.result_lift, elementEntries]
  · simp [listed, Outcome.result_bind, Outcome.result_pure, Outcome.result_lift]

theorem entry_unless_empty_keys (path : String) (document : Members) :
    ∀ key ∈ Members.keys (entryUnlessEmpty path document), key = path := by
  unfold entryUnlessEmpty
  split <;> simp [Members.keys]

theorem element_entries_keys (path : String) (element : Members) :
    ∀ key ∈ Members.keys (elementEntries path element), key = path := by
  unfold elementEntries
  split <;> simp [Members.keys]

def LiesAt (base : List String) (path : String) : Prop :=
  ∃ below, (∀ name ∈ below, IsPlainName name) ∧ DotPath.Spells path (base ++ below)

theorem lies_at_self (base : List String) (path : String) (spells : DotPath.Spells path base) :
    LiesAt base path :=
  ⟨[], by simp, by simpa using spells⟩

theorem lies_at_up (base : List String) (name path : String) (plain : IsPlainName name)
    (lies : LiesAt (base ++ [name]) path) : LiesAt base path := by
  obtain ⟨below, plainBelow, spells⟩ := lies
  refine ⟨name :: below, ?_, by simpa using spells⟩
  intro other member
  rcases List.mem_cons.mp member with same | later
  · rw [same]
    exact plain
  · exact plainBelow other later

theorem lies_at_name_unique (base : List String) (a b path : String) (left : LiesAt (base ++ [a]) path)
    (right : LiesAt (base ++ [b]) path) : a = b := by
  obtain ⟨belowA, _, spellsA⟩ := left
  obtain ⟨belowB, _, spellsB⟩ := right
  have same := DotPath.spells_unique path _ _ spellsA spellsB
  simp only [List.append_assoc, List.singleton_append, List.append_cancel_left_eq, List.cons.injEq] at same
  exact same.1

theorem lies_below_ne (base : List String) (name path other : String) (spells : DotPath.Spells path base)
    (lies : LiesAt (base ++ [name]) other) : other ≠ path := by
  rintro rfl
  obtain ⟨below, _, deeper⟩ := lies
  have same := DotPath.spells_unique other _ _ spells deeper
  simp at same

theorem lies_at_head (name path : String) (plain : IsPlainName name) (lies : LiesAt [name] path) :
    path.toList.head? ≠ some '$' := by
  obtain ⟨below, _, spells⟩ := lies
  rw [DotPath.head_of_segments path name below spells.2 plain.1.1]
  exact plain.2

mutual
theorem field_entries_lie (schema : Schema) (plain : schema.HasPlainNames) (field : Field) (path : String)
    (base : List String) (filter : Json) (entries : Members) (spells : DotPath.Spells path base)
    (compiled : (fieldEntries schema field path filter).result = .ok entries) :
    ∀ key ∈ Members.keys entries, LiesAt base key := by
  cases filter with
  | null =>
      rw [fieldEntries, Outcome.result_pure] at compiled
      simp [← compiled, Members.keys]
  | obj filter =>
      have atPath : ∀ key, key = path → LiesAt base key := fun key same => same ▸ lies_at_self base path spells
      cases kind : field.type.composite? with
      | none =>
          obtain ⟨operators, _, written⟩ := (field_entries_leaf schema field path filter entries kind).mp compiled
          rw [← written]
          exact fun key member => atPath key (entry_unless_empty_keys path operators key member)
      | some id =>
          obtain ⟨required, composite, inner, _, found, innerOk, written⟩ :=
            (field_entries_composite schema field path filter entries id kind).mp compiled
          rw [← written]
          intro key member
          by_cases listed : field.type.isList = true
          · rw [if_pos listed] at member
            exact atPath key (element_entries_keys path _ key member)
          · rw [if_neg listed] at member innerOk
            rw [Members.keys_append, List.mem_append] at member
            rcases member with own | nested
            · exact atPath key (entry_unless_empty_keys path _ key own)
            · obtain ⟨name, _, plainName, lies⟩ := object_entries_lie schema plain composite .nested path base filter inner
                (schema.composite_mem id composite found) spells innerOk key nested
              exact lies_at_up base name key plainName lies
  | _ => simp [fieldEntries, Outcome.result_fail] at compiled
termination_by structural filter
theorem object_entries_lie (schema : Schema) (plain : schema.HasPlainNames) (composite : Composite)
    (level : Level) (path : String) (base : List String) (filter entries : Members)
    (declared : composite ∈ schema.composites) (spells : DotPath.Spells path base)
    (compiled : (objectEntries schema composite level path filter).result = .ok entries) :
    ∀ key ∈ Members.keys entries,
      ∃ name ∈ Members.keys filter, IsPlainName name ∧ LiesAt (base ++ [name]) key := by
  cases filter with
  | nil =>
      rw [object_entries_nil] at compiled
      simp [compiled, Members.keys]
  | cons member rest =>
      rcases member with ⟨name, filter⟩
      obtain ⟨first, others, firstOk, othersOk, whole⟩ :=
        (object_entries_cons schema composite level path name filter rest entries).mp compiled
      intro key inside
      rw [← whole, Members.keys_append, List.mem_append] at inside
      rcases inside with early | late
      · rcases firstOk with ⟨_, empty⟩ | ⟨_, field, found, fieldOk⟩
        · simp [empty, Members.keys] at early
        · have plainName := schema.plain_field_name plain composite declared name field found
          exact ⟨name, by simp [Members.keys], plainName, 
            field_entries_lie schema plain field _ (base ++ [name]) filter first (DotPath.spells_under path name base spells plainName.1) fieldOk key early⟩
      · obtain ⟨other, member, plainName, lies⟩ :=
          object_entries_lie schema plain composite level path base rest others declared spells othersOk key late
        exact ⟨other, List.mem_cons_of_mem _ member, plainName, lies⟩
termination_by structural filter
end

mutual
theorem field_entries_unique (schema : Schema) (plain : schema.HasPlainNames) (field : Field) (path : String)
    (base : List String) (filter : Json) (entries : Members) (spells : DotPath.Spells path base) (unique : filter.UniqueKeys)
    (compiled : (fieldEntries schema field path filter).result = .ok entries) :
    (Members.keys entries).Nodup := by
  cases filter with
  | null =>
      rw [fieldEntries, Outcome.result_pure] at compiled
      simp [← compiled, Members.keys]
  | obj filter =>
      cases kind : field.type.composite? with
      | none =>
          obtain ⟨operators, _, written⟩ := (field_entries_leaf schema field path filter entries kind).mp compiled
          rw [← written, entryUnlessEmpty]
          split <;> simp [Members.keys]
      | some id =>
          obtain ⟨required, composite, inner, _, found, innerOk, written⟩ :=
            (field_entries_composite schema field path filter entries id kind).mp compiled
          rw [← written]
          have declared := schema.composite_mem id composite found
          by_cases listed : field.type.isList = true
          · rw [if_pos listed, elementEntries]
            split <;> simp [Members.keys]
          · rw [if_neg listed] at innerOk ⊢
            rw [Members.keys_append, List.nodup_append]
            refine ⟨?_, object_entries_unique schema plain composite .nested path base filter inner declared spells unique.1
              unique.2 innerOk, ?_⟩
            · rw [entryUnlessEmpty]
              split <;> simp [Members.keys]
            · intro own ownMember deep deepMember
              obtain ⟨name, _, _, lies⟩ := object_entries_lie schema plain composite .nested path base filter inner
                declared spells innerOk deep deepMember
              rw [entry_unless_empty_keys path _ own ownMember]
              exact Ne.symm (lies_below_ne base name path deep spells lies)
  | _ => simp [fieldEntries, Outcome.result_fail] at compiled
termination_by structural filter
theorem object_entries_unique (schema : Schema) (plain : schema.HasPlainNames) (composite : Composite)
    (level : Level) (path : String) (base : List String) (filter entries : Members)
    (declared : composite ∈ schema.composites) (spells : DotPath.Spells path base)
    (different : (Members.keys filter).Nodup) (unique : Json.MembersUnique filter)
    (compiled : (objectEntries schema composite level path filter).result = .ok entries) :
    (Members.keys entries).Nodup := by
  cases filter with
  | nil =>
      rw [object_entries_nil] at compiled
      simp [compiled, Members.keys]
  | cons member rest =>
      rcases member with ⟨name, filter⟩
      have parts := List.nodup_cons.mp different
      obtain ⟨first, others, firstOk, othersOk, whole⟩ :=
        (object_entries_cons schema composite level path name filter rest entries).mp compiled
      have restUnique := object_entries_unique schema plain composite level path base rest others declared spells parts.2
        unique.2 othersOk
      rw [← whole, Members.keys_append]
      rcases firstOk with ⟨_, empty⟩ | ⟨_, field, found, fieldOk⟩
      · simpa [empty, Members.keys] using restUnique
      · have plainName := schema.plain_field_name plain composite declared name field found
        have spellsName := DotPath.spells_under path name base spells plainName.1
        refine List.nodup_append.mpr
          ⟨field_entries_unique schema plain field _ (base ++ [name]) filter first spellsName unique.1 fieldOk, restUnique, ?_⟩
        intro early earlyMember late lateMember same
        subst same
        have here := field_entries_lie schema plain field _ (base ++ [name]) filter first spellsName fieldOk
          early earlyMember
        obtain ⟨other, member, _, there⟩ := object_entries_lie schema plain composite level path base rest others
          declared spells othersOk early lateMember
        exact parts.1 (lies_at_name_unique base name other early here there ▸ member)
termination_by structural filter
end

end Filter

end DocGraph
