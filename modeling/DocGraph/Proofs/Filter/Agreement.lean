import DocGraph.Proofs.Filter.Typed
import DocGraph.Proofs.InputType.Check

set_option autoImplicit false

namespace DocGraph.Filter

open DocGraph.Derivation

inductive LeafWithin (schema : Schema) : Composite → Level → Members → Members → Prop where
  | leaf (composite : Composite) (level : Level) (members : Members) (key : String) (field : Field) (leaf : Members)
      (member : (key, .obj leaf) ∈ members) (plain : level.reserves key = false)
      (found : composite.field? key = some field) (isLeaf : field.type.composite? = none) :
      LeafWithin schema composite level members leaf
  | nested (composite : Composite) (level : Level) (members : Members) (key : String) (field : Field)
      (id : CompositeIndex) (target : Composite) (inner leaf : Members)
      (member : (key, .obj inner) ∈ members) (plain : level.reserves key = false)
      (found : composite.field? key = some field) (refers : field.type.composite? = some id)
      (located : schema.composite id = .ok target) (within : LeafWithin schema target .nested inner leaf) :
      LeafWithin schema composite level members leaf

inductive FilterWithin : Json → Members → Prop where
  | self (filter : Members) : FilterWithin (.obj filter) filter
  | joined (combinator : Combinator) (filter inner : Members) (items : List Json) (item : Json)
      (given : Members.get? combinator.word filter = some (.arr items)) (listed : item ∈ items)
      (within : FilterWithin item inner) : FilterWithin (.obj filter) inner

def MixesNegation (schema : Schema) (composite : Composite) (filter : Json) : Prop :=
  ∃ object leaf, FilterWithin filter object ∧ LeafWithin schema composite .root object leaf ∧ LeafFilter.Mixes leaf

def ListsNull (combinator : Combinator) (filter : Json) : Prop :=
  ∃ object items, FilterWithin filter object ∧ Members.get? combinator.word object = some (.arr items) ∧
    .null ∈ items

def Level.family : Level → Family
  | .root => .filter
  | .nested => .objectFilter

section

variable (schema : Schema) (registry : Registry) (scalars : List String)

-- A value that the derived type of this level has for a field.
def FieldFits (level : Level) (field : Field) (value : Json) : Prop :=
  (∃ reference, fieldReference schema level.family field.type = .ok reference ∧
    reference.Conforms registry scalars value) ∧
  ∀ needed needs, fieldNeeds schema level.family field = .ok needs → .type needed ∈ needs →
    Registered schema registry needed

structure ObjectFits (level : Level) (composite : Composite) (members : Members) : Prop where
  fields : ∀ key value, (key, value) ∈ members → level.reserves key = false →
    ∃ field, field ∈ composite.fields ∧ composite.field? key = some field ∧
      FieldFits schema registry scalars level field value
  presence : level = .nested → ∀ value, ("opr", value) ∈ members →
    TypeRef.Conforms registry scalars ⟨presenceOperatorsName⟩ value
  combinators : level = .root → ∀ (combinator : Combinator) value, (combinator.word, value) ∈ members →
    TypeRef.Conforms registry scalars (TypeRef.list ⟨suffixed composite.name Family.filter.suffix⟩) value

end

variable (schema : Schema) (sound : schema.Sound) (free : CollisionFree schema) (registry : Registry)
  (grounded : Grounded schema registry) (scalars : List String)

theorem own_filter_fields (level : Level) (name : String) (noneTaken : Bool) (key : String) :
    level.reserves key = true ↔ ∃ own ∈ ownFields level.family name noneTaken, own.name = key := by
  cases level with
  | root =>
      constructor
      · intro reserved
        obtain ⟨combinator, word⟩ := Option.isSome_iff_exists.mp reserved
        have same := (Combinator.ofWord?_eq_some key combinator).mp word
        exact ⟨_, List.mem_map.mpr ⟨combinator, by cases combinator <;> decide, rfl⟩, same.symm⟩
      · rintro ⟨own, member, rfl⟩
        obtain ⟨combinator, _, same⟩ := List.mem_map.mp member
        rw [← same]
        exact Option.isSome_iff_exists.mpr ⟨combinator, (Combinator.ofWord?_eq_some _ combinator).mpr rfl⟩
  | nested =>
      constructor
      · intro reserved
        exact ⟨_, List.mem_singleton.mpr rfl, (eq_of_beq reserved).symm⟩
      · rintro ⟨own, member, rfl⟩
        cases List.mem_singleton.mp member
        rfl

include sound free grounded in
theorem composite_filter_fits (level : Level) (id : CompositeIndex) (scope : Scope)
    (within : id.index < schema.composites.length)
    (registered : Registered schema registry (.composite level.family id scope)) :
    ∃ composite, schema.composite id = .ok composite ∧
      (level = .nested → Registered schema registry .presenceOperators) ∧
      ∀ value, TypeRef.Conforms registry scalars ⟨suffixed composite.name level.family.suffix⟩ value →
        value = .null ∨ ∃ members, value = .obj members ∧ (Members.keys members).Nodup ∧
          ObjectFits schema registry scalars level composite members := by
  have ordinary : level.family ≠ .update := by cases level <;> decide
  obtain ⟨composite, object, noneTaken, located, found, ownNeeds, entries⟩ :=
    composite_entry schema sound free registry grounded level.family id scope ordinary within registered
  refine ⟨composite, located, ?_, ?_⟩
  · rintro rfl
    exact ownNeeds _ (by simp [Level.family, Derivation.ownNeeds])
  · intro value conforms
    rcases TypeRef.conforms_object _ object value (composite_is_name composite.name level.family) found conforms with
      null | ⟨members, same, distinct, fields⟩
    · exact .inl null
    · refine .inr ⟨members, same, distinct, ?_, ?_, ?_⟩
      · intro key held member plain
        obtain ⟨input, given, inner⟩ := fields key held member
        rcases entries key input given with ⟨own, named⟩ | ⟨_, field, taken⟩
        · have reserved := (own_filter_fields level _ noneTaken key).mpr ⟨input, own, named⟩
          rw [plain] at reserved
          cases reserved
        · obtain ⟨_, reference, referred, typed⟩ := taken.typed
          refine ⟨field, (Composite.name_of_field?_eq_some taken.found).2, taken.found,
            ⟨reference, referred, ?_⟩, taken.needs⟩
          cases level <;> exact (show input.type = reference from typed) ▸ inner
      · rintro rfl held member
        obtain ⟨input, given, conforms⟩ := fields "opr" held member
        rcases entries "opr" input given with ⟨own, _⟩ | ⟨others, _⟩
        · cases List.mem_singleton.mp own
          exact conforms
        · exact absurd rfl (others _ (List.mem_singleton.mpr rfl))
      · rintro rfl combinator held member
        obtain ⟨input, given, conforms⟩ := fields _ held member
        rcases entries _ input given with ⟨own, _⟩ | ⟨others, _⟩
        · obtain ⟨other, _, same⟩ := List.mem_map.mp own
          cases same
          exact conforms
        · obtain ⟨own, inside, named⟩ := (own_filter_fields .root
            (suffixed composite.name Level.root.family.suffix) noneTaken combinator.word).mp
              (by cases combinator <;> decide)
          exact absurd named (others own inside)

include free grounded in
theorem presence_typed (registered : Registered schema registry .presenceOperators) (filter : Members) (path : String)
    (typed : ∀ value, ("opr", value) ∈ filter → TypeRef.Conforms registry scalars ⟨presenceOperatorsName⟩ value) :
    ∃ required, presence filter path = .ok required := by
  obtain ⟨name, type, named, defined, found, _⟩ := other_entry schema free registry grounded .presenceOperators
    (shared_of schema _ (by simp [sharedTargets, Target.bare])) registered (by simp)
  cases Except.ok.inj named
  cases Except.ok.inj defined
  have isName : TypeRef.IsName ⟨presenceOperatorsName⟩ :=
    TypeRef.is_name_of_last _ 's' (by decide) (by decide) (by decide)
  unfold presence
  cases given : Members.get? "opr" filter with
  | none => exact ⟨none, rfl⟩
  | some value =>
      have conforms := typed value (Members.mem_of_get? _ value filter given)
      rcases TypeRef.conforms_enum _ _ value isName found conforms with rfl | ⟨member, listed, read⟩
      · exact ⟨none, rfl⟩
      · obtain ⟨operator, _, same⟩ := List.mem_map.mp (Keyed.mem_of_mem_collect _ _ _ listed)
        subst same
        rcases read with rfl | internal
        · cases operator <;> exact ⟨_, rfl⟩
        · cases Option.some.inj internal
          cases operator <;> exact ⟨_, rfl⟩

def MixFault (composite : Composite) (level : Level) (members : Members) (error : Error) : Prop :=
  (∃ place, error = .mixedNegation place) ∧
    ∃ leaf, LeafWithin schema composite level members leaf ∧ LeafFilter.Mixes leaf

theorem leaf_within_cons (composite : Composite) (level : Level) (entry : String × Json) (rest leaf : Members) :
    LeafWithin schema composite level (entry :: rest) leaf ↔
      LeafWithin schema composite level [entry] leaf ∨ LeafWithin schema composite level rest leaf := by
  constructor
  · intro within
    cases within with
    | leaf _ _ _ key field _ member plain found isLeaf =>
        rcases List.mem_cons.mp member with here | later
        · exact .inl (.leaf _ _ _ key field _ (here ▸ List.mem_cons_self ..) plain found isLeaf)
        · exact .inr (.leaf _ _ _ key field _ later plain found isLeaf)
    | nested _ _ _ key field id target inner _ member plain found refers located within =>
        rcases List.mem_cons.mp member with here | later
        · exact .inl (.nested _ _ _ key field id target inner _ (here ▸ List.mem_cons_self ..) plain found refers
            located within)
        · exact .inr (.nested _ _ _ key field id target inner _ later plain found refers located within)
  · have grows (members : Members) (subset : ∀ other ∈ members, other ∈ entry :: rest)
        (within : LeafWithin schema composite level members leaf) :
        LeafWithin schema composite level (entry :: rest) leaf := by
      cases within with
      | leaf _ _ _ key field _ member plain found isLeaf =>
          exact .leaf _ _ _ key field _ (subset _ member) plain found isLeaf
      | nested _ _ _ key field id target inner _ member plain found refers located within =>
          exact .nested _ _ _ key field id target inner _ (subset _ member) plain found refers located within
    rintro (here | later)
    · exact grows [entry] (fun _ member => List.mem_cons.mpr (.inl (List.mem_singleton.mp member))) here
    · exact grows rest (fun _ member => List.mem_cons_of_mem entry member) later

theorem mix_fault_cons (composite : Composite) (level : Level) (entry : String × Json) (rest : Members) (error : Error) :
    MixFault schema composite level (entry :: rest) error ↔
      MixFault schema composite level [entry] error ∨ MixFault schema composite level rest error := by
  unfold MixFault
  simp only [leaf_within_cons schema composite level entry rest, or_and_right, exists_or, and_or_left]

theorem leaf_within_field (composite : Composite) (level : Level) (key : String) (value : Json) (field : Field)
    (leaf : Members) (plain : level.reserves key = false) (found : composite.field? key = some field) :
    LeafWithin schema composite level [(key, value)] leaf ↔
      (value = .obj leaf ∧ field.type.composite? = none) ∨
        ∃ id target inner, value = .obj inner ∧ field.type.composite? = some id ∧
          schema.composite id = .ok target ∧ LeafWithin schema target .nested inner leaf := by
  constructor
  · intro within
    cases within with
    | leaf _ _ _ name held _ member _ hit isLeaf =>
        cases List.mem_singleton.mp member
        cases hit.symm.trans found
        exact .inl ⟨rfl, isLeaf⟩
    | nested _ _ _ name held id target inner _ member _ hit refers located within =>
        cases List.mem_singleton.mp member
        cases hit.symm.trans found
        exact .inr ⟨id, target, inner, rfl, refers, located, within⟩
  · rintro (⟨rfl, isLeaf⟩ | ⟨id, target, inner, rfl, refers, located, within⟩)
    · exact .leaf _ _ _ key field leaf (List.mem_singleton.mpr rfl) plain found isLeaf
    · exact .nested _ _ _ key field id target inner leaf (List.mem_singleton.mpr rfl) plain found refers located within

theorem leaf_within_reserved (composite : Composite) (level : Level) (key : String) (value : Json) (leaf : Members)
    (reserved : level.reserves key = true) : ¬ LeafWithin schema composite level [(key, value)] leaf := by
  intro within
  cases within with
  | leaf _ _ _ name held _ member plain =>
      cases List.mem_singleton.mp member
      cases reserved.symm.trans plain
  | nested _ _ _ name held id target inner _ member plain =>
      cases List.mem_singleton.mp member
      cases reserved.symm.trans plain

theorem field_entries_nested (field : Field) (path : String) (filter : Members) (id : CompositeIndex)
    (target : Composite) (required : Option Bool) (refers : field.type.composite? = some id)
    (asked : presence filter path = .ok required) (located : schema.composite id = .ok target) :
    ∃ (place : String) (write : Members → Members),
      (fieldEntries schema field path (.obj filter)).result =
        write <$> (objectEntries schema target .nested place filter).result := by
  have joined (place : String) (write : Members → Members) :
      ((objectEntries schema target .nested place filter) >>= fun entries => pure (write entries) :
          Outcome Members).result = write <$> (objectEntries schema target .nested place filter).result := by
    rw [Outcome.bind_result]
    cases (objectEntries schema target .nested place filter).result <;> rfl
  rw [fieldEntries, refers]
  simp only [asked, located, Outcome.lift_bind]
  by_cases listed : field.type.isList = true
  · refine ⟨"", fun entries => elementEntries path (Members.ofEntries (presenceEntries required ++ entries)), ?_⟩
    rw [if_pos listed]
    exact joined _ _
  · refine ⟨path, fun entries => entryUnlessEmpty path (presenceEntries required) ++ entries, ?_⟩
    rw [if_neg listed]
    exact joined _ _

theorem object_fits_rest (level : Level) (composite : Composite) (entry : String × Json) (rest : Members)
    (fits : ObjectFits schema registry scalars level composite (entry :: rest)) :
    ObjectFits schema registry scalars level composite rest :=
  ⟨fun key value member => fits.fields key value (List.mem_cons_of_mem entry member),
    fun nested value member => fits.presence nested value (List.mem_cons_of_mem entry member),
    fun root combinator value member => fits.combinators root combinator value (List.mem_cons_of_mem entry member)⟩

include sound free grounded in
theorem leaf_field_typed (level : Level) (field : Field) (value : Json) (used : field.type ∈ schema.fieldTypes)
    (leaf : field.type.composite? = none) (fits : FieldFits schema registry scalars level field value) :
    value = .null ∨ ∃ filter, value = .obj filter ∧ LeafFilter.Typed filter := by
  obtain ⟨⟨reference, referred, conforms⟩, needs⟩ := fits
  obtain ⟨name, named⟩ := leaf_named schema field.type (field_type_refers schema sound field.type used)
  have same : reference = ⟨leafFilterName name⟩ := by
    unfold fieldReference at referred
    rw [leaf] at referred
    cases level <;> simp only [Level.family, leafReference, named] at referred <;>
      exact (Except.ok.inj referred).symm
  have listed : fieldNeeds schema level.family field =
      .ok (leafNeeds field.type ++ [.type (.leafFilter name (isStringLeaf field.type))]) := by
    unfold fieldNeeds
    rw [leaf]
    cases level <;> simp only [Level.family, leafFieldNeeds, leafFilterNeeds, named] <;> rfl
  have of : Target.leafFilter name (isStringLeaf field.type) ∈ targets schema := by
    refine leaf_of schema field.type _ used ?_
    rw [leaf_targets_eq schema field.type name leaf named]
    exact List.mem_cons_self ..
  have registered := needs _ _ listed (List.mem_append.mpr (.inr (List.mem_singleton.mpr rfl)))
  exact leaf_filter_typed schema sound free grounded of registered value (same ▸ conforms)

include sound free grounded in
theorem composite_field_typed (level : Level) (field : Field) (value : Json) (id : CompositeIndex)
    (refers : field.type.Refers schema) (nested : field.type.composite? = some id)
    (fits : FieldFits schema registry scalars level field value) :
    ∃ target, schema.composite id = .ok target ∧ Registered schema registry .presenceOperators ∧
      (value = .null ∨ ∃ filter, value = .obj filter ∧
        ObjectFits schema registry scalars .nested target filter) := by
  obtain ⟨⟨reference, referred, conforms⟩, needs⟩ := fits
  have within := refers_composite schema field.type id refers nested
  have listed : fieldNeeds schema level.family field = .ok [.type (.composite .objectFilter id .nested)] := by
    unfold fieldNeeds
    rw [nested]
    cases level <;> rfl
  have registered := needs _ _ listed (List.mem_singleton.mpr rfl)
  obtain ⟨target, located, presence, typed⟩ :=
    composite_filter_fits schema sound free registry grounded scalars .nested id .nested within registered
  have same : reference = ⟨suffixed target.name Family.objectFilter.suffix⟩ := by
    have named : compositeName schema .objectFilter id = .ok (suffixed target.name Family.objectFilter.suffix) :=
      (composite_name_ok schema .objectFilter id _).mpr ⟨target, located, rfl⟩
    unfold fieldReference at referred
    rw [nested] at referred
    cases level <;> simp only [Level.family, Family.nested, named] at referred <;>
      exact (Except.ok.inj referred).symm
  refine ⟨target, located, presence rfl, ?_⟩
  rcases typed value (same ▸ conforms) with null | ⟨filter, same, _, inner⟩
  · exact .inl null
  · exact .inr ⟨filter, same, inner⟩

theorem no_faults_in_null (composite : Composite) (level : Level) (key : String) (field : Field)
    (plain : level.reserves key = false) (found : composite.field? key = some field) (error : Error) :
    ¬ MixFault schema composite level [(key, .null)] error := by
  rintro ⟨_, leaf, within, _⟩
  rcases (leaf_within_field schema composite level key .null field leaf plain found).mp within with
    ⟨same, _⟩ | ⟨_, _, _, same, _⟩
  all_goals cases same

theorem mix_fault_field (composite : Composite) (level : Level) (key : String) (value : Json) (field : Field)
    (plain : level.reserves key = false) (found : composite.field? key = some field) (error : Error) :
    MixFault schema composite level [(key, value)] error ↔
      (∃ place, error = .mixedNegation place) ∧ ∃ leaf, ((value = .obj leaf ∧ field.type.composite? = none) ∨
        ∃ id target inner, value = .obj inner ∧ field.type.composite? = some id ∧
          schema.composite id = .ok target ∧ LeafWithin schema target .nested inner leaf) ∧ LeafFilter.Mixes leaf := by
  simp only [MixFault, leaf_within_field schema composite level key value field _ plain found]

theorem leaf_field_refuses (composite : Composite) (level : Level) (key path : String) (value : Json) (field : Field)
    (plain : level.reserves key = false) (found : composite.field? key = some field)
    (nested : field.type.composite? = none)
    (typed : value = .null ∨ ∃ filter, value = .obj filter ∧ LeafFilter.Typed filter) :
    Refuses (MixFault schema composite level [(key, value)]) (fieldEntries schema field path value).result := by
  rcases typed with rfl | ⟨filter, rfl, typed⟩
  · exact no_faults_in_null schema composite level key field plain found
  · rw [fieldEntries, nested]
    simp only
    rw [Outcome.bind_result]
    refine refuses_widen _ _ _ ?_ ?_ (refuses_map _ _ _ (LeafFilter.document_refuses path filter typed))
    · rintro error ⟨same, mixes⟩
      exact (mix_fault_field schema composite level key _ field plain found error).mpr
        ⟨⟨path, same⟩, filter, .inl ⟨rfl, nested⟩, mixes⟩
    · intro error fault
      obtain ⟨_, leaf, ⟨⟨⟩, _⟩ | ⟨_, _, _, _, other, _⟩, mixes⟩ :=
        (mix_fault_field schema composite level key _ field plain found error).mp fault
      · exact ⟨.mixedNegation path, rfl, mixes⟩
      · cases nested.symm.trans other

mutual
theorem field_refuses (sound : schema.Sound) (free : CollisionFree schema) (registry : Registry)
    (grounded : Grounded schema registry) (scalars : List String) (composite : Composite) (level : Level)
    (key path : String) (value : Json) (field : Field) (declared : composite ∈ schema.composites)
    (plain : level.reserves key = false) (member : field ∈ composite.fields)
    (found : composite.field? key = some field) (fits : FieldFits schema registry scalars level field value) :
    Refuses (MixFault schema composite level [(key, value)]) (fieldEntries schema field path value).result := by
  cases nested : field.type.composite? with
  | none =>
      exact leaf_field_refuses schema composite level key path value field plain found nested
        (leaf_field_typed schema sound free registry grounded scalars level field value
          (mem_field_types schema composite field declared member) nested fits)
  | some id =>
      obtain ⟨target, located, registered, typed⟩ := composite_field_typed schema sound free registry grounded scalars
        level field value id (sound.refers composite declared field member) nested fits
      cases value with
      | null => exact no_faults_in_null schema composite level key field plain found
      | obj filter =>
          have inner : ObjectFits schema registry scalars .nested target filter := by
            rcases typed with other | ⟨_, ⟨⟩, inner⟩
            · cases other
            · exact inner
          obtain ⟨required, asked⟩ :=
            presence_typed schema free registry grounded scalars registered filter path (inner.presence rfl)
          obtain ⟨place, write, joined⟩ :=
            field_entries_nested schema field path filter id target required nested asked located
          have below := object_refuses sound free registry grounded scalars target .nested place filter
            (Schema.composite_mem schema id target located) inner
          rw [joined]
          refine refuses_congr _ _ _ ?_ (refuses_map _ write _ below)
          intro error
          rw [mix_fault_field schema composite level key _ field plain found error]
          constructor
          · rintro ⟨same, leaf, within, mixes⟩
            exact ⟨same, leaf, .inr ⟨id, target, filter, rfl, nested, located, within⟩, mixes⟩
          · rintro ⟨same, leaf, ⟨_, other⟩ | ⟨held, found, _, ⟨⟩, other, again, within⟩, mixes⟩
            · cases nested.symm.trans other
            · cases nested.symm.trans other
              cases located.symm.trans again
              exact ⟨same, leaf, within, mixes⟩
      | _ => rcases typed with other | ⟨_, other, _⟩ <;> cases other
termination_by structural value
theorem object_refuses (sound : schema.Sound) (free : CollisionFree schema) (registry : Registry)
    (grounded : Grounded schema registry) (scalars : List String) (composite : Composite) (level : Level)
    (path : String) (members : Members) (declared : composite ∈ schema.composites)
    (fits : ObjectFits schema registry scalars level composite members) :
    Refuses (MixFault schema composite level members) (objectEntries schema composite level path members).result := by
  cases members with
  | nil =>
      rintro error ⟨_, leaf, within, _⟩
      cases within with
      | leaf _ _ _ _ _ _ member => cases member
      | nested _ _ _ _ _ _ _ _ _ member => cases member
  | cons entry rest =>
      rcases entry with ⟨key, value⟩
      have later := object_refuses sound free registry grounded scalars composite level path rest declared
        (object_fits_rest schema registry scalars level composite (key, value) rest fits)
      have tail (first : Members) : Refuses (MixFault schema composite level rest)
          (do let others ← objectEntries schema composite level path rest; return first ++ others :
            Outcome Members).result := by
        rw [Outcome.bind_result]
        exact refuses_map _ _ _ later
      refine refuses_congr _ _ _ (fun error => (mix_fault_cons schema composite level (key, value) rest error).symm) ?_
      rw [objectEntries]
      cases plain : level.reserves key with
      | true =>
          refine refuses_congr _ _ _ ?_ (tail [])
          intro error
          have none : ¬ MixFault schema composite level [(key, value)] error := by
            rintro ⟨_, leaf, within, _⟩
            exact leaf_within_reserved schema composite level key value leaf plain within
          exact ⟨.inr, fun fault => fault.elim (absurd · none) id⟩
      | false =>
          obtain ⟨field, member, found, fieldFits⟩ := fits.fields key value (List.mem_cons_self ..) plain
          have here := field_refuses sound free registry grounded scalars composite level key
            (DotPath.under path key) value field declared plain member found fieldFits
          rw [(Composite.field_ok composite key field).mpr found, Outcome.lift_bind]
          exact Outcome.refuses_and_then _ _ _ _ here (fun first _ => tail first)
termination_by structural members
end

def FilterFault (composite : Composite) (filter : Json) (error : Error) : Prop :=
  (∃ place, error = .mixedNegation place) ∧ MixesNegation schema composite filter ∨
    ∃ combinator : Combinator, error = .invalidArgument combinator.word .notFilterList ∧ ListsNull combinator filter

def ListFault (composite : Composite) (combinator : Combinator) (items : List Json) (error : Error) : Prop :=
  .null ∈ items ∧ error = .invalidArgument combinator.word .notFilterList ∨
    ∃ item ∈ items, FilterFault schema composite item error

def CombinedFault (composite : Composite) (combinator : Combinator) (filter : Members) (error : Error) : Prop :=
  ∃ items, Members.get? combinator.word filter = some (.arr items) ∧ ListFault schema composite combinator items error

theorem filter_fault_object (composite : Composite) (filter : Members) (error : Error) :
    FilterFault schema composite (.obj filter) error ↔
      MixFault schema composite .root filter error ∨
        ∃ combinator, CombinedFault schema composite combinator filter error := by
  constructor
  · rintro (⟨same, object, leaf, within, inside, mixes⟩ | ⟨combinator, same, object, items, within, given, null⟩)
    · cases within with
      | self => exact .inl ⟨same, leaf, inside, mixes⟩
      | joined combinator _ _ items item given listed within =>
          exact .inr ⟨combinator, items, given, .inr ⟨item, listed, .inl ⟨same, object, leaf, within, inside, mixes⟩⟩⟩
    · cases within with
      | self => exact .inr ⟨combinator, items, given, .inl ⟨null, same⟩⟩
      | joined outer _ _ others item listed member within =>
          exact .inr ⟨outer, others, listed, .inr ⟨item, member,
            .inr ⟨combinator, same, object, items, within, given, null⟩⟩⟩
  · rintro (⟨same, leaf, inside, mixes⟩ | ⟨combinator, items, given, ⟨null, same⟩ | ⟨item, listed, fault⟩⟩)
    · exact .inl ⟨same, filter, leaf, .self filter, inside, mixes⟩
    · exact .inr ⟨combinator, same, filter, items, .self filter, given, null⟩
    · rcases fault with ⟨same, object, leaf, within, inside, mixes⟩ | ⟨inner, same, object, others, within, held, null⟩
      · exact .inl ⟨same, object, leaf, .joined combinator filter object items item given listed within, inside, mixes⟩
      · exact .inr ⟨inner, same, object, others, .joined combinator filter object items item given listed within,
          held, null⟩

theorem assembled_refuses (type : CompositeIndex) (composite : Composite) (filter : Members)
    (combined : Combinator → Outcome Members) (located : schema.composite type = .ok composite)
    (fields : Refuses (MixFault schema composite .root filter) (objectEntries schema composite .root "" filter).result)
    (each : ∀ combinator, Refuses (CombinedFault schema composite combinator filter) (combined combinator).result) :
    Refuses (FilterFault schema composite (.obj filter)) (assembled schema type filter combined).result := by
  have ending (entries : Members) : Refuses (fun _ => False) (pure entries : Outcome Members).result := fun _ => id
  unfold assembled
  rw [located, Outcome.lift_bind]
  refine refuses_congr _ _ _ ?_ (Outcome.refuses_and_then _ _ _ _ fields fun _ _ =>
    Outcome.refuses_and_then _ _ _ _ (each .or) fun _ _ => Outcome.refuses_and_then _ _ _ _ (each .and) fun _ _ =>
      Outcome.refuses_and_then _ _ _ _ (each .nor) fun _ _ => ending _)
  intro error
  rw [filter_fault_object]
  constructor
  · rintro (field | or | and | nor | impossible)
    · exact .inl field
    · exact .inr ⟨.or, or⟩
    · exact .inr ⟨.and, and⟩
    · exact .inr ⟨.nor, nor⟩
    · exact impossible.elim
  · rintro (field | ⟨combinator, fault⟩)
    · exact .inl field
    · cases combinator with
      | or => exact .inr (.inl fault)
      | and => exact .inr (.inr (.inl fault))
      | nor => exact .inr (.inr (.inr (.inl fault)))

structure Rooted (type : CompositeIndex) (composite : Composite) : Prop where
  located : schema.composite type = .ok composite
  fits : ∀ value, TypeRef.Conforms registry scalars ⟨suffixed composite.name Family.filter.suffix⟩ value →
    value = .null ∨ ∃ members, value = .obj members ∧ ObjectFits schema registry scalars .root composite members
  fields : ∀ members, ObjectFits schema registry scalars .root composite members →
    Refuses (MixFault schema composite .root members) (objectEntries schema composite .root "" members).result

section

variable {schema registry scalars} {type : CompositeIndex} {composite : Composite}

theorem object_document_refuses (rooted : Rooted schema registry scalars type composite) (filter : Members)
    (inner : ObjectFits schema registry scalars .root composite filter) (combined : Combinator → Outcome Members)
    (each : ∀ combinator, Refuses (CombinedFault schema composite combinator filter) (combined combinator).result) :
    Refuses (FilterFault schema composite (.obj filter)) (assembled schema type filter combined).result :=
  assembled_refuses schema type composite filter combined rooted.located (rooted.fields filter inner) each

mutual
theorem combined_refuses (rooted : Rooted schema registry scalars type composite) (combinator : Combinator) (filter : Members)
    (typed : ∀ value, (combinator.word, value) ∈ filter →
      TypeRef.Conforms registry scalars (TypeRef.list ⟨suffixed composite.name Family.filter.suffix⟩) value) :
    Refuses (CombinedFault schema composite combinator filter) (combined schema type combinator filter).result := by
  cases filter with
  | nil => rintro error ⟨_, ⟨⟩, _⟩
  | cons entry rest =>
      rcases entry with ⟨key, value⟩
      by_cases same : key = combinator.word
      · have conforms := typed value (same ▸ List.mem_cons_self ..)
        rw [combined, if_pos same]
        refine refuses_congr _ _ _ ?_ (combined_entry_refuses rooted combinator value conforms)
        intro error
        simp only [CombinedFault, Members.get?, if_pos same, Option.some.injEq]
      · have later := combined_refuses rooted combinator rest (fun value member => typed value (List.mem_cons_of_mem _ member))
        rw [combined, if_neg same]
        refine refuses_congr _ _ _ ?_ later
        intro error
        simp only [CombinedFault, Members.get?, if_neg same]
termination_by structural filter
theorem combined_entry_refuses (rooted : Rooted schema registry scalars type composite) (combinator : Combinator)
    (value : Json)
    (typed : TypeRef.Conforms registry scalars (TypeRef.list ⟨suffixed composite.name Family.filter.suffix⟩) value) :
    Refuses (fun error => ∃ items, value = .arr items ∧ ListFault schema composite combinator items error)
      (combinedEntry schema type combinator value).result := by
  have shape := TypeRef.conforms_list _ value typed
  cases value with
  | null => rintro error ⟨_, ⟨⟩, _⟩
  | arr items =>
      have each : ∀ item ∈ items,
          TypeRef.Conforms registry scalars ⟨suffixed composite.name Family.filter.suffix⟩ item := by
        rcases shape with other | ⟨_, ⟨⟩, each⟩
        · cases other
        · exact each
      rw [combinedEntry, Outcome.bind_result]
      have listed := combined_list_refuses rooted combinator items each
      refine refuses_congr _ _ _ ?_ (refuses_bind _ _ _ (fun _ => False) listed (fun documents _ => ?_))
      · intro error
        constructor
        · rintro (fault | impossible)
          · exact ⟨items, rfl, fault⟩
          · exact impossible.elim
        · rintro ⟨_, ⟨⟩, fault⟩
          exact .inl fault
      · exact fun _ => id
  | _ => rcases shape with other | ⟨_, other, _⟩ <;> cases other
termination_by structural value
theorem combined_list_refuses (rooted : Rooted schema registry scalars type composite) (combinator : Combinator)
    (items : List Json)
    (typed : ∀ item ∈ items,
      TypeRef.Conforms registry scalars ⟨suffixed composite.name Family.filter.suffix⟩ item) :
    Refuses (ListFault schema composite combinator items) (combinedList schema type combinator items).result := by
  cases items with
  | nil => rintro error (⟨member, _⟩ | ⟨_, member, _⟩) <;> cases member
  | cons item rest =>
      have first := combined_item_refuses rooted combinator item (typed item (List.mem_cons_self ..))
      have later := combined_list_refuses rooted combinator rest (fun other member => typed other (List.mem_cons_of_mem item member))
      rw [combinedList]
      refine refuses_congr _ _ _ ?_ (Outcome.refuses_and_then _ _ _ _ first fun _ _ =>
        Outcome.refuses_and_then _ _ _ (fun _ => False) later fun _ _ _ => id)
      intro error
      constructor
      · rintro ((⟨null, same⟩ | fault) | (⟨null, same⟩ | ⟨other, member, fault⟩) | impossible)
        · exact .inl ⟨null ▸ List.mem_cons_self .., same⟩
        · exact .inr ⟨item, List.mem_cons_self .., fault⟩
        · exact .inl ⟨List.mem_cons_of_mem item null, same⟩
        · exact .inr ⟨other, List.mem_cons_of_mem item member, fault⟩
        · exact impossible.elim
      · rintro (⟨null, same⟩ | ⟨other, member, fault⟩)
        · rcases List.mem_cons.mp null with here | later
          · exact .inl (.inl ⟨here.symm, same⟩)
          · exact .inr (.inl (.inl ⟨later, same⟩))
        · rcases List.mem_cons.mp member with rfl | later
          · exact .inl (.inr fault)
          · exact .inr (.inl (.inr ⟨other, later, fault⟩))
termination_by structural items
theorem combined_item_refuses (rooted : Rooted schema registry scalars type composite) (combinator : Combinator)
    (item : Json)
    (typed : TypeRef.Conforms registry scalars ⟨suffixed composite.name Family.filter.suffix⟩ item) :
    Refuses (fun error => item = .null ∧ error = .invalidArgument combinator.word .notFilterList ∨
      FilterFault schema composite item error) (combinedItem schema type combinator item).result := by
  have shape := rooted.fits item typed
  cases item with
  | null => exact .inl ⟨rfl, rfl⟩
  | obj filter =>
      have inner : ObjectFits schema registry scalars .root composite filter := by
        rcases shape with other | ⟨_, ⟨⟩, inner⟩
        · cases other
        · exact inner
      have whole := object_document_refuses rooted filter inner (fun combinator => combined schema type combinator filter)
        (fun combinator => combined_refuses rooted combinator filter (inner.combinators rfl combinator))
      rw [combinedItem, Outcome.bind_result]
      refine refuses_congr _ _ _ ?_ (refuses_map _ Json.obj _ whole)
      intro error
      exact ⟨.inr, fun fault => fault.elim (fun null => nomatch null.1) id⟩
  | _ => rcases shape with other | ⟨_, other, _⟩ <;> cases other
termination_by structural item
end

theorem document_refuses (rooted : Rooted schema registry scalars type composite) (filter : Json)
    (typed : TypeRef.Conforms registry scalars ⟨suffixed composite.name Family.filter.suffix⟩ filter) :
    Refuses (FilterFault schema composite filter) (document schema type (some filter)).result := by
  rcases rooted.fits filter typed with rfl | ⟨members, rfl, inner⟩
  · rintro error (⟨_, _, _, within, _⟩ | ⟨_, _, _, _, within, _⟩) <;> cases within
  · exact object_document_refuses rooted members inner (fun combinator => combined schema type combinator members)
      (fun combinator => combined_refuses rooted combinator members (inner.combinators rfl combinator))

end

-- In a schema whose derived types do not share names, a filter of the derived type compiles unless a leaf
-- filter in it mixes a regular expression with other operators in a `NOT`, or a list of a combinator in it has a
-- null element; and nothing else is ever reported.
theorem derived_filter_refused (text : String) (schema : Schema) (read : Schema.ofText text = .ok schema)
    (free : CollisionFree schema) (session : Session) (reached : session.Reached schema) (type : CompositeIndex)
    (within : type.index < schema.composites.length) :
    ∃ composite name after notices, schema.composite type = .ok composite ∧
      session.call schema (.composite .filter type []) = (after, notices, .ok (.reference ⟨name⟩)) ∧
      ∀ filter, TypeRef.Conforms after.registry schema.scalars ⟨name⟩ filter →
        ((∃ error, (document schema type (some filter)).result = .error error) ↔
          MixesNegation schema composite filter ∨ ∃ combinator, ListsNull combinator filter) ∧
        ∀ error, (document schema type (some filter)).result = .error error →
          (∃ place, error = .mixedNegation place) ∧ MixesNegation schema composite filter ∨
            ∃ combinator : Combinator, error = .invalidArgument combinator.word .notFilterList ∧
              ListsNull combinator filter := by
  have sound := Schema.sound_of_text text schema read
  obtain ⟨name, after, notices, named, called, grounded, contained⟩ :=
    composite_call schema sound session reached .filter type [] within
  have registered : Registered schema after.registry (.composite .filter type .nested) := ⟨name, named, contained⟩
  obtain ⟨composite, located, _, fits⟩ := composite_filter_fits schema sound free after.registry grounded
    schema.scalars .root type .nested within registered
  have rooted : Rooted schema after.registry schema.scalars type composite := by
    refine ⟨located, ?_, ?_⟩
    · intro value conforms
      exact (fits value conforms).imp id (fun ⟨members, same, _, inner⟩ => ⟨members, same, inner⟩)
    · intro members inner
      exact object_refuses schema sound free after.registry grounded schema.scalars composite .root "" members
        (Schema.composite_mem schema type composite located) inner
  obtain ⟨_, again, rfl⟩ := (composite_name_ok schema .filter type name).mp named
  cases again.symm.trans located
  refine ⟨composite, _, after, notices, located, called, ?_⟩
  intro filter conforms
  obtain ⟨fails, only⟩ := refuses_iff _ _ (document_refuses rooted filter conforms)
  refine ⟨fails.trans ⟨?_, ?_⟩, only⟩
  · rintro ⟨error, ⟨_, mixes⟩ | ⟨combinator, _, null⟩⟩
    · exact .inl mixes
    · exact .inr ⟨combinator, null⟩
  · rintro (mixes | ⟨combinator, null⟩)
    · exact ⟨.mixedNegation "", .inl ⟨⟨"", rfl⟩, mixes⟩⟩
    · exact ⟨_, .inr ⟨combinator, rfl, null⟩⟩

def postText : String := "type Post \x7b title: String, tags: [Tag!] \x7d type Tag \x7b name: String \x7d"

def posts : Schema where
  composites := [
    { name := "Post", kind := .object, fields := [
      { name := "title", type := .scalar .string },
      { name := "tags", type := .list (.nonNull (.named (.composite .object ⟨1⟩))) }] },
    { name := "Tag", kind := .object, fields := [{ name := "name", type := .scalar .string }] }]

def mixedNegation : Members := [("REGEX", .str "^a"), ("EQ", .str "b")]

def mixedTitle : Members := [("title", .obj [("NOT", .obj mixedNegation)])]

def postSession : Session := (Session.call posts {} (.composite .filter ⟨0⟩ [])).1

theorem mixed_title_conforms :
    TypeRef.Conforms postSession.registry posts.scalars ⟨"PostFilterType"⟩ (.obj mixedTitle) :=
  TypeRef.conforms_of_checks _ _ 4 _ _ (by decide +kernel)

theorem mixed_title_refused :
    Schema.ofText postText = .ok posts ∧ CollisionFree posts ∧ Session.Reached posts {} ∧
      0 < posts.composites.length ∧
      (Session.call posts {} (.composite .filter ⟨0⟩ [])).2.2 = .ok (.reference ⟨"PostFilterType"⟩) ∧
      TypeRef.Conforms (Session.call posts {} (.composite .filter ⟨0⟩ [])).1.registry posts.scalars
        ⟨"PostFilterType"⟩ (.obj mixedTitle) ∧
      ∃ error, (document posts ⟨0⟩ (some (.obj mixedTitle))).result = .error error := by
  have read : Schema.ofText postText = .ok posts := by decide +kernel
  have free : CollisionFree posts := by decide +kernel
  have within : 0 < posts.composites.length := by decide
  have answer : (Session.call posts {} (.composite .filter ⟨0⟩ [])).2.2 = .ok (.reference ⟨"PostFilterType"⟩) := by
    decide +kernel
  refine ⟨read, free, .fresh, within, answer, mixed_title_conforms, ?_⟩
  obtain ⟨composite, name, after, notices, located, called, agrees⟩ :=
    derived_filter_refused postText posts read free {} .fresh ⟨0⟩ within
  have registry : postSession = after := by rw [postSession, called]
  have reference : name = "PostFilterType" := by
    rw [called] at answer
    cases answer
    rfl
  subst registry reference
  cases Except.ok.inj located
  refine ((agrees (.obj mixedTitle) mixed_title_conforms).1).mpr (.inl
    ⟨mixedTitle, [("NOT", .obj mixedNegation)], .self mixedTitle, ?_, ?_⟩)
  · exact .leaf _ .root mixedTitle "title" _ _ (List.mem_singleton.mpr rfl) (by decide) rfl rfl
  · exact ⟨mixedNegation, List.mem_singleton.mpr rfl, ⟨_, rfl⟩, by decide⟩

end DocGraph.Filter
