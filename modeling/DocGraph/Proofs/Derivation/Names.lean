import DocGraph.Proofs.Derivation.References

set_option autoImplicit false

namespace DocGraph.Derivation

def stem (name : String) : String :=
  match Text.before? "Type".toList name.toList with
  | some base => String.ofList base
  | none => name

theorem suffixed_eq (name suffix : String) : suffixed name suffix = stem name ++ suffix := by
  unfold suffixed stem
  cases Text.before? "Type".toList name.toList <;> rfl

theorem append_overlap (a b first second : String) (same : a ++ first = b ++ second) :
    (∃ between, a = b ++ between ∧ second = between ++ first) ∨ ∃ between, b = a ++ between ∧ first = between ++ second := by
  have lists : a.toList ++ first.toList = b.toList ++ second.toList := by
    rw [← String.toList_append, ← String.toList_append, same]
  have joined (text front rest : List Char) (split : text = front ++ rest) :
      String.ofList text = String.ofList front ++ String.ofList rest := by
    rw [split, String.ofList_append]
  rcases List.append_eq_append_iff.mp lists with ⟨between, longer, rest⟩ | ⟨between, longer, rest⟩
  · refine .inr ⟨String.ofList between, ?_, ?_⟩
    · simpa using joined _ _ _ longer
    · simpa using joined _ _ _ rest
  · refine .inl ⟨String.ofList between, ?_, ?_⟩
    · simpa using joined _ _ _ longer
    · simpa using joined _ _ _ rest

inductive Ending where
  | composite (family : Family)
  | leafFilter
  | negatedLeafFilter
  | deprecatedOperators
  | presenceOperators
  | sortDirections
  | page
deriving DecidableEq

namespace Ending

def all : List Ending :=
  Family.all.map .composite ++
    [leafFilter, negatedLeafFilter, deprecatedOperators, presenceOperators, sortDirections, page]

def text : Ending → String
  | composite family => family.suffix
  | leafFilter => leafFilterName ""
  | negatedLeafFilter => negatedLeafFilterName ""
  | deprecatedOperators => deprecatedOperatorsName
  | presenceOperators => presenceOperatorsName
  | sortDirections => sortDirectionsName
  | page => pageName

-- An ending that is the end of another one, and what stands before it there.
inductive Overlap : Ending → Ending → String → Prop where
  | same (ending : Ending) : Overlap ending ending ""
  | object : Overlap (composite .filter) (composite .objectFilter) "Object"
  | setOn : Overlap (composite .insert) (composite .setOnInsert) "SetOn"
  | negation : Overlap leafFilter negatedLeafFilter "Not"
  | sort : Overlap (composite .sort) sortDirections ""
  | directions : Overlap sortDirections (composite .sort) ""

theorem mem_all (ending : Ending) : ending ∈ all := by
  cases ending with
  | composite family => cases family <;> decide
  | _ => decide

theorem overlap_pairs : ∀ shorter ∈ all, ∀ longer ∈ all, shorter.text.toList <:+ longer.text.toList →
    shorter = longer ∨ (shorter, longer) ∈ [(composite .filter, composite .objectFilter),
      (composite .insert, composite .setOnInsert), (leafFilter, negatedLeafFilter),
      (composite .sort, sortDirections), (sortDirections, composite .sort)] := by
  decide +kernel

theorem overlap_of_suffix (shorter longer : Ending) (front : String) (whole : longer.text = front ++ shorter.text) :
    Overlap shorter longer front := by
  have ends : shorter.text.toList <:+ longer.text.toList := ⟨front.toList, by rw [whole, String.toList_append]⟩
  have cut (known : String) (same : longer.text = known ++ shorter.text) : front = known :=
    (String.append_left_inj _).mp (whole.symm.trans same)
  rcases overlap_pairs shorter (mem_all shorter) longer (mem_all longer) ends with rfl | pair
  · cases cut "" (by simp)
    exact .same shorter
  · simp only [List.mem_cons, Prod.mk.injEq, List.not_mem_nil, or_false] at pair
    rcases pair with ⟨rfl, rfl⟩ | ⟨rfl, rfl⟩ | ⟨rfl, rfl⟩ | ⟨rfl, rfl⟩ | ⟨rfl, rfl⟩
    · cases cut "Object" (by decide)
      exact .object
    · cases cut "SetOn" (by decide)
      exact .setOn
    · cases cut "Not" (by decide)
      exact .negation
    · cases cut "" (by decide)
      exact .sort
    · cases cut "" (by decide)
      exact .directions

end Ending

section

variable (schema : Schema)

inductive Target.Spelled : Target → String → Ending → Prop where
  | composite (family : Family) (id : CompositeIndex) (scope : Scope) (composite : Composite)
      (front : String) (found : schema.composite id = .ok composite) (spelled : stem composite.name = front) :
      Spelled (.composite family id scope) front (.composite family)
  | leafFilter (leaf : String) (isString : Bool) : Spelled (.leafFilter leaf isString) leaf .leafFilter
  | negatedLeafFilter (leaf : String) (isString : Bool) :
      Spelled (.negatedLeafFilter leaf isString) leaf .negatedLeafFilter
  | deprecatedOperators : Spelled .deprecatedOperators "" .deprecatedOperators
  | presenceOperators : Spelled .presenceOperators "" .presenceOperators
  | sortDirections : Spelled .sortDirections "" .sortDirections
  | page : Spelled .page "" .page

theorem spelled_name (target : Target) (front : String) (ending : Ending) (spelled : target.Spelled schema front ending) :
    target.name schema = .ok (front ++ ending.text) := by
  cases spelled with
  | composite family id scope composite front found spelled =>
      exact (composite_name_ok schema family id _).mpr
        ⟨composite, found, spelled ▸ suffixed_eq composite.name family.suffix⟩
  | leafFilter leaf isString => rfl
  | negatedLeafFilter leaf isString => rfl
  | _ => exact congrArg Except.ok (String.empty_append).symm

theorem named_spelled (target : Target) (name : String) (named : target.name schema = .ok name)
    (other : ∀ id, target ≠ .enumCopy id) : ∃ front ending, target.Spelled schema front ending := by
  cases target with
  | composite family id scope =>
      obtain ⟨composite, found, _⟩ := (composite_name_ok schema family id name).mp named
      exact ⟨_, _, .composite family id scope composite _ found rfl⟩
  | enumCopy id => exact absurd rfl (other id)
  | leafFilter leaf isString => exact ⟨_, _, .leafFilter leaf isString⟩
  | negatedLeafFilter leaf isString => exact ⟨_, _, .negatedLeafFilter leaf isString⟩
  | deprecatedOperators => exact ⟨_, _, .deprecatedOperators⟩
  | presenceOperators => exact ⟨_, _, .presenceOperators⟩
  | sortDirections => exact ⟨_, _, .sortDirections⟩
  | page => exact ⟨_, _, .page⟩

theorem update_named (target : Target) (id : CompositeIndex) (name : String) (named : target.name schema = .ok name)
    (updates : compositeName schema .update id = .ok name) (other : ∀ id, target ≠ .enumCopy id) :
    ∃ id scope, target = .composite .update id scope := by
  obtain ⟨front, ending, spelled⟩ := named_spelled schema target name named other
  obtain ⟨composite, _, written⟩ := (composite_name_ok schema .update id name).mp updates
  have text := Except.ok.inj ((spelled_name schema target front ending spelled).symm.trans named)
  rw [← written, suffixed_eq] at text
  have same : ending = .composite .update := by
    rcases append_overlap front (stem composite.name) ending.text _ text with ⟨between, _, whole⟩ | ⟨between, _, whole⟩
    · cases Ending.overlap_of_suffix ending (.composite .update) between whole
      rfl
    · cases Ending.overlap_of_suffix (.composite .update) ending between whole
      rfl
  subst same
  cases spelled with
  | composite _ id scope => exact ⟨id, scope, rfl⟩

-- The ways in which two targets come to share a name.
inductive SharesName : Target → Target → Prop where
  /-- Two composites that differ in a final `Type` at most, in one family. -/
  | stems (family : Family) (a b : CompositeIndex) (first second : Composite) (here : schema.composite a = .ok first)
      (there : schema.composite b = .ok second) (same : stem first.name = stem second.name) :
      SharesName (.composite family a .nested) (.composite family b .nested)
  /-- A filter of a composite that is named like another one followed by `Object`, whose object filter is meant. -/
  | object (a b : CompositeIndex) (first second : Composite) (here : schema.composite a = .ok first)
      (there : schema.composite b = .ok second) (longer : stem first.name = stem second.name ++ "Object") :
      SharesName (.composite .filter a .nested) (.composite .objectFilter b .nested)
  /-- An insert type of a composite that is named like another one followed by `SetOn`. -/
  | setOn (a b : CompositeIndex) (first second : Composite) (here : schema.composite a = .ok first)
      (there : schema.composite b = .ok second) (longer : stem first.name = stem second.name ++ "SetOn") :
      SharesName (.composite .insert a .nested) (.composite .setOnInsert b .nested)
  /-- The filter of a leaf type that is named like another one followed by `Not`. -/
  | negation (leaf other : String) (isString isOther : Bool) (longer : leaf = other ++ "Not") :
      SharesName (.leafFilter leaf isString) (.negatedLeafFilter other isOther)
  /-- The sort type of a composite that has no name but `Type`. -/
  | sort (id : CompositeIndex) (composite : Composite) (found : schema.composite id = .ok composite)
      (nothing : stem composite.name = "") : SharesName (.composite .sort id .nested) .sortDirections
  /-- An enum that is declared under the name of another target. -/
  | enum (id : EnumIndex) (definition : Enumeration) (found : schema.enumeration id = .ok definition) (target : Target)
      (other : ∀ copied, target ≠ .enumCopy copied) (named : target.name schema = .ok definition.name) :
      SharesName (.enumCopy id) target

theorem shares_name (a b : Target) (shares : SharesName schema a b) : a.name schema = b.name schema := by
  have equal (front other : String) (ending longer : Ending) (first : a.Spelled schema front ending)
      (second : b.Spelled schema other longer) (same : front ++ ending.text = other ++ longer.text) :
      a.name schema = b.name schema := by
    rw [spelled_name schema a front ending first, spelled_name schema b other longer second, same]
  cases shares with
  | stems family a b first second here there same =>
      exact equal _ _ _ _ (.composite family a _ first _ here same) (.composite family b _ second _ there rfl) rfl
  | object a b first second here there longer =>
      exact equal _ _ _ _ (.composite .filter a _ first _ here longer)
        (.composite .objectFilter b _ second _ there rfl) (String.append_assoc ..)
  | setOn a b first second here there longer =>
      exact equal _ _ _ _ (.composite .insert a _ first _ here longer)
        (.composite .setOnInsert b _ second _ there rfl) (String.append_assoc ..)
  | negation leaf other isString isOther longer =>
      refine equal _ _ _ _ (.leafFilter leaf isString) (.negatedLeafFilter other isOther) ?_
      rw [longer, String.append_assoc]
      rfl
  | sort id composite found nothing =>
      exact equal _ _ _ _ (.composite .sort id _ composite _ found nothing) .sortDirections rfl
  | enum id definition found target other named =>
      rw [named, Target.name, found]
      rfl

theorem target_nested (target : Target) (of : target ∈ targets schema) : target.bare = target := by
  rcases target_cases schema target of with ⟨family, id, rfl, _⟩ | ⟨type, _, inside⟩ | shared
  · rfl
  · obtain ⟨_, _, _, rfl | rfl | ⟨_, _, rfl⟩⟩ := leaf_target_shape schema type target inside <;> rfl
  · simp only [sharedTargets, List.mem_cons, List.not_mem_nil, or_false] at shared
    rcases shared with rfl | rfl | rfl | rfl <;> rfl

theorem leaf_target_field (target : Target) (of : target ∈ targets schema) (leaf : String)
    (mine : target.leaf? = some leaf) : ∃ type ∈ schema.fieldTypes, type.composite? = none ∧ leafName schema type = .ok leaf ∧
      (target = .leafFilter leaf (isStringLeaf type) ∨ target = .negatedLeafFilter leaf (isStringLeaf type)) := by
  rcases target_cases schema target of with ⟨family, id, rfl, _⟩ | ⟨type, used, inside⟩ | shared
  · cases mine
  · obtain ⟨plain, held, named, rfl | rfl | ⟨id, _, rfl⟩⟩ := leaf_target_shape schema type target inside
    · cases mine
      exact ⟨type, used, plain, named, .inl rfl⟩
    · cases mine
      exact ⟨type, used, plain, named, .inr rfl⟩
    · cases mine
  · simp only [sharedTargets, List.mem_cons, List.not_mem_nil, or_false] at shared
    rcases shared with rfl | rfl | rfl | rfl <;> cases mine

theorem spelled_composite (target : Target) (of : target ∈ targets schema) (family : Family) (front : String)
    (spelled : target.Spelled schema front (.composite family)) : ∃ id composite, target = .composite family id .nested ∧
      schema.composite id = .ok composite ∧ stem composite.name = front := by
  cases spelled with
  | composite _ id scope composite _ found text =>
      have same := target_nested schema _ of
      simp only [Target.bare, Target.composite.injEq, true_and] at same
      cases same
      exact ⟨id, composite, rfl, found, text⟩

variable (leaves : schema.HasLeaves)
  (builtins : ∀ composite ∈ schema.composites, ∀ field ∈ composite.fields, schema.BuiltinApart field.type)

include leaves builtins in
theorem string_leaf_named (type other : FieldType) (used : type ∈ schema.fieldTypes) (also : other ∈ schema.fieldTypes)
    (plain : other.composite? = none) (leaf : String) (named : leafName schema type = .ok leaf)
    (same : leafName schema other = .ok leaf) (string : isStringLeaf type = true) : isStringLeaf other = true := by
  obtain ⟨owner, declared, inside⟩ := List.mem_flatMap.mp used
  obtain ⟨field, listed, rfl⟩ := List.mem_map.mp inside
  have innermost : field.type.innermost = .scalar .string := by
    unfold isStringLeaf at string
    split at string
    · assumption
    · cases string
  have apart := builtins owner declared field listed .string innermost rfl
  rw [List.mem_append, not_or] at apart
  rw [leafName, innermost] at named
  cases named
  obtain ⟨holder, held, within⟩ := List.mem_flatMap.mp also
  obtain ⟨twin, among, rfl⟩ := List.mem_map.mp within
  unfold leafName at same
  unfold isStringLeaf
  cases found : twin.type.innermost with
  | scalar scalar =>
      rw [found] at same
      cases scalar with
      | string => rfl
      | custom name =>
          cases same
          exact absurd (leaves.declared holder held twin among _ found) apart.2
      | _ => exact absurd (Except.ok.inj same) (by decide)
  | enum id =>
      rw [found] at same
      obtain ⟨definition, located, text⟩ := (except_bind_ok _ _ _).mp same
      have listed := List.mem_map_of_mem (f := Enumeration.name) (Schema.enumeration_mem schema id definition located)
      rw [Except.ok.inj text] at listed
      exact absurd listed apart.1
  | composite kind id => simp [FieldType.composite?, found] at plain

include leaves builtins in
theorem string_leaf_unique (type other : FieldType) (used : type ∈ schema.fieldTypes) (also : other ∈ schema.fieldTypes)
    (plain : type.composite? = none) (simple : other.composite? = none) (leaf : String)
    (named : leafName schema type = .ok leaf) (same : leafName schema other = .ok leaf) :
    isStringLeaf type = isStringLeaf other := by
  rw [Bool.eq_iff_iff]
  exact ⟨string_leaf_named schema leaves builtins type other used also simple leaf named same,
    string_leaf_named schema leaves builtins other type also used plain leaf same named⟩

variable (a b : Target) (first : a ∈ targets schema) (second : b ∈ targets schema)

include leaves builtins first second in
theorem leaf_target_unique (leaf : String) (ending : Ending) (left : a.Spelled schema leaf ending)
    (right : b.Spelled schema leaf ending) (mine : a.leaf? = some leaf) (theirs : b.leaf? = some leaf) : a = b := by
  obtain ⟨type, used, plain, named, shape⟩ := leaf_target_field schema a first leaf mine
  obtain ⟨other, also, simple, same, form⟩ := leaf_target_field schema b second leaf theirs
  have string := string_leaf_unique schema leaves builtins type other used also plain simple leaf named same
  rcases shape with rfl | rfl
  · cases left
    rcases form with rfl | rfl
    · rw [string]
    · cases right
  · cases left
    rcases form with rfl | rfl
    · cases right
    · rw [string]

include leaves builtins first second in
theorem overlap_shares (front other between : String) (ending longer : Ending) (left : a.Spelled schema front ending)
    (right : b.Spelled schema other longer) (overlap : Ending.Overlap ending longer between)
    (fronts : front = other ++ between) (different : a ≠ b) : SharesName schema a b ∨ SharesName schema b a := by
  cases overlap with
  | same ending =>
      rw [String.append_empty] at fronts
      subst fronts
      cases ending with
      | composite family =>
          obtain ⟨id, composite, rfl, found, text⟩ := spelled_composite schema a first family front left
          obtain ⟨held, twin, rfl, there, same⟩ := spelled_composite schema b second family front right
          exact .inl (.stems family id held composite twin found there (text.trans same.symm))
      | leafFilter | negatedLeafFilter =>
          have mine : a.leaf? = some front := by cases left; rfl
          have theirs : b.leaf? = some front := by cases right; rfl
          exact absurd (leaf_target_unique schema leaves builtins a b first second front _ left right mine theirs) different
      | _ =>
          cases left
          cases right
          exact absurd rfl different
  | object =>
      obtain ⟨id, composite, rfl, found, text⟩ := spelled_composite schema a first .filter front left
      obtain ⟨held, twin, rfl, there, same⟩ := spelled_composite schema b second .objectFilter other right
      exact .inl (.object id held composite twin found there (by rw [text, fronts, same]))
  | setOn =>
      obtain ⟨id, composite, rfl, found, text⟩ := spelled_composite schema a first .insert front left
      obtain ⟨held, twin, rfl, there, same⟩ := spelled_composite schema b second .setOnInsert other right
      exact .inl (.setOn id held composite twin found there (by rw [text, fronts, same]))
  | negation =>
      cases left with
      | leafFilter _ isString =>
          cases right with
          | negatedLeafFilter _ isOther => exact .inl (.negation front other isString isOther fronts)
  | sort =>
      obtain ⟨id, composite, rfl, found, text⟩ := spelled_composite schema a first .sort front left
      cases right
      exact .inl (.sort id composite found (text.trans fronts))
  | directions =>
      obtain ⟨id, composite, rfl, found, text⟩ := spelled_composite schema b second .sort other right
      cases left
      exact .inr (.sort id composite found (by rw [text, ← String.append_empty (s := other), ← fronts]))

variable (apart : schema.NamesApart)

include leaves builtins apart first second in
theorem name_shared (name : String) (left : a.name schema = .ok name) (right : b.name schema = .ok name) (different : a ≠ b) :
    SharesName schema a b ∨ SharesName schema b a := by
  by_cases copy : ∃ id, a = .enumCopy id
  · obtain ⟨id, rfl⟩ := copy
    obtain ⟨definition, found, same⟩ := (except_bind_ok _ _ _).mp left
    cases Except.ok.inj same
    refine .inl (.enum id definition found b ?_ right)
    rintro held rfl
    obtain ⟨copied, also, same⟩ := (except_bind_ok _ _ _).mp right
    have one := Schema.enum_index_unique schema apart id held definition copied found also (Except.ok.inj same).symm
    exact different (by rw [one])
  · by_cases copied : ∃ id, b = .enumCopy id
    · obtain ⟨id, rfl⟩ := copied
      obtain ⟨definition, found, same⟩ := (except_bind_ok _ _ _).mp right
      cases Except.ok.inj same
      exact .inr (.enum id definition found a (fun held same => copy ⟨held, same⟩) left)
    · obtain ⟨front, ending, spelled⟩ := named_spelled schema a name left (fun id same => copy ⟨id, same⟩)
      obtain ⟨other, longer, written⟩ := named_spelled schema b name right (fun id same => copied ⟨id, same⟩)
      have text : front ++ ending.text = other ++ longer.text := by
        have mine := (spelled_name schema a front ending spelled).symm.trans left
        have theirs := (spelled_name schema b other longer written).symm.trans right
        exact (Except.ok.inj mine).trans (Except.ok.inj theirs).symm
      rcases append_overlap front other ending.text longer.text text with ⟨between, fronts, whole⟩ | ⟨between, fronts, whole⟩
      · exact overlap_shares schema leaves builtins a b first second front other between ending longer spelled written
          (Ending.overlap_of_suffix ending longer between whole) fronts different
      · exact (overlap_shares schema leaves builtins b a second first other front between longer ending written spelled
          (Ending.overlap_of_suffix longer ending between whole) fronts different.symm).symm

include leaves builtins apart in
theorem answer_built (sound : schema.Sound) (session : Session) (reached : session.Reached schema) (call : Call)
    (admitted : call.Admitted schema) (answer : Answer) (answered : (session.call schema call).2.2 = .ok answer) :
    ∀ type ∈ answer.types, ∃ (needs : List Need) (requested built : Target) (entry : InputType),
      call.needs schema = .ok needs ∧ .type requested ∈ needs ∧ requested.name schema = .ok type.named ∧
      (session.call schema call).1.registry.lookup? type.named = some entry ∧ built.definition schema = .ok entry ∧
      (built.bare = requested.bare ∨ SharesName schema built.bare requested.bare ∨
        SharesName schema requested.bare built.bare) := by
  intro type listed
  have grounded := reached_grounded schema sound _ (.call session call reached admitted)
  cases call_ends schema sound session call admitted with
  | refused id about outside result =>
      rw [result] at answered
      cases answered
  | answered needs draft given within needed met replied result =>
      rw [result] at answered grounded ⊢
      cases Except.ok.inj answered
      obtain ⟨requested, member, named⟩ := answer_target schema leaves call within needs answer needed replied type listed
      obtain ⟨_, same, held⟩ := met_registers schema needs _ draft met requested member
      cases same.symm.trans named
      obtain ⟨entry, found⟩ := (Registry.contains_iff _ _).mp held
      obtain ⟨built, settled⟩ := grounded _ entry found
      obtain ⟨_, again, types, _⟩ := call_needs schema sound call admitted within
      cases again.symm.trans needed
      refine ⟨needs, requested, built, entry, needed, member, named, found, settled.defined, ?_⟩
      by_cases one : built.bare = requested.bare
      · exact .inl one
      · exact .inr (name_shared schema leaves builtins built.bare requested.bare settled.allowed (types requested member) apart
          _ (by rw [Target.bare_name, settled.named]) (by rw [Target.bare_name, named]) one)

end

-- In a schema that is read from text, names coincide in these ways only.
theorem name_coincidences (text : String) (schema : Schema) (read : Schema.ofText text = .ok schema) :
    (∀ a ∈ targets schema, ∀ b ∈ targets schema, a ≠ b →
      (a.name schema = b.name schema ↔ SharesName schema a b ∨ SharesName schema b a)) ∧
    ∀ session : Session, session.Reached schema → ∀ call : Call, call.Admitted schema → ∀ answer : Answer,
      (session.call schema call).2.2 = .ok answer → ∀ type ∈ answer.types,
        ∃ (needs : List Need) (requested built : Target) (entry : InputType),
          call.needs schema = .ok needs ∧ .type requested ∈ needs ∧ requested.name schema = .ok type.named ∧
          (session.call schema call).1.registry.lookup? type.named = some entry ∧ built.definition schema = .ok entry ∧
          (built.bare = requested.bare ∨ SharesName schema built.bare requested.bare ∨
            SharesName schema requested.bare built.bare) := by
  have sound := Schema.sound_of_text text schema read
  have leaves := Schema.leaves_of_text text schema read
  have builtins := Schema.builtins_of_text text schema read
  have apart := Schema.names_apart_of_text text schema read
  refine ⟨?_, answer_built schema leaves builtins apart sound⟩
  intro a first b second different
  constructor
  · intro same
    have of : a.Of schema := by
      rw [Target.Of, target_nested schema a first]
      exact first
    obtain ⟨name, named⟩ := target_named schema sound a of
    exact name_shared schema leaves builtins a b first second apart name named (same ▸ named) different
  · intro shares
    rcases shares with left | right
    · exact shares_name schema a b left
    · exact (shares_name schema b a right).symm

def carsText : String :=
  "type Car { wheels: Int } type CarType { code: String } type CarObject { car: Car }"

def cars : Schema where
  composites := [
    { name := "Car", kind := .object, fields := [{ name := "wheels", type := .scalar .int }] },
    { name := "CarType", kind := .object, fields := [{ name := "code", type := .scalar .string }] },
    { name := "CarObject", kind := .object, fields := [{ name := "car", type := .named (.composite .object ⟨0⟩) }] }]

def carSession : Session := (Session.call cars {} (.composite .filter ⟨0⟩ [])).1

theorem car_coincidences : Schema.ofText carsText = .ok cars ∧
    Target.name cars (.composite .filter ⟨2⟩ .nested) = Target.name cars (.composite .objectFilter ⟨0⟩ .nested) ∧
    carSession.Reached cars ∧
    (carSession.call cars (.composite .filter ⟨1⟩ [])).2.2 = .ok (.reference ⟨"CarFilterType"⟩) ∧
    ∃ entry, (carSession.call cars (.composite .filter ⟨1⟩ [])).1.registry.lookup? "CarFilterType" = some entry := by
  have read : Schema.ofText carsText = .ok cars := by decide +kernel
  have reached : carSession.Reached cars := .call {} (.composite .filter ⟨0⟩ []) .fresh trivial
  have answered : (carSession.call cars (.composite .filter ⟨1⟩ [])).2.2 = .ok (.reference ⟨"CarFilterType"⟩) := by
    decide +kernel
  obtain ⟨names, built⟩ := name_coincidences carsText cars read
  obtain ⟨_, _, _, entry, _, _, _, found, _⟩ := built carSession reached (.composite .filter ⟨1⟩ []) trivial _ answered _
    (List.mem_singleton.mpr rfl)
  have shares : SharesName cars (.composite .filter ⟨2⟩ .nested) (.composite .objectFilter ⟨0⟩ .nested) :=
    .object ⟨2⟩ ⟨0⟩ _ _ rfl rfl (by decide +kernel)
  have plain : TypeRef.named ⟨"CarFilterType"⟩ = "CarFilterType" :=
    TypeRef.named_of_name _ (TypeRef.is_name_of_last _ 'e' (by decide) (by decide) (by decide))
  rw [plain] at found
  exact ⟨read, (names _ (by decide +kernel) _ (by decide +kernel) (by decide)).mpr (.inl shares), reached, answered, entry, found⟩

theorem car_filters_collide : Schema.ofText carsText = .ok cars ∧
    Target.composite .filter ⟨0⟩ .nested ∈ targets cars ∧ Target.composite .filter ⟨1⟩ .nested ∈ targets cars ∧
    Target.composite .filter ⟨0⟩ .nested ≠ .composite .filter ⟨1⟩ .nested ∧
    Target.name cars (.composite .filter ⟨0⟩ .nested) = Target.name cars (.composite .filter ⟨1⟩ .nested) ∧
    (carSession.call cars (.composite .filter ⟨1⟩ [])).2.2 = .ok (.reference ⟨"CarFilterType"⟩) ∧
    (carSession.call cars (.composite .filter ⟨1⟩ [])).1.registry.inputObject? "CarFilterType" =
      (Target.definition cars (.composite .filter ⟨0⟩ (.root []))).toOption.bind InputType.object? ∧
    (carSession.call cars (.composite .filter ⟨1⟩ [])).1.registry.inputObject? "CarFilterType" ≠
      (Target.definition cars (.composite .filter ⟨1⟩ (.root []))).toOption.bind InputType.object? := by
  decide +kernel

end DocGraph.Derivation
