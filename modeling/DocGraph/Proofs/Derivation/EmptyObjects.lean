import DocGraph.Proofs.Derivation.Sessions

set_option autoImplicit false

namespace DocGraph

theorem InputObject.make_empty_iff (name : String) (description : Option String) (fields : List InputValue) :
    (make name description fields).fields = [] ↔ fields = [] := Keyed.collect_nil_iff InputValue.name fields

namespace Derivation

def Target.Whole : Target → Prop
  | .composite _ _ scope => scope.excluded = []
  | _ => True

def Call.Whole : Call → Prop
  | .composite _ _ excluded | .queryArguments _ excluded | .updateArguments _ excluded => excluded = []
  | _ => True

variable (schema : Schema)

inductive Session.WholeReached : Session → Prop where
  | fresh : WholeReached {}
  | call (session : Session) (call : Call) (before : WholeReached session) (whole : call.Whole) :
      WholeReached (session.call schema call).1
  | clear (session : Session) (before : WholeReached session) : WholeReached session.clear

def bareFamilies : List Family := [.insert, .setOnInsert, .setListObject]

inductive Target.Unstored : Target → Prop where
  | composite (family : Family) (id : CompositeIndex) (scope : Scope) (composite : Composite)
      (among : family ∈ bareFamilies) (found : schema.composite id = .ok composite)
      (computed : ∀ field ∈ composite.fields, field.isComputed = true) : Unstored (.composite family id scope)

def WholeEntries (registry : Registry) : Prop :=
  ∀ key type, registry.lookup? key = some type →
    ∃ target : Target, target.Whole ∧ target.name schema = .ok key ∧ target.definition schema = .ok type

theorem whole_needed (target needed : Target) (whole : target.Whole) (needs : Needed schema target needed) :
    needed.Whole := by
  cases needs with
  | part id scope part among => exact whole
  | field family id scope composite field found taken _ inside =>
      cases inside with
      | nested id leads => exact rfl
      | _ => trivial
  | own family id scope composite _ _ member =>
      have shared := own_needs_of family id _ needed member
      simp only [sharedTargets, List.mem_cons, List.not_mem_nil, or_false] at shared
      rcases shared with rfl | rfl | rfl | rfl <;> trivial
  | negated leaf isString => trivial
  | operators leaf isString => trivial

theorem whole_insert (registry : Registry) (target : Target) (name : String) (type : InputType)
    (entries : WholeEntries schema registry) (whole : target.Whole) (named : target.name schema = .ok name)
    (defined : target.definition schema = .ok type) : WholeEntries schema (registry.insert name type) := by
  intro key held found
  rw [Registry.lookup_insert] at found
  split at found
  · rename_i same
    cases found
    exact ⟨target, whole, same ▸ named, defined⟩
  · exact entries key held found

theorem whole_needs_met (bound : Nat)
    (types : ∀ (target : Target) (draft after : Draft), target.Whole → WholeEntries schema draft.registry →
      derive schema bound target draft = .ok after → WholeEntries schema after.registry)
    (needs : List Need) (draft after : Draft) (whole : ∀ target, .type target ∈ needs → target.Whole)
    (entries : WholeEntries schema draft.registry)
    (met : needs.foldlM (Draft.meet schema (derive schema bound)) draft = .ok after) :
    WholeEntries schema after.registry := by
  refine except_fold_keeps _ (fun held => WholeEntries schema held.registry) needs draft after entries ?_ met
  intro need member held next known step
  cases need with
  | type target => exact types target held next (whole target member) known step
  | notice id => exact (notify_registry schema held next id step).symm ▸ known

theorem whole_derived (bound : Nat) : ∀ (target : Target) (draft after : Draft), target.Whole →
    WholeEntries schema draft.registry → derive schema bound target draft = .ok after →
      WholeEntries schema after.registry := by
  induction bound with
  | zero =>
      intro target draft after _ entries derived
      obtain ⟨name, _, later⟩ := (except_bind_ok _ _ _).mp derived
      split at later <;> exact Except.ok.inj later ▸ entries
  | succ bound ih =>
      intro target draft after whole entries derived
      obtain ⟨name, named, later⟩ := (except_bind_ok _ _ _).mp derived
      split at later
      · exact Except.ok.inj later ▸ entries
      · obtain ⟨type, defined, later⟩ := (except_bind_ok _ _ _).mp later
        obtain ⟨needs, listed, met⟩ := (except_bind_ok _ _ _).mp later
        have inserted := whole_insert schema draft.registry target name type entries whole named defined
        refine whole_needs_met schema bound ih needs _ after (fun needed member => ?_) inserted met
        exact whole_needed schema target needed whole ((needs_iff schema target needs listed needed).mp member)

theorem whole_call_needs (call : Call) (whole : call.Whole) (needs : List Need) (listed : call.needs schema = .ok needs)
    (target : Target) (member : .type target ∈ needs) : target.Whole := by
  rcases call_need_cases schema call needs listed target member with ⟨family, among, id, rfl⟩ | other
  · cases call with
    | composite | queryArguments | updateArguments => exact whole
    | _ => cases among
  · cases target with
    | composite family id scope => exact absurd rfl (other family id scope)
    | _ => trivial

theorem whole_call (session : Session) (call : Call) (whole : call.Whole) (entries : WholeEntries schema session.registry) :
    WholeEntries schema (session.call schema call).1.registry := by
  unfold Session.call
  dsimp only
  split
  · exact entries
  · rename_i draft answer run
    obtain ⟨needs, listed, later⟩ := (except_bind_ok _ _ _).mp run
    obtain ⟨held, met, last⟩ := (except_bind_ok _ _ _).mp later
    obtain ⟨_, _, same⟩ := (except_bind_ok _ _ _).mp last
    cases Except.ok.inj same
    exact whole_needs_met schema _ (whole_derived schema _) needs _ draft (whole_call_needs schema call whole needs listed)
      entries met

theorem whole_entries (session : Session) (reached : session.WholeReached schema) :
    WholeEntries schema session.registry := by
  induction reached with
  | fresh | clear => exact fun _ _ found => nomatch found
  | call session call _ whole ih => exact whole_call schema session call whole ih

theorem own_fields_nil_iff (family : Family) (name : String) (other : family ≠ .update) :
    ownFields family name true = [] ↔ family ∈ bareFamilies := by
  cases family with
  | update => exact absurd rfl other
  | _ => simp [ownFields, bareFamilies, Combinator.all]

theorem bare_takes (family : Family) (among : family ∈ bareFamilies) (field : Field) :
    family.takes field = true := by
  simp only [bareFamilies, List.mem_cons, List.not_mem_nil, or_false] at among
  rcases among with rfl | rfl | rfl <;> rfl

theorem taken_nil_iff (composite : Composite) (family : Family) (scope : Scope) (whole : scope.excluded = [])
    (among : family ∈ bareFamilies) :
    takenFields composite family scope = [] ↔ ∀ field ∈ composite.fields, field.isComputed = true := by
  rw [takenFields, whole, List.filter_eq_self.mpr (fun field _ => bare_takes family among field)]
  simp [Composite.storedFields, Composite.fieldsExcept, Field.isStored]

theorem composite_empty_iff (family : Family) (id : CompositeIndex) (scope : Scope) (whole : scope.excluded = [])
    (object : InputObject) (defined : (Target.composite family id scope).definition schema = .ok (.object object)) :
    object.fields = [] ↔ (Target.composite family id scope).Unstored schema := by
  by_cases update : family = .update
  · subst update
    obtain ⟨_, _, later⟩ := (except_bind_ok _ _ _).mp defined
    obtain ⟨fields, listed, whole⟩ := (except_bind_ok _ _ _).mp later
    cases Except.ok.inj whole
    obtain ⟨_, _, parts⟩ := (except_bind_ok _ _ _).mp listed
    rw [InputObject.make_empty_iff, except_map_list_nil_iff _ _ fields parts]
    refine iff_of_false nofun ?_
    rintro ⟨_, _, _, _, among, _, _⟩
    simp [bareFamilies] at among
  · obtain ⟨name, named, _⟩ := (except_bind_ok _ _ _).mp defined
    obtain ⟨composite, found, rfl⟩ := (composite_name_ok schema family id name).mp named
    obtain ⟨fields, mapped, same⟩ := composite_definition schema family id scope composite _ found update defined
    cases same
    rw [InputObject.make_empty_iff, List.append_eq_nil_iff, except_map_list_nil_iff _ _ fields mapped]
    constructor
    · rintro ⟨empty, own⟩
      rw [empty] at own
      have among := (own_fields_nil_iff family _ update).mp own
      exact .composite family id scope composite among found ((taken_nil_iff composite family scope whole among).mp empty)
    · rintro ⟨_, _, _, other, among, located, computed⟩
      cases located.symm.trans found
      have empty := (taken_nil_iff composite family scope whole among).mpr computed
      rw [empty]
      exact ⟨rfl, (own_fields_nil_iff family _ update).mpr among⟩

theorem definition_empty_iff (target : Target) (whole : target.Whole) (object : InputObject)
    (defined : target.definition schema = .ok (.object object)) : object.fields = [] ↔ target.Unstored schema := by
  have filled (name : String) (description : Option String) (fields : List InputValue) (some : fields ≠ [])
      (same : object = .make name description fields) (other : ¬ target.Unstored schema) :
      object.fields = [] ↔ target.Unstored schema := by
    subst same
    exact iff_of_false (mt (InputObject.make_empty_iff name description fields).mp some) other
  cases target with
  | composite family id scope => exact composite_empty_iff schema family id scope whole object defined
  | enumCopy id =>
      obtain ⟨_, _, same⟩ := (except_bind_ok _ _ _).mp defined
      cases Except.ok.inj same
  | leafFilter leaf isString =>
      exact filled _ _ _ (by simp [leafFilterFields]) (InputType.object.inj (Except.ok.inj defined)).symm nofun
  | negatedLeafFilter leaf isString =>
      refine filled _ _ _ ?_ (InputType.object.inj (Except.ok.inj defined)).symm nofun
      cases isString <;> simp [operandFields, Operator.all, Operator.forStringsOnly]
  | page => exact filled _ _ _ (List.cons_ne_nil _ _) (InputType.object.inj (Except.ok.inj defined)).symm nofun
  | _ => cases defined

-- For every schema and every session in which nothing was left out, every input object has a field, apart from those that
-- have the stored fields of a composite alone, where nothing is stored.
theorem empty_objects (session : Session) (reached : session.WholeReached schema) (key : String) (object : InputObject)
    (found : session.registry.inputObject? key = some object) :
    ∃ target : Target, target.name schema = .ok key ∧ target.definition schema = .ok (.object object) ∧
      (object.fields = [] ↔ target.Unstored schema) := by
  obtain ⟨type, entered, shown⟩ := Option.bind_eq_some_iff.mp found
  obtain ⟨target, whole, named, defined⟩ := whole_entries schema session reached key type entered
  cases type with
  | object held =>
      cases shown
      exact ⟨target, named, defined, definition_empty_iff schema target whole object defined⟩
  | enum _ => cases shown

def parcelText : String :=
  "type Parcel \x7b name: String, stamp: Stamp \x7d type Stamp \x7b label: String @computed \x7d"

def parcels : Schema where
  composites := [
    { name := "Parcel", kind := .object, fields := [
      { name := "name", type := .scalar .string },
      { name := "stamp", type := .named (.composite .object ⟨1⟩) }] },
    { name := "Stamp", kind := .object, fields := [
      { name := "label", type := .scalar .string, origin := .computed none }] }]

def parcelSession : Session := (Session.call parcels {} (.composite .insert ⟨0⟩ [])).1

def parcelInsert : InputObject where
  name := "ParcelInsertType"
  fields := [{ name := "name", type := ⟨"String"⟩ }, { name := "stamp", type := ⟨"StampInsertType"⟩ }]

theorem parcels_filled : Schema.ofText parcelText = .ok parcels ∧ parcelSession.WholeReached parcels ∧
    parcelSession.registry.inputObject? "ParcelInsertType" = some parcelInsert ∧
    ∃ target : Target, target.name parcels = .ok "ParcelInsertType" ∧
      target.definition parcels = .ok (.object parcelInsert) ∧ ¬ target.Unstored parcels := by
  have reached : parcelSession.WholeReached parcels := .call {} (.composite .insert ⟨0⟩ []) .fresh rfl
  have found : parcelSession.registry.inputObject? "ParcelInsertType" = some parcelInsert := by decide +kernel
  obtain ⟨target, named, defined, same⟩ := empty_objects parcels parcelSession reached "ParcelInsertType" parcelInsert found
  exact ⟨by decide +kernel, reached, found, target, named, defined, fun unstored => nomatch same.mpr unstored⟩

theorem stamp_empty : Schema.ofText parcelText = .ok parcels ∧ parcelSession.WholeReached parcels ∧
    parcelSession.registry.inputObject? "StampInsertType" = some ⟨"StampInsertType", none, []⟩ :=
  ⟨by decide +kernel, .call {} (.composite .insert ⟨0⟩ []) .fresh rfl, by decide +kernel⟩

end Derivation

end DocGraph
