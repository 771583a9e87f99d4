import DocGraph.InputType.Printer
import DocGraph.Proofs.Derivation.Closed

set_option autoImplicit false

namespace DocGraph.Derivation

def Target.Plain : Target → Prop
  | .composite family _ scope => family ≠ .insert ∧ scope.excluded = []
  | _ => True

def Call.Plain : Call → Prop
  | .composite family _ excluded => family ≠ .insert ∧ excluded = []
  | .queryArguments _ excluded | .updateArguments _ excluded => excluded = []
  | _ => True

variable (schema : Schema)

theorem nested_plain (family : Family) (type : FieldType) (other : family ≠ .insert) : family.nested type ≠ .insert := by
  cases family with
  | insert => exact absurd rfl other
  | set | setObject =>
      intro same
      simp only [Family.nested] at same
      split at same <;> cases same
  | _ =>
      intro same
      cases same

theorem shared_plain (target : Target) (shared : target ∈ sharedTargets) : target.Plain := by
  simp only [sharedTargets, List.mem_cons, List.not_mem_nil, or_false] at shared
  rcases shared with rfl | rfl | rfl | rfl <;> trivial

theorem field_needs_plain (family : Family) (type : FieldType) (needed : Target) (other : family ≠ .insert)
    (needs : FieldNeeds schema family type needed) : needed.Plain := by
  cases needs with
  | nested id leads => exact ⟨nested_plain family type other, rfl⟩
  | _ => trivial

theorem needed_plain (target needed : Target) (plain : target.Plain) (needs : Needed schema target needed) :
    needed.Plain := by
  cases needs with
  | part id scope part among =>
      simp only [updateParts, List.mem_cons, List.not_mem_nil, or_false] at among
      rcases among with rfl | rfl | rfl <;> exact ⟨by decide, plain.2⟩
  | field family id scope composite field found taken _ needs =>
      exact field_needs_plain schema family field.type needed plain.1 needs
  | own family id scope composite _ _ member => exact shared_plain needed (own_needs_of family id _ needed member)
  | negated leaf isString => trivial
  | operators leaf isString => trivial

theorem taken_fields_excluded (composite : Composite) (family : Family) (scope other : Scope)
    (same : scope.excluded = other.excluded) : takenFields composite family scope = takenFields composite family other := by
  rw [takenFields, takenFields, same]

theorem wrapped_plain (family : Family) (scope other : Scope) (field : Field) (reference : TypeRef)
    (plain : family ≠ .insert) : wrapped family scope field reference = wrapped family other field reference := by
  cases family with
  | insert => exact absurd rfl plain
  | _ => rfl

theorem plain_definition (a b : Target) (first : a.Plain) (second : b.Plain) (same : a.bare = b.bare) :
    a.definition schema = b.definition schema := by
  cases a with
  | composite family id scope =>
      cases b with
      | composite family' id' scope' =>
          simp only [Target.bare, Target.composite.injEq, and_true] at same
          obtain ⟨rfl, rfl⟩ := same
          have taken (composite : Composite) : takenFields composite family scope = takenFields composite family scope' :=
            taken_fields_excluded composite family scope scope' (first.2.trans second.2.symm)
          have input : inputField schema family scope = inputField schema family scope' := by
            funext field
            simp only [inputField, wrapped_plain family scope scope' field _ first.1]
          have fields : compositeFields schema family id scope = compositeFields schema family id scope' := by
            simp only [compositeFields, taken, input]
          simp only [Target.definition, fields]
      | _ => cases same
  | _ => exact congrArg (Target.definition schema) (bare_other b _ same.symm (by simp)).symm

theorem plain_needs (a b : Target) (first : a.Plain) (second : b.Plain) (same : a.bare = b.bare) (needed : Target)
    (needs : Needed schema a needed) : ∃ other, Needed schema b other ∧ other.bare = needed.bare := by
  cases a with
  | composite family id scope =>
      cases b with
      | composite family' id' scope' =>
          simp only [Target.bare, Target.composite.injEq, and_true] at same
          obtain ⟨rfl, rfl⟩ := same
          have taken (composite : Composite) : takenFields composite family scope = takenFields composite family scope' :=
            taken_fields_excluded composite family scope scope' (first.2.trans second.2.symm)
          cases needs with
          | part _ _ part among => exact ⟨.composite part.2 id scope', .part id scope' part among, rfl⟩
          | field _ _ _ composite field found given _ inside =>
              exact ⟨needed, .field family id scope' composite field found (taken composite ▸ given) needed inside, rfl⟩
          | own _ _ _ composite found _ member =>
              exact ⟨needed, .own family id scope' composite found needed (taken composite ▸ member), rfl⟩
      | _ => cases same
  | _ =>
      cases bare_other b _ same.symm (by simp)
      exact ⟨needed, needs, rfl⟩

structure PlainOf (target : Target) : Prop where
  of : target.Of schema
  plain : target.Plain

theorem plain_of_needed (sound : schema.Sound) (target needed : Target) (allowed : PlainOf schema target)
    (needs : Needed schema target needed) : PlainOf schema needed :=
  ⟨needed_of schema sound target needed allowed.of needs, needed_plain schema target needed allowed.plain needs⟩

theorem plain_supplied (sound : schema.Sound) (known : Registry) : Supplied schema (PlainOf schema) known where
  of := fun _ allowed => allowed.of
  needs := fun target needs allowed listed _ needed member =>
    plain_of_needed schema sound target needed allowed ((needs_iff schema target needs listed needed).mp member)

theorem call_needs_plain (call : Call) (plain : call.Plain) (needs : List Need) (listed : call.needs schema = .ok needs)
    (needed : Target) (member : .type needed ∈ needs) : needed.Plain := by
  rcases call_need_cases schema call needs listed needed member with ⟨family, among, id, rfl⟩ | other
  · cases call with
    | composite held _ excluded =>
        cases List.mem_singleton.mp among
        exact plain
    | queryArguments | updateArguments =>
        refine ⟨?_, plain⟩
        rintro rfl
        simp [Call.families] at among
    | _ => cases among
  · cases needed with
    | composite family id scope => exact absurd rfl (other family id scope)
    | _ => trivial

theorem registered_bare (registry : Registry) (a b : Target) (same : a.bare = b.bare)
    (registered : Registered schema registry a) : Registered schema registry b := by
  obtain ⟨name, named, contained⟩ := registered
  refine ⟨name, ?_, contained⟩
  rw [← Target.bare_name, ← same, Target.bare_name]
  exact named

section

variable (sound : schema.Sound) (free : CollisionFree schema) (calls others : List Call)
  (admitted : ∀ call ∈ calls, call.Admitted schema) (plain : ∀ call ∈ calls, call.Plain)

include sound admitted plain in
theorem run_needs_plain : ∀ call ∈ calls, call.Within schema → ∀ needs, call.needs schema = .ok needs →
    ∀ target, .type target ∈ needs → PlainOf schema target := by
  intro call member within needs listed target needed
  obtain ⟨_, again, types, _⟩ := call_needs schema sound call (admitted call member) within
  cases again.symm.trans listed
  exact ⟨types target needed,
    call_needs_plain schema call (plain call member) needs listed target needed⟩

include sound admitted plain in
theorem run_plain : Grows schema (PlainOf schema) {} (Session.run schema {} calls).registry :=
  run_grows schema sound _ _ (plain_supplied schema sound _) calls {} admitted (fun _ held => held)
    (run_needs_plain schema sound calls admitted plain)

include sound free admitted plain in
theorem run_settles (target : Target) (allowed : PlainOf schema target)
    (registered : Registered schema (Session.run schema {} calls).registry target) :
    ∃ name type built, target.name schema = .ok name ∧ built.bare = target.bare ∧
      (Session.run schema {} calls).registry.lookup? name = some type ∧
      Settled schema (PlainOf schema) (Session.run schema {} calls).registry name type built := by
  exact grown_entry schema free (PlainOf schema) (fun _ held => held.of) _ (run_plain schema sound calls admitted plain)
    target allowed.of registered

include sound free admitted plain in
theorem registered_supplied (known : Registry) : Supplied schema (fun target => PlainOf schema target ∧
    Registered schema (Session.run schema {} calls).registry target) known := by
  refine ⟨fun target allowed => allowed.1.of, ?_⟩
  intro target needs allowed listed _ needed member
  obtain ⟨name, type, built, _, bare, _, settled⟩ :=
    run_settles schema sound free calls admitted plain target allowed.1 allowed.2
  obtain ⟨others, also⟩ := target_needs schema sound built settled.allowed.of
  have inside := (needs_iff schema target needs listed needed).mp member
  obtain ⟨other, owed, same⟩ :=
    plain_needs schema target built allowed.1.plain settled.allowed.plain bare.symm needed inside
  have there := settled.needs other others also ((needs_iff schema built others also other).mpr owed)
  exact ⟨plain_of_needed schema sound target needed allowed.1 inside, registered_bare schema _ other needed same there⟩

include sound free admitted plain in
theorem run_included (others : List Call) (among : ∀ call ∈ others, call ∈ calls) (key : String) (type : InputType)
    (found : (Session.run schema {} others).registry.lookup? key = some type) :
    (Session.run schema {} calls).registry.lookup? key = some type := by
  have admits : ∀ call ∈ others, call.Admitted schema := fun call member => admitted call (among call member)
  have grows := run_grows schema sound _ _ (registered_supplied schema sound free calls admitted plain _) others {} admits
    (fun _ held => held) (fun call member within needs listed target needed =>
      ⟨run_needs_plain schema sound calls admitted plain call (among call member) within needs listed target needed,
        run_registers schema sound calls {} admitted call (among call member) within needs listed target needed⟩)
  rcases grows.added key type found with none | ⟨target, settled⟩
  · cases none
  · obtain ⟨name, held, built, named, bare, there, stands⟩ :=
      run_settles schema sound free calls admitted plain target settled.allowed.1 settled.allowed.2
    cases named.symm.trans settled.named
    have one := plain_definition schema built target stands.allowed.plain settled.allowed.1.plain bare
    rw [stands.defined, settled.defined] at one
    exact Except.ok.inj one ▸ there

end

-- For every schema read from text whose targets do not share names, and every two orders of calls on it.
theorem order_irrelevant (text : String) (schema : Schema) (read : Schema.ofText text = .ok schema)
    (free : CollisionFree schema) (calls others : List Call) (perm : calls.Perm others)
    (admitted : ∀ call ∈ calls, call.Admitted schema) (plain : ∀ call ∈ calls, call.Plain) :
    (Session.run schema {} calls).registry.entries = (Session.run schema {} others).registry.entries ∧
      (Session.run schema {} calls).registry.text = (Session.run schema {} others).registry.text := by
  have sound := Schema.sound_of_text text schema read
  have leaves := Schema.leaves_of_text text schema read
  have admits : ∀ call ∈ others, call.Admitted schema := fun call member => admitted call (perm.mem_iff.mpr member)
  have plains : ∀ call ∈ others, call.Plain := fun call member => plain call (perm.mem_iff.mpr member)
  have sorted (held : List Call) (allowed : ∀ call ∈ held, call.Admitted schema) :
      (Session.run schema {} held).registry.Sorted :=
    (reached_explained schema sound leaves _ (run_reached schema held {} .fresh allowed)).sorted
  have equal : (Session.run schema {} calls).registry = (Session.run schema {} others).registry := by
    refine Registry.eq_of_lookup _ _ (sorted calls admitted) (sorted others admits) (fun key => Option.ext (fun type => ?_))
    exact ⟨run_included schema sound free others admits plains calls (fun call => perm.mem_iff.mp) key type,
      run_included schema sound free calls admitted plain others (fun call => perm.mem_iff.mpr) key type⟩
  exact ⟨congrArg Registry.entries equal, congrArg Registry.text equal⟩

def peopleCalls : List Call := [
  .composite .update ⟨0⟩ [],
  .composite .objectFilter ⟨1⟩ [],
  .leafFilter (.nonNull (.named (.enum ⟨0⟩))),
  .composite .sort ⟨1⟩ [],
  .page,
  .composite .filter ⟨0⟩ []]

theorem people_in_any_order : Schema.ofText peopleText = .ok people ∧ CollisionFree people ∧
    peopleCalls.Perm peopleCalls.reverse ∧ (∀ call ∈ peopleCalls, call.Admitted people) ∧ (∀ call ∈ peopleCalls, call.Plain) ∧
    (Session.run people {} peopleCalls).registry.contains "PlaceSetObjectType" = true ∧
    (Session.run people {} peopleCalls).registry.entries = (Session.run people {} peopleCalls.reverse).registry.entries ∧
    (Session.run people {} peopleCalls).registry.text = (Session.run people {} peopleCalls.reverse).registry.text := by
  have read : Schema.ofText peopleText = .ok people := by decide +kernel
  have free : CollisionFree people := by decide +kernel
  have perm : peopleCalls.Perm peopleCalls.reverse := (List.reverse_perm peopleCalls).symm
  have admitted : ∀ call ∈ peopleCalls, call.Admitted people := by
    simp only [peopleCalls, List.forall_mem_cons, Call.Admitted, true_and]
    exact ⟨by decide, nofun⟩
  have plain : ∀ call ∈ peopleCalls, call.Plain := by simp [peopleCalls, Call.Plain]
  exact ⟨read, free, perm, admitted, plain, by decide +kernel,
    order_irrelevant peopleText people read free peopleCalls peopleCalls.reverse perm admitted plain⟩

end DocGraph.Derivation
