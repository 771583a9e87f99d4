import DocGraph.Proofs.Derivation.Definitions

set_option autoImplicit false

namespace DocGraph.Derivation

variable (schema : Schema)

def Registered (registry : Registry) (target : Target) : Prop :=
  ∃ name, target.name schema = .ok name ∧ registry.contains name = true

structure Supplied (allowed : Target → Prop) (known : Registry) : Prop where
  of : ∀ target, allowed target → target.Of schema
  needs : ∀ target needs, allowed target → target.needs schema = .ok needs →
    (∀ needed, .type needed ∈ needs → Registered schema known needed) → ∀ needed, .type needed ∈ needs → allowed needed

structure Settled (allowed : Target → Prop) (registry : Registry) (key : String) (type : InputType)
    (target : Target) : Prop where
  allowed : allowed target
  named : target.name schema = .ok key
  defined : target.definition schema = .ok type
  needs : ∀ needed needs, target.needs schema = .ok needs → .type needed ∈ needs → Registered schema registry needed

structure Grows (allowed : Target → Prop) (before after : Registry) : Prop where
  kept : ∀ key type, before.lookup? key = some type → after.lookup? key = some type
  added : ∀ key type, after.lookup? key = some type →
    before.lookup? key = some type ∨ ∃ target, Settled schema allowed after key type target

variable {schema} {allowed : Target → Prop}

theorem Grows.contains {before after : Registry} (grows : Grows schema allowed before after) (key : String)
    (held : before.contains key = true) : after.contains key = true := by
  obtain ⟨type, found⟩ := (Registry.contains_iff before key).mp held
  exact (Registry.contains_iff after key).mpr ⟨type, grows.kept key type found⟩

theorem Grows.registered {before after : Registry} (grows : Grows schema allowed before after) (target : Target)
    (held : Registered schema before target) : Registered schema after target := by
  obtain ⟨name, named, contained⟩ := held
  exact ⟨name, named, grows.contains name contained⟩

theorem Grows.refl (registry : Registry) : Grows schema allowed registry registry :=
  ⟨fun _ _ found => found, fun _ _ found => .inl found⟩

theorem Grows.trans {first second third : Registry} (earlier : Grows schema allowed first second)
    (later : Grows schema allowed second third) : Grows schema allowed first third := by
  refine ⟨fun key type found => later.kept key type (earlier.kept key type found), ?_⟩
  intro key type found
  rcases later.added key type found with held | settled
  · rcases earlier.added key type held with old | ⟨target, settled⟩
    · exact .inl old
    · exact .inr ⟨target, settled.allowed, settled.named, settled.defined, fun needed needs listed member =>
        later.registered needed (settled.needs needed needs listed member)⟩
  · exact .inr settled

variable (schema)

def isOpen (registry : Registry) (target : Target) : Bool :=
  match target.name schema with
  | .ok name => !registry.contains name
  | .error _ => false

def openNames (registry : Registry) : Nat := (compositeTargets schema).countP (isOpen schema registry)

-- How deep deriving a target can nest.
def rank (registry : Registry) : Target → Nat
  | .composite _ _ _ => openNames schema registry + 3
  | .leafFilter _ _ => 2
  | _ => 1

theorem rank_pos (registry : Registry) (target : Target) : 0 < rank schema registry target := by
  cases target <;> simp [rank]

theorem rank_le (registry : Registry) (target : Target) : rank schema registry target ≤ openNames schema registry + 3 := by
  cases target <;> simp [rank]

theorem open_names_le (before after : Registry)
    (kept : ∀ key, before.contains key = true → after.contains key = true) :
    openNames schema after ≤ openNames schema before := by
  refine List.countP_mono_left ?_
  intro target _ free
  unfold isOpen at free ⊢
  split at free
  · rename_i name named
    cases held : before.contains name with
    | false => rfl
    | true =>
        rw [kept name held] at free
        cases free
  · cases free

theorem count_lt {α : Type} (p q : α → Bool) (items : List α) (item : α) (implies : ∀ x ∈ items, p x = true → q x = true)
    (member : item ∈ items) (fails : p item = false) (holds : q item = true) : items.countP p < items.countP q := by
  induction items with
  | nil => cases member
  | cons head rest ih =>
      have below : rest.countP p ≤ rest.countP q :=
        List.countP_mono_left (fun x inside => implies x (List.mem_cons_of_mem head inside))
      rcases List.mem_cons.mp member with rfl | later
      · rw [List.countP_cons_of_neg (by simp [fails]), List.countP_cons_of_pos holds]
        omega
      · have less := ih (fun x inside => implies x (List.mem_cons_of_mem head inside)) later
        by_cases here : p head = true
        · rw [List.countP_cons_of_pos here, List.countP_cons_of_pos (implies head (List.mem_cons_self ..) here)]
          omega
        · rw [List.countP_cons_of_neg here, List.countP_cons]
          omega

theorem open_names_lt (registry : Registry) (family : Family) (id : CompositeIndex) (scope : Scope) (name : String)
    (type : InputType) (of : (Target.composite family id scope).Of schema)
    (named : compositeName schema family id = .ok name) (free : registry.contains name = false) :
    openNames schema (registry.insert name type) < openNames schema registry := by
  have inside := (composite_target_mem schema family id).mpr ((composite_of schema family id scope).mp of)
  have named : Target.name schema (.composite family id .nested) = .ok name := named
  refine count_lt _ _ _ _ ?_ inside ?_ ?_
  · intro target _ still
    unfold isOpen at still ⊢
    split at still
    · rename_i other _
      rw [Registry.contains_insert] at still
      cases held : registry.contains other with
      | false => rfl
      | true => simp [held] at still
    · cases still
  · simp [isOpen, named, Registry.contains_insert]
  · simp [isOpen, named, free]

theorem rank_decreases (registry : Registry) (target needed : Target) (name : String) (type : InputType)
    (needs : List Need) (of : target.Of schema) (named : target.name schema = .ok name)
    (free : registry.contains name = false) (listed : target.needs schema = .ok needs)
    (member : .type needed ∈ needs) : rank schema (registry.insert name type) needed < rank schema registry target := by
  cases target with
  | composite family id scope =>
      have fewer := open_names_lt schema registry family id scope name type of named free
      have bounded := rank_le schema (registry.insert name type) needed
      change rank schema _ needed < openNames schema registry + 3
      omega
  | leafFilter leaf isString =>
      cases Except.ok.inj listed
      simp only [List.mem_cons, Need.type.injEq, List.not_mem_nil, or_false] at member
      rcases member with rfl | rfl <;> exact Nat.lt_add_one 1
  | _ =>
      cases Except.ok.inj listed
      exact absurd member List.not_mem_nil

theorem rank_antitone (before after : Registry) (target : Target)
    (kept : ∀ key, before.contains key = true → after.contains key = true) :
    rank schema after target ≤ rank schema before target := by
  have fewer := open_names_le schema before after kept
  cases target <;> simp [rank, fewer]

theorem field_needs_no_notice (family : Family) (field : Field) (needs : List Need) (id : CompositeIndex)
    (listed : fieldNeeds schema family field = .ok needs) : .notice id ∉ needs := by
  have leaf (type : FieldType) : .notice id ∉ leafNeeds type := by
    intro member
    obtain ⟨_, _, same⟩ := leaf_needs_copy type _ member
    cases same
  unfold fieldNeeds at listed
  split at listed
  · cases Except.ok.inj listed
    simp
  · unfold leafFieldNeeds leafFilterNeeds at listed
    cases family with
    | filter | objectFilter =>
        obtain ⟨name, _, same⟩ := (except_bind_ok _ _ _).mp listed
        cases Except.ok.inj same
        simp [leaf]
    | sort =>
        cases Except.ok.inj listed
        simp
    | _ =>
        cases Except.ok.inj listed
        exact leaf _

def filterFamilies : List Family := [.filter, .objectFilter]

theorem notice_needed (target : Target) (needs : List Need) (id : CompositeIndex)
    (listed : target.needs schema = .ok needs) :
    .notice id ∈ needs ↔ ∃ family ∈ filterFamilies, ∃ scope, target = .composite family id scope := by
  cases target with
  | composite family held scope =>
      obtain ⟨composite, found, _⟩ := (except_bind_ok _ _ _).mp listed
      by_cases update : family = .update
      · subst update
        obtain ⟨_, _, same⟩ := (except_bind_ok _ _ _).mp listed
        cases Except.ok.inj same
        simp [filterFamilies]
      · obtain ⟨each, mapped, rfl⟩ := composite_needs schema family held scope composite needs found update listed
        have fields : .notice id ∉ each.flatten := by
          intro member
          obtain ⟨gathered, inside, here⟩ := List.mem_flatten.mp member
          obtain ⟨field, _, theirs⟩ := (except_map_list_ok _ _ _ mapped).2 gathered inside
          exact field_needs_no_notice schema family field gathered id theirs here
        rw [List.mem_append, or_iff_right fields]
        constructor
        · intro own
          cases family with
          | filter =>
              cases List.mem_singleton.mp own
              exact ⟨.filter, by decide, scope, rfl⟩
          | objectFilter =>
              cases (List.mem_cons.mp own).resolve_right (by simp)
              exact ⟨.objectFilter, by decide, scope, rfl⟩
          | _ => simp [ownNeeds] at own
        · rintro ⟨_, filters, _, ⟨⟩⟩
          simp only [filterFamilies, List.mem_cons, List.not_mem_nil, or_false] at filters
          rcases filters with rfl | rfl <;> exact List.mem_cons_self ..
  | leafFilter leaf isString =>
      cases Except.ok.inj listed
      simp
  | _ =>
      cases Except.ok.inj listed
      simp

theorem notice_within (target : Target) (id : CompositeIndex) (needs : List Need) (of : target.Of schema)
    (listed : target.needs schema = .ok needs) (member : .notice id ∈ needs) :
    id.index < schema.composites.length := by
  obtain ⟨family, _, scope, rfl⟩ := (notice_needed schema target needs id listed).mp member
  exact (composite_of schema family id scope).mp of

end DocGraph.Derivation
