import DocGraph.Proofs.Derivation.Growth

set_option autoImplicit false

namespace DocGraph.Derivation

variable (schema : Schema)

-- Meeting needs one after another. A target whose name is taken is left alone, and any other is registered before its own
-- needs are met.
inductive Met : List Need → Draft → Draft → Prop where
  | done (draft : Draft) : Met [] draft draft
  | notice (id : CompositeIndex) (rest : List Need) (draft next after : Draft)
      (notified : draft.notify schema id = .ok next) (later : Met rest next after) : Met (.notice id :: rest) draft after
  | taken (target : Target) (rest : List Need) (draft after : Draft) (name : String)
      (named : target.name schema = .ok name) (held : draft.registry.contains name = true)
      (later : Met rest draft after) : Met (.type target :: rest) draft after
  | fresh (target : Target) (needs rest : List Need) (draft next after : Draft) (name : String) (type : InputType)
      (named : target.name schema = .ok name) (free : draft.registry.contains name = false)
      (defined : target.definition schema = .ok type) (listed : target.needs schema = .ok needs)
      (inside : Met needs { draft with registry := draft.registry.insert name type } next) (later : Met rest next after) :
      Met (.type target :: rest) draft after

theorem met_append (needs others : List Need) (draft between after : Draft) (first : Met schema needs draft between)
    (second : Met schema others between after) : Met schema (needs ++ others) draft after := by
  induction first with
  | done draft => exact second
  | notice id rest draft next _ notified _ ih => exact .notice id _ draft next after notified (ih second)
  | taken target rest draft _ name named held _ ih => exact .taken target _ draft after name named held (ih second)
  | fresh target needs rest draft next _ name type named free defined listed inside _ _ ih =>
      exact .fresh target needs _ draft next after name type named free defined listed inside (ih second)

theorem notify_registry (draft next : Draft) (id : CompositeIndex) (notified : draft.notify schema id = .ok next) :
    next.registry = draft.registry := by
  obtain ⟨composite, _, same⟩ := (except_bind_ok _ _ _).mp notified
  cases Except.ok.inj same
  split <;> rfl

theorem lookup_insert_free (registry : Registry) (name key : String) (type held : InputType)
    (free : registry.contains name = false) (found : registry.lookup? key = some held) :
    (registry.insert name type).lookup? key = some held := by
  have other : ¬ name = key := by
    intro same
    rw [same, Registry.contains, found] at free
    cases free
  rw [Registry.lookup_insert, if_neg other]
  exact found

theorem met_keeps (needs : List Need) (draft after : Draft) (met : Met schema needs draft after) :
    ∀ key type, draft.registry.lookup? key = some type → after.registry.lookup? key = some type := by
  induction met with
  | done draft => exact fun _ _ found => found
  | notice id rest draft next after notified _ ih => exact notify_registry schema draft next id notified ▸ ih
  | taken target rest draft after name named held _ ih => exact ih
  | fresh target needs rest draft next after name type named free defined listed inside _ within ih =>
      exact fun key held found => ih key held (within key held (lookup_insert_free draft.registry name key type held free found))

theorem met_contains (needs : List Need) (draft after : Draft) (met : Met schema needs draft after) (key : String)
    (held : draft.registry.contains key = true) : after.registry.contains key = true := by
  obtain ⟨type, found⟩ := (Registry.contains_iff draft.registry key).mp held
  exact (Registry.contains_iff after.registry key).mpr ⟨type, met_keeps schema needs draft after met key type found⟩

theorem met_registers (needs : List Need) (draft after : Draft) (met : Met schema needs draft after) :
    ∀ target, .type target ∈ needs → Registered schema after.registry target := by
  induction met with
  | done draft => exact fun _ none => absurd none List.not_mem_nil
  | notice id rest draft next after notified _ ih =>
      exact fun target member => ih target ((List.mem_cons.mp member).resolve_left nofun)
  | taken target rest draft after name named held later ih =>
      intro needed member
      rcases List.mem_cons.mp member with same | behind
      · cases same
        exact ⟨name, named, met_contains schema rest draft after later name held⟩
      · exact ih needed behind
  | fresh target needs rest draft next after name type named free defined listed inside later _ ih =>
      intro needed member
      rcases List.mem_cons.mp member with same | behind
      · cases same
        have here : (draft.registry.insert name type).contains name = true := by simp [Registry.contains_insert]
        exact ⟨name, named, met_contains schema rest next after later name
          (met_contains schema needs _ next inside name here)⟩
      · exact ih needed behind

theorem registered_mono (before after : Registry) (kept : ∀ key, before.contains key = true → after.contains key = true)
    (target : Target) (registered : Registered schema before target) : Registered schema after target := by
  obtain ⟨name, named, held⟩ := registered
  exact ⟨name, named, kept name held⟩

theorem met_grows (allowed : Target → Prop) (known : Registry) (supplied : Supplied schema allowed known)
    (needs : List Need) (draft after : Draft) (met : Met schema needs draft after)
    (within : ∀ key, after.registry.contains key = true → known.contains key = true)
    (types : ∀ target, .type target ∈ needs → allowed target) : Grows schema allowed draft.registry after.registry := by
  induction met with
  | done draft => exact .refl _
  | notice id rest draft next after notified _ ih =>
      have grows := ih within (fun target member => types target (List.mem_cons_of_mem _ member))
      exact notify_registry schema draft next id notified ▸ grows
  | taken target rest draft after name named held _ ih =>
      exact ih within (fun target member => types target (List.mem_cons_of_mem _ member))
  | fresh target needs rest draft next after name type named free defined listed inside later deeper ih =>
      have fits := types target (List.mem_cons_self ..)
      have met := met_registers schema needs _ next inside
      have kept : ∀ key, next.registry.contains key = true → known.contains key = true :=
        fun key held => within key (met_contains schema rest next after later key held)
      have grows := deeper kept (supplied.needs target needs fits listed
        (fun needed member => registered_mono schema _ known kept needed (met needed member)))
      have entered : Grows schema allowed draft.registry next.registry := by
        refine ⟨fun key held found => grows.kept key held (lookup_insert_free _ name key type held free found), ?_⟩
        intro key held found
        rcases grows.added key held found with inserted | settled
        · rw [Registry.lookup_insert] at inserted
          by_cases same : name = key
          · rw [if_pos same] at inserted
            cases inserted
            cases same
            refine .inr ⟨target, fits, named, defined, ?_⟩
            intro needed others again member
            cases again.symm.trans listed
            exact met needed member
          · rw [if_neg same] at inserted
            exact .inl inserted
        · exact .inr settled
      exact entered.trans (ih within (fun target member => types target (List.mem_cons_of_mem _ member)))

theorem derive_taken (bound : Nat) (target : Target) (draft : Draft) (name : String)
    (named : target.name schema = .ok name) (taken : draft.registry.contains name = true) :
    derive schema bound target draft = .ok draft := by
  cases bound <;> rw [derive, named] <;> exact if_pos taken

theorem derive_free (bound : Nat) (target : Target) (draft : Draft) (name : String) (type : InputType)
    (needs : List Need) (named : target.name schema = .ok name) (free : draft.registry.contains name = false)
    (defined : target.definition schema = .ok type) (listed : target.needs schema = .ok needs) :
    derive schema (bound + 1) target draft =
      needs.foldlM (Draft.meet schema (derive schema bound))
        { draft with registry := draft.registry.insert name type } := by
  rw [derive, named]
  simp only [bind, Except.bind, free, defined, listed]
  rfl

theorem notify_succeeds (draft : Draft) (id : CompositeIndex) (within : id.index < schema.composites.length) :
    ∃ next, draft.notify schema id = .ok next := by
  obtain ⟨composite, found⟩ := composite_found schema id within
  exact ⟨_, (except_bind_ok _ _ _).mpr ⟨composite, found, rfl⟩⟩

def Derives (bound : Nat) : Prop :=
  ∀ target draft, target.Of schema → rank schema draft.registry target ≤ bound →
    ∃ after, derive schema bound target draft = .ok after ∧ Met schema [.type target] draft after

theorem fold_met (deriveType : Target → Draft → Except Error Draft) (ready : Draft → Prop) (needs : List Need)
    (draft : Draft) (start : ready draft)
    (each : ∀ need ∈ needs, ∀ held, ready held →
      ∃ next, Draft.meet schema deriveType held need = .ok next ∧ Met schema [need] held next ∧ ready next) :
    ∃ after, needs.foldlM (Draft.meet schema deriveType) draft = .ok after ∧ Met schema needs draft after := by
  induction needs generalizing draft with
  | nil => exact ⟨draft, rfl, .done draft⟩
  | cons need rest ih =>
      obtain ⟨next, first, mine, later⟩ := each need (List.mem_cons_self ..) draft start
      obtain ⟨after, others, theirs⟩ := ih next later (fun other member => each other (List.mem_cons_of_mem need member))
      refine ⟨after, ?_, met_append schema [need] rest draft next after mine theirs⟩
      rw [List.foldlM_cons]
      exact (except_bind_ok _ _ _).mpr ⟨next, first, others⟩

theorem needs_met (bound : Nat) (derives : Derives schema bound) (needs : List Need) (draft : Draft)
    (types : ∀ target, .type target ∈ needs → target.Of schema ∧ rank schema draft.registry target ≤ bound)
    (notices : ∀ id, .notice id ∈ needs → id.index < schema.composites.length) :
    ∃ after, needs.foldlM (Draft.meet schema (derive schema bound)) draft = .ok after ∧ Met schema needs draft after := by
  refine fold_met schema _ (fun held => ∀ target, .type target ∈ needs → rank schema held.registry target ≤ bound) needs
    draft (fun target member => (types target member).2) (fun need member held ready => ?_)
  have still (next : Draft) (met : Met schema [need] held next) (target : Target) (listed : .type target ∈ needs) :
      rank schema next.registry target ≤ bound :=
    Nat.le_trans (rank_antitone schema _ _ target (met_contains schema _ held next met)) (ready target listed)
  cases need with
  | type target =>
      obtain ⟨next, derived, met⟩ := derives target held (types target member).1 (ready target member)
      exact ⟨next, derived, met, still next met⟩
  | notice id =>
      obtain ⟨next, notified⟩ := notify_succeeds schema held id (notices id member)
      have met : Met schema [.notice id] held next := .notice id [] held next next notified (.done next)
      exact ⟨next, notified, met, still next met⟩

theorem derive_met (sound : schema.Sound) (bound : Nat) : Derives schema bound := by
  induction bound with
  | zero =>
      intro target draft _ enough
      have positive := rank_pos schema draft.registry target
      omega
  | succ bound ih =>
      intro target draft of enough
      obtain ⟨name, named⟩ := target_named schema sound target of
      cases taken : draft.registry.contains name with
      | true =>
          exact ⟨draft, derive_taken schema (bound + 1) target draft name named taken,
            .taken target [] draft draft name named taken (.done draft)⟩
      | false =>
          obtain ⟨type, defined⟩ := target_defined schema sound target of
          obtain ⟨needs, listed⟩ := target_needs schema sound target of
          obtain ⟨after, folded, met⟩ := needs_met schema bound ih needs
            { draft with registry := draft.registry.insert name type }
            (fun needed member =>
              ⟨needed_of schema sound target needed of ((needs_iff schema target needs listed needed).mp member),
                Nat.le_of_lt_succ (Nat.lt_of_lt_of_le
                  (rank_decreases schema draft.registry target needed name type needs of named taken listed member)
                  enough)⟩)
            (fun id member => notice_within schema target id needs of listed member)
          refine ⟨after, ?_, .fresh target needs [] draft after after name type named taken defined listed met (.done after)⟩
          rw [derive_free schema bound target draft name type needs named taken defined listed, folded]

theorem open_names_bounded (registry : Registry) : openNames schema registry + 3 ≤ nestingBound schema := by
  have counted : openNames schema registry ≤ (compositeTargets schema).length := List.countP_le_length
  have total : (compositeTargets schema).length = Family.all.length * schema.composites.length := by
    rw [compositeTargets, List.length_flatMap]
    simp only [List.length_map, List.map_const', List.length_range, List.sum_replicate_nat, Nat.mul_comm]
  unfold nestingBound
  omega

theorem derive_needs_met (sound : schema.Sound) (needs : List Need) (draft : Draft)
    (types : ∀ target, .type target ∈ needs → target.Of schema)
    (notices : ∀ id, .notice id ∈ needs → id.index < schema.composites.length) :
    ∃ after, deriveNeeds schema needs draft = .ok after ∧ Met schema needs draft after :=
  needs_met schema (nestingBound schema) (derive_met schema sound _) needs draft
    (fun target member => ⟨types target member,
      Nat.le_trans (rank_le schema draft.registry target) (open_names_bounded schema draft.registry)⟩) notices

end DocGraph.Derivation
