import DocGraph.Proofs.Derivation.Atomicity
import DocGraph.Proofs.Derivation.Names
import DocGraph.Proofs.Notice

set_option autoImplicit false

namespace DocGraph.Derivation

variable (schema : Schema)

def Concerns (id : CompositeIndex) (notice : Notice) : Prop :=
  ∃ composite, schema.composite id = .ok composite ∧ composite.undeclaredReaders ≠ [] ∧
    notice = .undeclaredReaders composite.name composite.undeclaredReaders

def Filtered (registry : Registry) (id : CompositeIndex) : Prop :=
  ∃ family ∈ filterFamilies, Registered schema registry (.composite family id .nested)

def Due (registry : Registry) (notice : Notice) : Prop := ∃ id, Filtered schema registry id ∧ Concerns schema id notice

theorem filtered_mono (before after : Registry) (kept : ∀ key, before.contains key = true → after.contains key = true)
    (id : CompositeIndex) (filtered : Filtered schema before id) : Filtered schema after id := by
  obtain ⟨family, filters, registered⟩ := filtered
  exact ⟨family, filters, registered_mono schema before after kept _ registered⟩

theorem notify_raises (draft next : Draft) (id : CompositeIndex) (notified : draft.notify schema id = .ok next)
    (notice : Notice) : notice ∈ next.raised ↔ notice ∈ draft.raised ∨ Concerns schema id notice := by
  obtain ⟨composite, found, same⟩ := (except_bind_ok _ _ _).mp notified
  have concerns : Concerns schema id notice ↔ composite.undeclaredReaders ≠ [] ∧
      notice = .undeclaredReaders composite.name composite.undeclaredReaders := by
    simp only [Concerns, found, Except.ok.injEq, exists_eq_left']
  cases Except.ok.inj same
  rw [concerns]
  by_cases none : composite.undeclaredReaders = []
  · simp [none]
  · simp [none, List.isEmpty_iff]

theorem met_raised (needs : List Need) (draft after : Draft) (met : Met schema needs draft after) :
    ∀ notice ∈ draft.raised, notice ∈ after.raised := by
  induction met with
  | done draft => exact fun _ raised => raised
  | notice id rest draft next after notified _ ih =>
      exact fun notice raised => ih notice ((notify_raises schema draft next id notified notice).mpr (.inl raised))
  | taken target rest draft after name _ _ _ ih => exact ih
  | fresh target needs rest draft next after name type _ _ _ _ _ _ inside later =>
      exact fun notice raised => later notice (inside notice raised)

theorem met_due (needs : List Need) (draft after : Draft) (met : Met schema needs draft after) :
    ∀ notice ∈ after.raised, notice ∈ draft.raised ∨ (∃ id, .notice id ∈ needs ∧ Concerns schema id notice) ∨
      Due schema after.registry notice := by
  induction met with
  | done draft => exact fun _ raised => .inl raised
  | notice id rest draft next after notified _ ih =>
      intro notice raised
      rcases ih notice raised with here | ⟨other, needed, concerns⟩ | due
      · rcases (notify_raises schema draft next id notified notice).mp here with before | concerns
        · exact .inl before
        · exact .inr (.inl ⟨id, List.mem_cons_self .., concerns⟩)
      · exact .inr (.inl ⟨other, List.mem_cons_of_mem _ needed, concerns⟩)
      · exact .inr (.inr due)
  | taken target rest draft after name _ _ _ ih =>
      intro notice raised
      rcases ih notice raised with before | ⟨id, needed, concerns⟩ | due
      · exact .inl before
      · exact .inr (.inl ⟨id, List.mem_cons_of_mem _ needed, concerns⟩)
      · exact .inr (.inr due)
  | fresh target needs rest draft next after name type named _ _ listed inside later within ih =>
      have kept := met_contains schema rest next after later
      intro notice raised
      rcases ih notice raised with here | ⟨id, needed, concerns⟩ | due
      · rcases within notice here with before | ⟨id, needed, concerns⟩ | ⟨id, filtered, concerns⟩
        · exact .inl before
        · -- The target is a filter type of the composite, and registered under way.
          obtain ⟨family, filters, scope, rfl⟩ := (notice_needed schema target needs id listed).mp needed
          have held : (draft.registry.insert name type).contains name = true := by simp [Registry.contains_insert]
          have registered := kept name (met_contains schema needs _ next inside name held)
          exact .inr (.inr ⟨id, ⟨family, filters, name, named, registered⟩, concerns⟩)
        · exact .inr (.inr ⟨id, filtered_mono schema _ _ kept id filtered, concerns⟩)
      · exact .inr (.inl ⟨id, List.mem_cons_of_mem _ needed, concerns⟩)
      · exact .inr (.inr due)

structure FiltersApart (allowed : Target → Prop) : Prop where
  needs : ∀ target needs, allowed target → target.needs schema = .ok needs →
    ∀ needed, .type needed ∈ needs → allowed needed
  named : ∀ target family id name, allowed target → family ∈ filterFamilies → target.name schema = .ok name →
    compositeName schema family id = .ok name → ∃ scope, target = .composite family id scope

theorem met_notices (allowed : Target → Prop) (apart : FiltersApart schema allowed) (id : CompositeIndex)
    (notice : Notice) (concerns : Concerns schema id notice) (needs : List Need) (draft after : Draft)
    (met : Met schema needs draft after) (types : ∀ target, .type target ∈ needs → allowed target)
    (asked : .notice id ∈ needs ∨ Filtered schema after.registry id ∧ ¬ Filtered schema draft.registry id) :
    notice ∈ after.raised := by
  induction met with
  | done draft =>
      rcases asked with none | ⟨filtered, unfiltered⟩
      · exact absurd none List.not_mem_nil
      · exact absurd filtered unfiltered
  | notice other rest draft next after notified later ih =>
      have types := fun target member => types target (List.mem_cons_of_mem _ member)
      rw [← notify_registry schema draft next other notified] at asked
      rcases asked with needed | filtered
      · rcases List.mem_cons.mp needed with same | behind
        · cases same
          exact met_raised schema rest next after later notice
            ((notify_raises schema draft next id notified notice).mpr (.inr concerns))
        · exact ih types (.inl behind)
      · exact ih types (.inr filtered)
  | taken target rest draft after name _ _ _ ih =>
      have types := fun target member => types target (List.mem_cons_of_mem _ member)
      rcases asked with needed | filtered
      · exact ih types (.inl ((List.mem_cons.mp needed).resolve_left nofun))
      · exact ih types (.inr filtered)
  | fresh target needs rest draft next after name type named free defined listed inside later within ih =>
      have fits := types target (List.mem_cons_self ..)
      have others := fun target member => types target (List.mem_cons_of_mem _ member)
      have told (asked : .notice id ∈ needs ∨ Filtered schema next.registry id ∧
          ¬ Filtered schema (draft.registry.insert name type) id) : notice ∈ after.raised :=
        met_raised schema rest next after later notice (within (apart.needs target needs fits listed) asked)
      rcases asked with needed | ⟨filtered, unfiltered⟩
      · exact ih others (.inl ((List.mem_cons.mp needed).resolve_left nofun))
      · by_cases early : Filtered schema next.registry id
        · by_cases first : Filtered schema (draft.registry.insert name type) id
          · obtain ⟨family, filters, key, keyed, held⟩ := first
            rw [Registry.contains_insert, Bool.or_eq_true] at held
            rcases held with same | before
            · -- The name just taken is that of a filter type, so the target is that type.
              cases eq_of_beq same
              obtain ⟨scope, rfl⟩ := apart.named target family id _ fits filters named keyed
              exact told (.inl ((notice_needed schema _ needs id listed).mpr ⟨family, filters, scope, rfl⟩))
            · exact absurd ⟨family, filters, key, keyed, before⟩ unfiltered
          · exact told (.inr ⟨early, first⟩)
        · exact ih others (.inr ⟨filtered, early⟩)

theorem met_raises_due (allowed : Target → Prop) (apart : FiltersApart schema allowed) (needs : List Need)
    (registry : Registry) (after : Draft) (met : Met schema needs ⟨registry, []⟩ after)
    (types : ∀ target, .type target ∈ needs → allowed target) (plain : ∀ id, .notice id ∉ needs) (notice : Notice) :
    Due schema after.registry notice ↔ Due schema registry notice ∨ notice ∈ after.raised := by
  constructor
  · rintro ⟨id, filtered, concerns⟩
    by_cases before : Filtered schema registry id
    · exact .inl ⟨id, before, concerns⟩
    · exact .inr (met_notices schema allowed apart id notice concerns needs _ after met types (.inr ⟨filtered, before⟩))
  · rintro (⟨id, filtered, concerns⟩ | raised)
    · exact ⟨id, filtered_mono schema registry _ (met_contains schema needs _ after met) id filtered, concerns⟩
    · rcases met_due schema needs _ after met notice raised with none | ⟨id, needed, _⟩ | due
      · exact absurd none List.not_mem_nil
      · exact absurd needed (plain id)
      · exact due

theorem of_filters_apart (sound : schema.Sound) (free : CollisionFree schema) :
    FiltersApart schema (Target.Of schema) where
  needs := fun target needs of listed needed member =>
    needed_of schema sound target needed of ((needs_iff schema target needs listed needed).mp member)
  named := by
    intro target family id name of _ named keyed
    obtain ⟨composite, found, _⟩ := (composite_name_ok schema family id name).mp keyed
    have within := (List.getElem?_eq_some_iff.mp ((Schema.composite_ok schema id composite).mp found)).1
    have filter : (Target.composite family id .nested).Of schema := (composite_of schema family id .nested).mpr within
    have same := free target.bare of (.composite family id .nested) filter
      ((Target.bare_name schema target).trans (named.trans keyed.symm))
    cases target with
    | composite held other scope =>
        cases same
        exact ⟨scope, rfl⟩
    | _ => cases same

def Call.Apart (call : Call) : Prop :=
  ∀ type id, call = .leafFilter type → type.innermost = .enum id → ∀ target ∈ targets schema,
    target.name schema = Target.name schema (.enumCopy id) → target = .enumCopy id

theorem field_filter_apart (sound : schema.Sound) (free : CollisionFree schema) (type used : FieldType)
    (member : used ∈ schema.fieldTypes) (like : used.innermost = type.innermost) : (Call.leafFilter type).Apart schema := by
  rintro _ id ⟨⟩ innermost target of same
  have copy := field_needs_of schema sound .filter used member (.enumCopy id) (.copy id (like.trans innermost) (by decide))
  exact free target of (.enumCopy id) copy same

theorem suffixed_last (name : String) (family : Family) : (suffixed name family.suffix).toList.getLast? = some 'e' := by
  rw [suffixed_eq, String.toList_append, List.getLast?_append]
  cases family <;> rfl

theorem leaf_filters_apart (type : FieldType) (apart : (Call.leafFilter type).Apart schema) : FiltersApart schema
    (fun target => target.OfLeaf schema ∧ ∀ id, target = .enumCopy id → type.innermost = .enum id) where
  needs := by
    rintro target needs ⟨leaf, _⟩ listed needed member
    cases leaf with
    | filter leaf isString =>
        cases Except.ok.inj listed
        simp only [List.mem_cons, Need.type.injEq, List.not_mem_nil, or_false] at member
        rcases member with rfl | rfl
        · exact ⟨.negated leaf isString, nofun⟩
        · exact ⟨.operators, nofun⟩
    | _ =>
        cases Except.ok.inj listed
        exact absurd member List.not_mem_nil
  named := by
    rintro target family id name ⟨leaf, copied⟩ _ named keyed
    obtain ⟨composite, found, rfl⟩ := (composite_name_ok schema family id name).mp keyed
    have other (text : String) (last : text.toList.getLast? = some 'r')
        (same : text = suffixed composite.name family.suffix) : False := by
      rw [same, suffixed_last] at last
      cases last
    cases leaf with
    | copy held definition _ =>
        have within := (List.getElem?_eq_some_iff.mp ((Schema.composite_ok schema id composite).mp found)).1
        have filter := (composite_of schema family id .nested).mpr within
        cases apart type held rfl (copied held rfl) _ filter (keyed.trans named.symm)
    | filter leaf isString =>
        refine (other (leafFilterName leaf) ?_ (Except.ok.inj named)).elim
        rw [leafFilterName, String.toList_append, List.getLast?_append]
        rfl
    | negated leaf isString =>
        refine (other (negatedLeafFilterName leaf) ?_ (Except.ok.inj named)).elim
        rw [negatedLeafFilterName, String.toList_append, List.getLast?_append]
        rfl
    | operators => exact (other deprecatedOperatorsName rfl (Except.ok.inj named)).elim

theorem call_reports (session : Session) (call : Call) :
    ∃ raised, (session.call schema call).1.log = (session.log.report raised).1 ∧
      (session.call schema call).2.1 = (session.log.report raised).2 := by
  unfold Session.call
  dsimp only
  split
  · exact ⟨[], rfl, rfl⟩
  · rename_i draft answer _
    exact ⟨draft.raised, rfl, rfl⟩

structure Session.Informs (session : Session) (call : Call) (raised : List Notice) : Prop where
  log : (session.call schema call).1.log = (session.log.report raised).1
  passed : (session.call schema call).2.1 = (session.log.report raised).2
  due : ∀ notice, Due schema (session.call schema call).1.registry notice ↔
    Due schema session.registry notice ∨ notice ∈ raised

theorem failed_informs (session : Session) (call : Call) (error : Error)
    (called : session.call schema call = (session, [], .error error)) : session.Informs schema call [] := by
  constructor
  · rw [called]
    rfl
  · rw [called]
    rfl
  · intro notice
    rw [called]
    exact (or_iff_left List.not_mem_nil).symm

theorem answered_informs (session : Session) (call : Call) (allowed : Target → Prop) (apart : FiltersApart schema allowed)
    (needs : List Need) (draft : Draft) (answer : Answer) (met : Met schema needs ⟨session.registry, []⟩ draft)
    (types : ∀ target, .type target ∈ needs → allowed target) (plain : ∀ id, .notice id ∉ needs)
    (called : session.call schema call = (⟨draft.registry, (session.log.report draft.raised).1⟩,
      (session.log.report draft.raised).2, .ok answer)) : session.Informs schema call draft.raised := by
  constructor
  · rw [called]
  · rw [called]
  · rw [called]
    exact met_raises_due schema allowed apart needs session.registry draft met types plain

theorem leaf_filter_informs (session : Session) (type : FieldType) (apart : (Call.leafFilter type).Apart schema) :
    ∃ raised, session.Informs schema (.leafFilter type) raised := by
  cases listed : leafFilterNeeds schema type with
  | error error =>
      refine ⟨[], failed_informs schema session _ error ?_⟩
      rw [Session.call, Call.needs, listed]
      rfl
  | ok needs =>
      have leaves := leaf_needs_of_leaf schema type needs listed
      obtain ⟨leaf, named, same⟩ := (except_bind_ok _ _ _).mp listed
      obtain ⟨draft, derives, met⟩ := leaf_needs_met schema needs ⟨session.registry, []⟩ leaves
      have types (target : Target) (member : .type target ∈ needs) :
          target.OfLeaf schema ∧ ∀ id, target = .enumCopy id → type.innermost = .enum id := by
        obtain ⟨_, ⟨⟩, leaf⟩ := leaves _ member
        refine ⟨leaf, ?_⟩
        rintro id rfl
        cases Except.ok.inj same
        rcases List.mem_append.mp member with copy | filter
        · obtain ⟨other, innermost, same⟩ := leaf_needs_copy type _ copy
          cases same
          exact innermost
        · cases List.mem_singleton.mp filter
      have plain (id : CompositeIndex) : .notice id ∉ needs := by
        intro member
        obtain ⟨_, ⟨⟩, _⟩ := leaves _ member
      refine ⟨_, answered_informs schema session _ _ (leaf_filters_apart schema type apart) needs draft
        (.reference ⟨leafFilterName leaf⟩) met types plain ?_⟩
      simp only [Session.call, Call.needs, Call.answer, listed, named, derives, bind, Except.bind, pure, Except.pure]

theorem call_informs (sound : schema.Sound) (free : CollisionFree schema) (session : Session) (call : Call)
    (apart : call.Apart schema) : ∃ raised, session.Informs schema call raised := by
  have others (admitted : call.Admitted schema) : ∃ raised, session.Informs schema call raised := by
    cases call_ends schema sound session call admitted with
    | refused id about outside called => exact ⟨[], failed_informs schema session call _ called⟩
    | answered needs draft answer within listed met replied called =>
        obtain ⟨_, again, types, plain⟩ := call_needs schema sound call admitted within
        cases again.symm.trans listed
        exact ⟨_, answered_informs schema session call _ (of_filters_apart schema sound free) needs draft answer met types
          plain called⟩
  cases call with
  | leafFilter type => exact leaf_filter_informs schema session type apart
  | _ => exact others trivial

end DocGraph.Derivation
