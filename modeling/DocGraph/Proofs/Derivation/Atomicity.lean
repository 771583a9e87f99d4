import DocGraph.Proofs.Derivation.Closed
import DocGraph.Proofs.Derivation.Construction

set_option autoImplicit false

namespace DocGraph.Derivation

variable (schema : Schema)

inductive Target.OfLeaf : Target → Prop where
  | copy (id : EnumIndex) (definition : Enumeration) (found : schema.enumeration id = .ok definition) :
      OfLeaf (.enumCopy id)
  | filter (leaf : String) (isString : Bool) : OfLeaf (.leafFilter leaf isString)
  | negated (leaf : String) (isString : Bool) : OfLeaf (.negatedLeafFilter leaf isString)
  | operators : OfLeaf .deprecatedOperators

theorem of_leaf_shown (target : Target) (leaf : target.OfLeaf schema) :
    ∃ name type needs, target.name schema = .ok name ∧ target.definition schema = .ok type ∧
      target.needs schema = .ok needs ∧ ∀ need ∈ needs, ∃ needed : Target, need = .type needed ∧ needed.OfLeaf schema := by
  have nothing : ∀ need ∈ ([] : List Need), ∃ needed : Target, need = .type needed ∧ needed.OfLeaf schema :=
    fun _ none => absurd none List.not_mem_nil
  cases leaf with
  | copy id definition found =>
      have named : Target.name schema (.enumCopy id) = .ok definition.name := by
        rw [Target.name, found]
        rfl
      exact ⟨_, _, [], named, (except_bind_ok _ _ _).mpr ⟨definition, found, rfl⟩, rfl, nothing⟩
  | filter leaf isString =>
      refine ⟨_, _, _, rfl, rfl, rfl, ?_⟩
      simp only [List.forall_mem_cons]
      exact ⟨⟨_, rfl, .negated leaf isString⟩, ⟨_, rfl, .operators⟩, nothing⟩
  | negated leaf isString => exact ⟨_, _, [], rfl, rfl, rfl, nothing⟩
  | operators => exact ⟨_, _, [], rfl, rfl, rfl, nothing⟩

theorem flat_met (bound : Nat) (target : Target) (draft : Draft) (leaf : target.OfLeaf schema)
    (flat : target.needs schema = .ok []) :
    ∃ after, derive schema (bound + 1) target draft = .ok after ∧ Met schema [.type target] draft after := by
  obtain ⟨name, type, _, named, defined, _⟩ := of_leaf_shown schema target leaf
  cases held : draft.registry.contains name with
  | true =>
      exact ⟨draft, derive_taken schema _ target draft name named held,
        .taken target [] draft draft name named held (.done draft)⟩
  | false =>
      exact ⟨_, derive_free schema bound target draft name type [] named held defined flat,
        .fresh target [] [] draft _ _ name type named held defined flat (.done _) (.done _)⟩

theorem leaf_met (bound : Nat) (target : Target) (draft : Draft) (leaf : target.OfLeaf schema) :
    ∃ after, derive schema (bound + 2) target draft = .ok after ∧ Met schema [.type target] draft after := by
  cases leaf with
  | filter leaf isString =>
      cases held : draft.registry.contains (leafFilterName leaf) with
      | true =>
          exact ⟨draft, derive_taken schema _ _ draft _ rfl held, .taken _ [] draft draft _ rfl held (.done draft)⟩
      | false =>
          obtain ⟨type, defined⟩ : ∃ type, (Target.leafFilter leaf isString).definition schema = .ok type := ⟨_, rfl⟩
          have flat (need : Need) (member : need ∈ [.type (.negatedLeafFilter leaf isString), .type .deprecatedOperators]) :
              ∃ target : Target, need = .type target ∧ target.OfLeaf schema ∧ target.needs schema = .ok [] := by
            simp only [List.mem_cons, List.not_mem_nil, or_false] at member
            rcases member with rfl | rfl
            · exact ⟨_, rfl, .negated leaf isString, rfl⟩
            · exact ⟨_, rfl, .operators, rfl⟩
          obtain ⟨after, folded, met⟩ := fold_met schema (derive schema (bound + 1)) (fun _ => True) _
            { draft with registry := draft.registry.insert (leafFilterName leaf) type } trivial
            (fun need member held _ => by
              obtain ⟨target, rfl, leaf, needless⟩ := flat need member
              obtain ⟨next, derived, met⟩ := flat_met schema bound target held leaf needless
              exact ⟨next, derived, met, trivial⟩)
          exact ⟨after, (derive_free schema (bound + 1) _ draft _ type _ rfl held defined rfl).trans folded,
            .fresh _ _ [] draft after after _ type rfl held defined rfl met (.done after)⟩
  | copy id definition found => exact flat_met schema (bound + 1) _ draft (.copy id definition found) rfl
  | negated leaf isString => exact flat_met schema (bound + 1) _ draft (.negated leaf isString) rfl
  | operators => exact flat_met schema (bound + 1) _ draft .operators rfl

theorem leaf_needs_met (needs : List Need) (draft : Draft)
    (leaves : ∀ need ∈ needs, ∃ needed : Target, need = .type needed ∧ needed.OfLeaf schema) :
    ∃ after, deriveNeeds schema needs draft = .ok after ∧ Met schema needs draft after :=
  fold_met schema (derive schema (nestingBound schema)) (fun _ => True) needs draft trivial (fun need member held _ => by
    obtain ⟨target, rfl, leaf⟩ := leaves need member
    obtain ⟨next, derived, met⟩ := leaf_met schema _ target held leaf
    exact ⟨next, derived, met, trivial⟩)

theorem leaf_needs_of_leaf (type : FieldType) (needs : List Need) (listed : leafFilterNeeds schema type = .ok needs) :
    ∀ need ∈ needs, ∃ needed : Target, need = .type needed ∧ needed.OfLeaf schema := by
  obtain ⟨leaf, named, same⟩ := (except_bind_ok _ _ _).mp listed
  cases Except.ok.inj same
  intro need member
  rcases List.mem_append.mp member with copy | filter
  · obtain ⟨id, innermost, rfl⟩ := leaf_needs_copy type need copy
    rw [leafName, innermost] at named
    obtain ⟨definition, found, _⟩ := (except_bind_ok _ _ _).mp named
    exact ⟨_, rfl, .copy id definition found⟩
  · cases List.mem_singleton.mp filter
    exact ⟨_, rfl, .filter leaf _⟩

-- How a call goes: it lists nothing to derive, it is about a composite that the schema does not have, or it derives all it
-- needs.
inductive Call.Goes (session : Session) (call : Call) : Prop where
  | unlisted (error : Error) (failed : call.needs schema = .error error)
  | refused (id : CompositeIndex) (about : call.composite? = some id) (outside : ¬ id.index < schema.composites.length)
  | derived (needs : List Need) (draft : Draft) (answer : Answer) (listed : call.needs schema = .ok needs)
      (derives : deriveNeeds schema needs ⟨session.registry, []⟩ = .ok draft) (replied : call.answer schema = .ok answer)

theorem call_goes (sound : schema.Sound) (session : Session) (call : Call) : call.Goes schema session := by
  have within (admitted : call.Admitted schema) : call.Goes schema session := by
    cases call_ends schema sound session call admitted with
    | refused id about outside _ => exact .refused id about outside
    | answered needs draft answer within listed met replied _ =>
        obtain ⟨_, again, types, notices⟩ := call_needs schema sound call admitted within
        cases again.symm.trans listed
        obtain ⟨after, derives, _⟩ := derive_needs_met schema sound needs ⟨session.registry, []⟩ types
          (fun id member => absurd member (notices id))
        exact .derived needs after answer listed derives replied
  cases call with
  | leafFilter type =>
      cases listed : leafFilterNeeds schema type with
      | error error => exact .unlisted error listed
      | ok needs =>
          obtain ⟨leaf, named, _⟩ := (except_bind_ok _ _ _).mp listed
          obtain ⟨draft, derives, _⟩ := leaf_needs_met schema needs ⟨session.registry, []⟩
            (leaf_needs_of_leaf schema type needs listed)
          exact .derived needs draft _ listed derives ((except_bind_ok _ _ _).mpr ⟨leaf, named, rfl⟩)
  | _ => exact within trivial

theorem perform_failed (session : Session) (call : Call) (error : Error)
    (fails : (Construction.ofCall schema call).run.run ⟨session.registry, []⟩ = (.error error, ⟨session.registry, []⟩)) :
    session.perform schema call = (session, [], .error error) := by
  simp only [Session.perform, fails]
  rfl

theorem perform_refused (session : Session) (call : Call) (id : CompositeIndex) (about : call.composite? = some id)
    (outside : ¬ id.index < schema.composites.length) :
    session.perform schema call = (session, [], .error (.unknownComposite id)) := by
  obtain ⟨family, excluded, rest, listed⟩ := root_need_first schema call id about
  refine perform_failed schema session call _ ?_
  refine (Construction.run_bind _ _ _ _ _ (Construction.ends_lift _ _ _ listed)).trans ?_
  refine Construction.fails_bind _ _ _ _ _ ?_
  rw [List.forM_eq_forM, List.forM_cons]
  exact Construction.fails_bind _ _ _ _ _ (Construction.of_target_outside schema _ family id _ _ outside)

theorem perform_call (sound : schema.Sound) (session : Session) (sorted : session.registry.Sorted) (call : Call) :
    session.perform schema call = session.call schema call ∧ (session.perform schema call).1.registry.Sorted := by
  cases call_goes schema sound session call with
  | unlisted error failed =>
      have performed : session.perform schema call = (session, [], .error error) := by
        refine perform_failed schema session call error (Construction.fails_bind _ _ _ _ _ ?_)
        rw [failed]
        rfl
      have called : session.call schema call = (session, [], .error error) := by
        rw [Session.call, failed]
        rfl
      rw [performed, called]
      exact ⟨rfl, sorted⟩
  | refused id about outside =>
      rw [perform_refused schema session call id about outside, call_refused schema session call id about outside]
      exact ⟨rfl, sorted⟩
  | derived needs draft answer listed derives replied =>
      have start : Construction.Alike [] ⟨session.registry, []⟩ ⟨session.registry, []⟩ :=
        ⟨rfl, sorted, sorted, fun _ _ => rfl, fun _ none => absurd none List.not_mem_nil⟩
      obtain ⟨built, ends, alike⟩ := Construction.needs_follow schema (nestingBound schema)
        (Construction.of_target_follows schema _) needs _ _ start derives
      cases alike.eq
      have steps : (Construction.ofCall schema call).run.run ⟨session.registry, []⟩ = (.ok answer, draft) :=
        Construction.ends_bind _ _ _ _ _ needs answer (Construction.ends_lift _ _ needs listed)
          (Construction.ends_bind _ _ _ _ _ () answer ends (Construction.ends_lift _ _ answer replied))
      have performed : session.perform schema call = (⟨draft.registry, (session.log.report draft.raised).1⟩,
          (session.log.report draft.raised).2, .ok answer) := by
        simp only [Session.perform, steps]
      have called : session.call schema call = (⟨draft.registry, (session.log.report draft.raised).1⟩,
          (session.log.report draft.raised).2, .ok answer) := by
        simp only [Session.call, listed, derives, replied, bind, Except.bind, pure, Except.pure]
      rw [performed, called]
      exact ⟨rfl, alike.ordered⟩

inductive Session.Performed : Session → Prop where
  | fresh : Performed {}
  | call (session : Session) (call : Call) (before : Performed session) : Performed (session.perform schema call).1
  | clear (session : Session) (before : Performed session) : Performed session.clear

theorem performed_sorted (sound : schema.Sound) (session : Session) (reached : session.Performed schema) :
    session.registry.Sorted := by
  induction reached with
  | fresh | clear => exact .nil
  | call session call _ ih => exact (perform_call schema sound session ih call).2

theorem call_settled (session : Session) (call : Call) (needs : List Need) (answer : Answer)
    (listed : call.needs schema = .ok needs) (replied : call.answer schema = .ok answer)
    (registered : ∀ need ∈ needs, ∃ target, need = .type target ∧ Registered schema session.registry target) :
    session.call schema call = (session, [], .ok answer) := by
  have nothing (draft : Draft) (same : draft.registry = session.registry) : deriveNeeds schema needs draft = .ok draft := by
    unfold deriveNeeds
    clear listed
    induction needs with
    | nil => rfl
    | cons need rest ih =>
        obtain ⟨⟨target, rfl, name, named, held⟩, others⟩ := List.forall_mem_cons.mp registered
        rw [List.foldlM_cons]
        refine (except_bind_ok _ _ _).mpr ⟨draft, ?_, ih others⟩
        exact derive_taken schema _ target draft name named (same ▸ held)
  simp only [Session.call, listed, nothing ⟨session.registry, []⟩ rfl, replied, bind, Except.bind, pure, Except.pure]
  rfl

-- Performed step by step, a call about a composite fails exactly if the schema does not have it, and then changes
-- nothing. Else it keeps every entry, and the same call once more changes nothing and reports nothing.
theorem calls_atomic (text : String) (read : Schema.ofText text = .ok schema) (session : Session)
    (reached : session.Performed schema) (call : Call) (id : CompositeIndex) (about : call.composite? = some id) :
    ∃ after notices result, session.perform schema call = (after, notices, result) ∧
      session.call schema call = (after, notices, result) ∧
      ((∃ error, result = .error error) ↔ ¬ id.index < schema.composites.length) ∧
      (∀ error, result = .error error → after = session ∧ notices = []) ∧
      ∀ answer, result = .ok answer →
        (∀ key type, session.registry.lookup? key = some type → after.registry.lookup? key = some type) ∧
        after.perform schema call = (after, [], .ok answer) := by
  have sound := Schema.sound_of_text text schema read
  have performs (held : Session) (reached : held.Performed schema) : held.perform schema call = held.call schema call :=
    (perform_call schema sound held (performed_sorted schema sound held reached) call).1
  have admitted : call.Admitted schema := by
    cases call with
    | leafFilter type => cases about
    | _ => trivial
  have next : (session.call schema call).1.Performed schema := performs session reached ▸ .call session call reached
  cases call_ends schema sound session call admitted with
  | refused held again outside result =>
      cases about.symm.trans again
      refine ⟨session, [], _, (performs session reached).trans result, result, iff_of_true ⟨_, rfl⟩ outside, ?_, nofun⟩
      exact fun _ _ => ⟨rfl, rfl⟩
  | answered needs draft answer within listed met replied result =>
      refine ⟨_, _, _, (performs session reached).trans result, result, iff_of_false nofun (not_not.mpr (within id about)),
        nofun, ?_⟩
      rintro _ ⟨⟩
      refine ⟨met_keeps schema needs _ draft met, ?_⟩
      rw [result] at next
      rw [performs _ next]
      refine call_settled schema _ call needs answer listed replied (fun need member => ?_)
      cases need with
      | type target => exact ⟨target, rfl, met_registers schema needs _ draft met target member⟩
      | notice id =>
          obtain ⟨_, same, _, none⟩ := call_needs schema sound call admitted within
          cases same.symm.trans listed
          exact absurd member (none id)

def performedPeople : Session := (Session.perform people {} (.composite .filter ⟨0⟩ ["name"])).1

theorem people_atomic : Schema.ofText peopleText = .ok people ∧ performedPeople.Performed people ∧
    (∃ after notices, performedPeople.perform people (.updateArguments ⟨1⟩ []) = (after, notices, .ok placeArguments) ∧
      after.perform people (.updateArguments ⟨1⟩ []) = (after, [], .ok placeArguments)) ∧
    ∃ error, performedPeople.perform people (.updateArguments ⟨2⟩ []) = (performedPeople, [], .error error) := by
  have read : Schema.ofText peopleText = .ok people := by decide +kernel
  have reached : performedPeople.Performed people := .call {} (.composite .filter ⟨0⟩ ["name"]) .fresh
  have answered : (performedPeople.perform people (.updateArguments ⟨1⟩ [])).2.2 = .ok placeArguments := by decide +kernel
  obtain ⟨after, notices, result, performed, _, _, _, settles⟩ :=
    calls_atomic people peopleText read performedPeople reached (.updateArguments ⟨1⟩ []) ⟨1⟩ rfl
  obtain ⟨same, kept, failed, refused, _, fails, nothing, _⟩ :=
    calls_atomic people peopleText read performedPeople reached (.updateArguments ⟨2⟩ []) ⟨2⟩ rfl
  rw [performed] at answered
  have answers : result = .ok placeArguments := answered
  obtain ⟨error, failing⟩ := fails.mpr (by decide)
  obtain ⟨unchanged, silent⟩ := nothing error failing
  rw [answers] at performed
  rw [unchanged, silent, failing] at refused
  exact ⟨read, reached, ⟨after, notices, performed, (settles _ answers).2⟩, error, refused⟩

end DocGraph.Derivation
