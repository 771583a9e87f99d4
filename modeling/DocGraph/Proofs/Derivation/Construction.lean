import DocGraph.Derivation.Construction
import DocGraph.Proofs.Derivation.Sessions

set_option autoImplicit false

namespace DocGraph

theorem Registry.lookup_erase (registry : Registry) (key name : String) :
    (registry.erase key).lookup? name = if key = name then none else registry.lookup? name := by
  rw [lookup?, lookup?, erase, List.find?_filter]
  by_cases same : key = name
  · rw [if_pos same, Option.map_eq_none_iff, List.find?_eq_none]
    simp [same]
  · rw [if_neg same]
    have kept : (fun entry : String × InputType => decide ((entry.1 != key) = true ∧ (entry.1 == name) = true)) =
        fun entry => entry.1 == name := by
      funext entry
      by_cases here : entry.1 = name <;> simp [here, Ne.symm same]
    rw [kept]

namespace Derivation

namespace Construction

variable {α β : Type}

def Ends (steps : Construction α) (draft : Draft) (value : α) (after : Draft) : Prop :=
  steps.run.run draft = (.ok value, after)

theorem run_bind (first : Construction α) (next : α → Construction β) (draft between : Draft) (value : α)
    (early : first.Ends draft value between) : (first >>= next).run.run draft = (next value).run.run between := by
  unfold Ends at early
  rw [ExceptT.run_bind, StateT.run_bind, early]
  rfl

theorem ends_bind (first : Construction α) (next : α → Construction β) (draft between after : Draft) (value : α)
    (result : β) (early : first.Ends draft value between) (late : (next value).Ends between result after) :
    (first >>= next).Ends draft result after :=
  (run_bind first next draft between value early).trans late

theorem fails_bind (first : Construction α) (next : α → Construction β) (draft after : Draft) (error : Error)
    (fails : first.run.run draft = (.error error, after)) : (first >>= next).run.run draft = (.error error, after) := by
  rw [ExceptT.run_bind, StateT.run_bind, fails]
  rfl

theorem ends_lift (computed : Except Error α) (draft : Draft) (value : α) (same : computed = .ok value) :
    Ends (liftM computed) draft value draft := by
  rw [same]
  rfl

theorem ends_catch (steps : Construction α) (handle : Error → Construction α) (draft after : Draft) (value : α)
    (ends : steps.Ends draft value after) : (tryCatch steps handle).Ends draft value after := by
  unfold Ends at ends ⊢
  rw [ExceptT.run_tryCatch, StateT.run_bind, ends]
  rfl

-- What stands under the names under way differs from the definitions that a derivation registers, and nothing else does.
structure Alike (under : List (String × InputType)) (draft other : Draft) : Prop where
  raised : other.raised = draft.raised
  sorted : draft.registry.Sorted
  ordered : other.registry.Sorted
  same : ∀ key, key ∉ under.map Prod.fst → other.registry.lookup? key = draft.registry.lookup? key
  held : ∀ entry ∈ under, draft.registry.lookup? entry.1 = some entry.2 ∧ other.registry.contains entry.1 = true

variable {under : List (String × InputType)} {draft after other : Draft}

theorem Alike.contains (alike : Alike under draft other) (key : String) :
    other.registry.contains key = draft.registry.contains key := by
  by_cases way : key ∈ under.map Prod.fst
  · obtain ⟨entry, member, rfl⟩ := List.mem_map.mp way
    obtain ⟨found, contained⟩ := alike.held entry member
    rw [contained, Registry.contains, found]
    rfl
  · rw [Registry.contains, Registry.contains, alike.same key way]

theorem Alike.begun (alike : Alike under draft other) (name : String) (type : InputType)
    (free : draft.registry.contains name = false) :
    Alike ((name, type) :: under) { draft with registry := draft.registry.insert name type }
      { other with registry := other.registry.insert name (placeholder name) } where
  raised := alike.raised
  sorted := Registry.sorted_insert draft.registry name type alike.sorted
  ordered := Registry.sorted_insert other.registry name _ alike.ordered
  same := by
    intro key outside
    obtain ⟨differs, rest⟩ := not_or.mp (mt List.mem_cons.mpr outside)
    rw [Registry.lookup_insert, Registry.lookup_insert, if_neg (Ne.symm differs), if_neg (Ne.symm differs)]
    exact alike.same key rest
  held := by
    intro entry member
    rcases List.mem_cons.mp member with rfl | behind
    · exact ⟨by simp [Registry.lookup_insert], by simp [Registry.contains_insert]⟩
    · obtain ⟨found, contained⟩ := alike.held entry behind
      refine ⟨lookup_insert_free draft.registry name entry.1 type entry.2 free found, ?_⟩
      rw [Registry.contains_insert, contained, Bool.or_true]

theorem Alike.completed (name : String) (type : InputType) (alike : Alike ((name, type) :: under) draft other) :
    Alike under draft { other with registry := other.registry.insert name type } where
  raised := alike.raised
  sorted := alike.sorted
  ordered := Registry.sorted_insert other.registry name type alike.ordered
  same := by
    intro key outside
    rw [Registry.lookup_insert]
    by_cases here : name = key
    · rw [if_pos here, ← here]
      exact (alike.held _ (List.mem_cons_self ..)).1.symm
    · rw [if_neg here]
      refine alike.same key (fun member => ?_)
      exact (List.mem_cons.mp member).elim (fun same => here same.symm) outside
  held := by
    intro entry member
    obtain ⟨found, contained⟩ := alike.held entry (List.mem_cons_of_mem _ member)
    refine ⟨found, ?_⟩
    rw [Registry.contains_insert, contained, Bool.or_true]

theorem Alike.eq (alike : Alike [] draft other) : other = draft := by
  have registry := Registry.eq_of_lookup other.registry draft.registry alike.ordered alike.sorted
    (fun key => alike.same key List.not_mem_nil)
  have raised := alike.raised
  rcases draft with ⟨_, _⟩
  rcases other with ⟨_, _⟩
  cases registry
  cases raised
  rfl

theorem create_taken (name : String) (build : Construction InputType) (held : draft.registry.contains name = true) :
    (create name build).Ends draft () draft := by
  refine ends_bind _ _ draft draft draft draft () rfl ?_
  rw [held]
  rfl

theorem create_free (name : String) (build : Construction InputType) (type : InputType)
    (free : draft.registry.contains name = false)
    (built : build.Ends { draft with registry := draft.registry.insert name (placeholder name) } type after) :
    (create name build).Ends draft () { after with registry := after.registry.insert name type } := by
  refine ends_bind _ _ draft draft _ draft () rfl ?_
  rw [free]
  refine ends_bind _ _ draft { draft with registry := draft.registry.insert name (placeholder name) } _ () () rfl ?_
  exact ends_bind _ _ _ after _ type () (ends_catch build _ _ after type built) rfl

variable (schema : Schema)

theorem notify_follows (id : CompositeIndex) (alike : Alike under draft other)
    (notified : draft.notify schema id = .ok after) :
    ∃ built, (notify schema id).Ends other () built ∧ Alike under after built := by
  obtain ⟨composite, found, same⟩ := (except_bind_ok _ _ _).mp notified
  have also : other.notify schema id = .ok (if composite.undeclaredReaders.isEmpty then other
      else { other with raised := other.raised ++ [.undeclaredReaders composite.name composite.undeclaredReaders] }) :=
    (except_bind_ok _ _ _).mpr ⟨composite, found, rfl⟩
  cases Except.ok.inj same
  refine ⟨_, ends_bind _ _ other other _ other () rfl (ends_bind _ _ other other _ _ () (ends_lift _ other _ also) rfl), ?_⟩
  split
  · exact alike
  · exact ⟨by rw [alike.raised], alike.sorted, alike.ordered, alike.same, alike.held⟩

def Follows (bound : Nat) : Prop :=
  ∀ (target : Target) (under : List (String × InputType)) (draft after other : Draft), Alike under draft other →
    derive schema bound target draft = .ok after →
      ∃ built, (ofTarget schema bound target).Ends other () built ∧ Alike under after built

variable (bound : Nat) (follows : Follows schema bound)

include follows in
theorem needs_follow (needs : List Need) (draft other : Draft) (alike : Alike under draft other)
    (met : needs.foldlM (Draft.meet schema (derive schema bound)) draft = .ok after) :
    ∃ built, (needs.forM (meet schema (ofTarget schema bound))).Ends other () built ∧ Alike under after built := by
  induction needs generalizing draft other with
  | nil =>
      cases Except.ok.inj met
      exact ⟨other, rfl, alike⟩
  | cons need rest ih =>
      rw [List.foldlM_cons] at met
      obtain ⟨next, here, later⟩ := (except_bind_ok _ _ _).mp met
      have first : ∃ reached, (meet schema (ofTarget schema bound) need).Ends other () reached ∧
          Alike under next reached := by
        cases need with
        | type target => exact follows target under draft next other alike here
        | notice id => exact notify_follows schema id alike here
      obtain ⟨reached, mine, still⟩ := first
      obtain ⟨built, theirs, done⟩ := ih next reached still later
      rw [List.forM_eq_forM, List.forM_cons]
      exact ⟨built, ends_bind _ _ other reached built () () mine theirs, done⟩

include follows in
theorem fields_follow {α : Type} (needs : α → Except Error (List Need)) (input : α → Except Error InputValue)
    (items : List α) (each : List (List Need)) (inputs : List InputValue) (listed : items.mapM needs = .ok each)
    (given : items.mapM input = .ok inputs) (draft other : Draft) (alike : Alike under draft other)
    (met : each.flatten.foldlM (Draft.meet schema (derive schema bound)) draft = .ok after) :
    ∃ built, (fields schema (ofTarget schema bound) needs input items).Ends other inputs built ∧
      Alike under after built := by
  unfold fields
  induction items generalizing each inputs draft other with
  | nil =>
      cases Except.ok.inj listed
      cases Except.ok.inj given
      cases Except.ok.inj met
      exact ⟨other, rfl, alike⟩
  | cons item rest ih =>
      obtain ⟨first, here, others, behind, rfl⟩ := (except_map_list_cons item rest needs each).mp listed
      obtain ⟨field, mine, fields, theirs, rfl⟩ := (except_map_list_cons item rest input inputs).mp given
      rw [List.flatten_cons, List.foldlM_append] at met
      obtain ⟨next, early, late⟩ := (except_bind_ok _ _ _).mp met
      obtain ⟨reached, needed, still⟩ := needs_follow schema bound follows first draft other alike early
      obtain ⟨built, later, done⟩ := ih others fields behind theirs next reached still late
      rw [List.mapM_cons]
      have here : Ends (do
          (← needs item).forM (meet schema (ofTarget schema bound))
          input item) other field reached :=
        ends_bind _ _ other other reached first field (ends_lift _ other first here)
          (ends_bind _ _ other reached reached () field needed (ends_lift _ reached field mine))
      exact ⟨built, ends_bind _ _ other reached built field _ here
        (ends_bind _ _ reached built built fields _ later rfl), done⟩

include follows in
theorem composite_follows (family : Family) (id : CompositeIndex) (scope : Scope) (composite : Composite) (type : InputType)
    (needs : List Need) (found : schema.composite id = .ok composite) (ordinary : family ≠ .update)
    (defined : (Target.composite family id scope).definition schema = .ok type)
    (listed : (Target.composite family id scope).needs schema = .ok needs) (draft other : Draft)
    (alike : Alike under draft other) (met : needs.foldlM (Draft.meet schema (derive schema bound)) draft = .ok after) :
    ∃ built, (build schema (ofTarget schema bound) (.composite family id scope)).Ends other type built ∧
      Alike under after built := by
  obtain ⟨inputs, given, rfl⟩ := composite_definition schema family id scope composite type found ordinary defined
  obtain ⟨each, gathered, rfl⟩ := composite_needs schema family id scope composite needs found ordinary listed
  rw [List.foldlM_append] at met
  obtain ⟨next, early, late⟩ := (except_bind_ok _ _ _).mp met
  obtain ⟨reached, taken, still⟩ := fields_follow schema bound follows (fieldNeeds schema family)
    (inputField schema family scope) (takenFields composite family scope) each inputs gathered given draft other alike early
  obtain ⟨built, own, done⟩ := needs_follow schema bound follows _ next reached still late
  refine ⟨built, ends_bind _ _ other other built composite _ (ends_lift _ other composite found) ?_, done⟩
  cases family with
  | update => exact absurd rfl ordinary
  | _ => exact ends_bind _ _ other reached built inputs _ taken (ends_bind _ _ reached built built () _ own rfl)

include follows in
theorem update_follows (id : CompositeIndex) (scope : Scope) (composite : Composite) (type : InputType)
    (needs : List Need) (found : schema.composite id = .ok composite)
    (defined : (Target.composite .update id scope).definition schema = .ok type)
    (listed : (Target.composite .update id scope).needs schema = .ok needs) (draft other : Draft)
    (alike : Alike under draft other) (met : needs.foldlM (Draft.meet schema (derive schema bound)) draft = .ok after) :
    ∃ built, (build schema (ofTarget schema bound) (.composite .update id scope)).Ends other type built ∧
      Alike under after built := by
  obtain ⟨name, named, later⟩ := (except_bind_ok _ _ _).mp defined
  obtain ⟨inputs, whole, last⟩ := (except_bind_ok _ _ _).mp later
  obtain ⟨_, _, given⟩ := (except_bind_ok _ _ _).mp whole
  obtain ⟨_, _, split⟩ := (except_bind_ok _ _ _).mp listed
  obtain ⟨_, again, rfl⟩ := (composite_name_ok schema .update id name).mp named
  cases again.symm.trans found
  cases Except.ok.inj last
  cases Except.ok.inj split
  have parts : updateParts.mapM (partNeeds id scope) =
      .ok (updateParts.map (fun part => [.type (.composite part.2 id scope)])) := rfl
  obtain ⟨built, ends, done⟩ := fields_follow schema bound follows (partNeeds id scope) (partField schema id) updateParts _
    inputs parts given draft other alike met
  exact ⟨built, ends_bind _ _ other other built composite _ (ends_lift _ other composite found)
    (ends_bind _ _ other built built inputs _ ends rfl), done⟩

include follows in
theorem build_follows (target : Target) (type : InputType) (needs : List Need)
    (defined : target.definition schema = .ok type) (listed : target.needs schema = .ok needs) (draft other : Draft) (alike : Alike under draft other)
    (met : needs.foldlM (Draft.meet schema (derive schema bound)) draft = .ok after) :
    ∃ built, (build schema (ofTarget schema bound) target).Ends other type built ∧ Alike under after built := by
  cases target with
  | composite family id scope =>
      obtain ⟨name, named, _⟩ := (except_bind_ok _ _ _).mp defined
      obtain ⟨composite, found, _⟩ := (composite_name_ok schema family id name).mp named
      by_cases update : family = .update
      · subst update
        exact update_follows schema bound follows id scope composite type needs found defined listed draft other alike met
      · exact composite_follows schema bound follows family id scope composite type needs found update defined listed draft
          other alike met
  | _ =>
      obtain ⟨built, ends, done⟩ := needs_follow schema bound follows needs draft other alike met
      exact ⟨built, ends_bind _ _ other other built needs type (ends_lift _ other needs listed)
        (ends_bind _ _ other built built () type ends (ends_lift _ built type defined)), done⟩

theorem of_target_follows (bound : Nat) : Follows schema bound := by
  induction bound with
  | zero =>
      intro target under draft after other alike derived
      obtain ⟨name, named, later⟩ := (except_bind_ok _ _ _).mp derived
      have same : draft = after := by split at later <;> exact Except.ok.inj later
      exact ⟨other, ends_bind _ _ other other other name () (ends_lift _ other name named) rfl, same ▸ alike⟩
  | succ bound ih =>
      intro target under draft after other alike derived
      obtain ⟨name, named, later⟩ := (except_bind_ok _ _ _).mp derived
      have enters (built : Draft) (ends : (create name (build schema (ofTarget schema bound) target)).Ends other () built) :
          (ofTarget schema (bound + 1) target).Ends other () built :=
        ends_bind _ _ other other built name () (ends_lift _ other name named) ends
      split at later
      · rename_i held
        cases Except.ok.inj later
        exact ⟨other, enters other (create_taken name _ ((alike.contains name).trans held)), alike⟩
      · rename_i free
        have free := Bool.eq_false_iff.mpr free
        obtain ⟨type, defined, later⟩ := (except_bind_ok _ _ _).mp later
        obtain ⟨needs, listed, met⟩ := (except_bind_ok _ _ _).mp later
        obtain ⟨built, ends, done⟩ := build_follows schema bound ih target type needs defined listed _ _
          (alike.begun name type free) met
        exact ⟨_, enters _ (create_free name _ type ((alike.contains name).trans free) ends), done.completed name type⟩

theorem of_target_outside (bound : Nat) (family : Family) (id : CompositeIndex) (scope : Scope) (draft : Draft)
    (outside : ¬ id.index < schema.composites.length) :
    (ofTarget schema bound (.composite family id scope)).run.run draft = (.error (.unknownComposite id), draft) := by
  cases bound <;> rw [ofTarget, name_outside schema family id scope outside] <;> rfl

theorem fails_catch (steps : Construction α) (handle : Error → Construction α) (draft after : Draft) (error : Error)
    (fails : steps.run.run draft = (.error error, after)) :
    (tryCatch steps handle).run.run draft = (handle error).run.run after := by
  rw [ExceptT.run_tryCatch, StateT.run_bind, fails]
  rfl

theorem create_fails (name : String) (build : Construction InputType) (error : Error)
    (free : draft.registry.contains name = false)
    (fails : build.run.run { draft with registry := draft.registry.insert name (placeholder name) } =
      (.error error, after)) : ∃ last, (create name build).run.run draft = (.error error, last) ∧ last.raised = after.raised ∧
      last.registry.contains name = false ∧
      ∀ key, key ≠ name → last.registry.lookup? key = after.registry.lookup? key := by
  refine ⟨{ after with registry := after.registry.erase name }, ?_, rfl, ?_, fun key other => ?_⟩
  · have placed : (register name (placeholder name)).Ends draft ()
        { draft with registry := draft.registry.insert name (placeholder name) } := rfl
    unfold create
    refine (run_bind (get : Construction Draft) _ draft draft draft rfl).trans ?_
    rw [free]
    refine (run_bind _ _ draft _ () placed).trans (fails_bind _ _ _ _ error ?_)
    rw [fails_catch build _ _ after error fails]
    rfl
  · rw [Registry.contains, Registry.lookup_erase, if_pos rfl]
    rfl
  · rw [Registry.lookup_erase, if_neg (Ne.symm other)]

end Construction

end Derivation

end DocGraph
