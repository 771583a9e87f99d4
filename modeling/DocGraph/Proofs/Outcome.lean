import DocGraph.Notice

set_option autoImplicit false

namespace DocGraph

variable {ε α β : Type}

theorem except_bind_ok (first : Except ε α) (next : α → Except ε β) (value : β) :
    first >>= next = .ok value ↔ ∃ held, first = .ok held ∧ next held = .ok value := by
  cases first with
  | error error => simp [bind, Except.bind]
  | ok held => simp [bind, Except.bind]

theorem except_map_ok (computed : Except ε α) (f : α → β) (value : β) :
    f <$> computed = .ok value ↔ ∃ held, computed = .ok held ∧ f held = value := by
  cases computed with
  | error error => simp [Functor.map, Except.map]
  | ok held => simp [Functor.map, Except.map]

theorem except_option_ok (computed : Except ε α) (value : α) : computed.toOption = some value ↔ computed = .ok value := by
  cases computed with
  | error error => exact ⟨nofun, nofun⟩
  | ok held => exact ⟨fun same => congrArg Except.ok (Option.some.inj same), fun same => congrArg some (Except.ok.inj same)⟩

theorem except_map_error_ok {δ : Type} (computed : Except ε α) (f : ε → δ) (value : α) :
    computed.mapError f = .ok value ↔ computed = .ok value := by
  cases computed with
  | error error => exact ⟨nofun, nofun⟩
  | ok held => exact ⟨fun same => congrArg Except.ok (Except.ok.inj same), fun same => congrArg Except.ok (Except.ok.inj same)⟩

theorem except_map_bind {γ : Type} (computed : Except ε α) (f : α → β) (next : β → Except ε γ) :
    computed.map f >>= next = computed >>= fun value => next (f value) := by
  cases computed <;> rfl

theorem except_bind_congr (first : Except ε α) (next other : α → Except ε β)
    (same : ∀ value, first = .ok value → next value = other value) : first >>= next = first >>= other := by
  cases first with
  | error error => rfl
  | ok value => exact same value rfl

theorem except_for_ok (items : List α) (act : α → Except ε Unit) :
    items.forM act = .ok () ↔ ∀ item ∈ items, act item = .ok () := by
  induction items with
  | nil => exact ⟨fun _ _ none => absurd none List.not_mem_nil, fun _ => rfl⟩
  | cons head rest ih =>
      rw [List.forM_eq_forM, List.forM_cons, except_bind_ok, List.forall_mem_cons, ← ih]
      constructor
      · rintro ⟨_, first, others⟩
        exact ⟨first, others⟩
      · rintro ⟨first, others⟩
        exact ⟨(), first, others⟩

theorem except_map_list_cons (head : α) (rest : List α) (act : α → Except ε β) (values : List β) :
    (head :: rest).mapM act = .ok values ↔
      ∃ first, act head = .ok first ∧ ∃ others, rest.mapM act = .ok others ∧ first :: others = values := by
  rw [List.mapM_cons, except_bind_ok]
  simp only [except_bind_ok, pure, Except.pure, Except.ok.injEq]

theorem except_map_list_succeeds (items : List α) (act : α → Except ε β)
    (succeeds : ∀ item ∈ items, ∃ value, act item = .ok value) : ∃ values, items.mapM act = .ok values := by
  induction items with
  | nil => exact ⟨[], rfl⟩
  | cons head rest ih =>
      obtain ⟨first, here⟩ := succeeds head (List.mem_cons_self ..)
      obtain ⟨others, rests⟩ := ih (fun item member => succeeds item (List.mem_cons_of_mem head member))
      rw [List.mapM_cons, here]
      exact ⟨first :: others, (except_bind_ok _ _ _).mpr ⟨first, rfl, (except_bind_ok _ _ _).mpr ⟨others, rests, rfl⟩⟩⟩

theorem except_map_list_changed {γ : Type} (items : List α) (before : α → Except ε β) (after : α → Except ε γ)
    (change : β → γ) (same : ∀ item, after item = (before item).map change) :
    items.mapM after = (items.mapM before).map (List.map change) := by
  induction items with
  | nil => rfl
  | cons head rest ih =>
      rw [List.mapM_cons, List.mapM_cons, same, ih]
      cases before head with
      | error error => rfl
      | ok first => cases rest.mapM before <;> rfl

theorem except_map_list_ok (items : List α) (act : α → Except ε β) (values : List β)
    (mapped : items.mapM act = .ok values) :
    (∀ item ∈ items, ∃ value ∈ values, act item = .ok value) ∧
      ∀ value ∈ values, ∃ item ∈ items, act item = .ok value := by
  induction items generalizing values with
  | nil => simp [← Except.ok.inj mapped]
  | cons head rest ih =>
      rw [List.mapM_cons] at mapped
      obtain ⟨first, here, later⟩ := (except_bind_ok _ _ _).mp mapped
      obtain ⟨others, rests, joined⟩ := (except_bind_ok _ _ _).mp later
      cases Except.ok.inj joined
      constructor
      · intro item member
        rcases List.mem_cons.mp member with rfl | behind
        · exact ⟨first, List.mem_cons_self .., here⟩
        · obtain ⟨value, listed, same⟩ := (ih others rests).1 item behind
          exact ⟨value, List.mem_cons_of_mem first listed, same⟩
      · intro value member
        rcases List.mem_cons.mp member with rfl | behind
        · exact ⟨head, List.mem_cons_self .., here⟩
        · obtain ⟨item, listed, same⟩ := (ih others rests).2 value behind
          exact ⟨item, List.mem_cons_of_mem head listed, same⟩

theorem except_map_list_nil_iff (items : List α) (act : α → Except ε β) (values : List β)
    (mapped : items.mapM act = .ok values) : values = [] ↔ items = [] := by
  obtain ⟨sent, given⟩ := except_map_list_ok items act values mapped
  constructor
  · rintro rfl
    refine List.eq_nil_iff_forall_not_mem.mpr (fun item member => ?_)
    obtain ⟨_, none, _⟩ := sent item member
    cases none
  · rintro rfl
    refine List.eq_nil_iff_forall_not_mem.mpr (fun value member => ?_)
    obtain ⟨_, none, _⟩ := given value member
    cases none

theorem except_fold_keeps {σ : Type} (step : σ → α → Except ε σ) (invariant : σ → Prop) (items : List α)
    (state after : σ) (start : invariant state)
    (keeps : ∀ item ∈ items, ∀ held next, invariant held → step held item = .ok next → invariant next)
    (folded : items.foldlM step state = .ok after) : invariant after := by
  induction items generalizing state with
  | nil => exact Except.ok.inj folded ▸ start
  | cons head rest ih =>
      rw [List.foldlM_cons] at folded
      obtain ⟨next, first, others⟩ := (except_bind_ok _ _ _).mp folded
      exact ih next (keeps head (List.mem_cons_self ..) state next start first)
        (fun item member => keeps item (List.mem_cons_of_mem head member)) others

-- A computation fails exactly if there are faults, and then with one of them.
def Refuses (faults : Error → Prop) : Except Error α → Prop
  | .ok _ => ∀ error, ¬ faults error
  | .error error => faults error

theorem refuses_iff (faults : Error → Prop) (computed : Except Error α) (refuses : Refuses faults computed) :
    ((∃ error, computed = .error error) ↔ ∃ error, faults error) ∧
      ∀ error, computed = .error error → faults error := by
  cases computed with
  | error error =>
      refine ⟨⟨fun _ => ⟨error, refuses⟩, fun _ => ⟨error, rfl⟩⟩, ?_⟩
      intro other same
      exact Except.error.inj same ▸ refuses
  | ok value =>
      refine ⟨⟨?_, fun ⟨error, fault⟩ => absurd fault (refuses error)⟩, ?_⟩
      · rintro ⟨_, other⟩
        cases other
      · intro error other
        cases other

theorem refuses_widen (a b : Error → Prop) (computed : Except Error α) (wider : ∀ error, a error → b error)
    (only : ∀ error, b error → ∃ other, a other) (refuses : Refuses a computed) : Refuses b computed := by
  cases computed with
  | error error => exact wider error refuses
  | ok value =>
      intro error fault
      obtain ⟨other, held⟩ := only error fault
      exact refuses other held

theorem refuses_congr (a b : Error → Prop) (computed : Except Error α) (same : ∀ error, a error ↔ b error)
    (refuses : Refuses a computed) : Refuses b computed :=
  refuses_widen a b computed (fun error => (same error).mp) (fun error fault => ⟨error, (same error).mpr fault⟩) refuses

theorem refuses_map (computed : Except Error α) (f : α → β) (faults : Error → Prop)
    (refuses : Refuses faults computed) : Refuses faults (f <$> computed) := by
  cases computed with
  | error error => exact refuses
  | ok value => exact refuses

theorem refuses_bind (first : Except Error α) (next : α → Except Error β) (a b : Error → Prop)
    (early : Refuses a first) (late : ∀ value, first = .ok value → Refuses b (next value)) :
    Refuses (fun error => a error ∨ b error) (first >>= next) := by
  cases first with
  | error error => exact .inl early
  | ok value =>
      have rest := late value rfl
      change Refuses _ (next value)
      cases computed : next value with
      | error error =>
          rw [computed] at rest
          exact .inr rest
      | ok result =>
          rw [computed] at rest
          exact fun error fault => fault.elim (early error) (rest error)

def FailsWith (errors : Error → Prop) (computed : Except Error α) : Prop :=
  ∀ error, computed = .error error → errors error

theorem fails_bind (errors : Error → Prop) (first : Except Error α) (next : α → Except Error β)
    (early : FailsWith errors first) (late : ∀ value, FailsWith errors (next value)) : FailsWith errors (first >>= next) := by
  cases first with
  | error error => exact fun other same => early other (congrArg Except.error (Except.error.inj same))
  | ok value => exact late value

theorem fails_return (errors : Error → Prop) (first : Except Error α) (f : α → β) (early : FailsWith errors first) :
    FailsWith errors (first >>= fun value => pure (f value)) :=
  fails_bind errors first _ early (fun _ => nofun)

namespace Outcome

theorem lift_bind (value : α) (next : α → Outcome β) :
    (liftM (Except.ok value : Except Error α) : Outcome α) >>= next = next value := rfl

theorem lift_map_bind {γ : Type} (computed : Except Error α) (f : α → β) (next : β → Outcome γ) :
    (liftM (computed.map f) : Outcome β) >>= next = (liftM computed : Outcome α) >>= fun value => next (f value) := by
  cases computed <;> rfl

theorem bind_result (first : Outcome α) (next : α → Outcome β) :
    (first >>= next).result = first.result >>= fun value => (next value).result := by
  change (first.andThen next).result = _
  unfold andThen
  cases first.result <;> rfl

theorem refuses_and_then (first : Outcome α) (next : α → Outcome β) (a b : Error → Prop)
    (early : Refuses a first.result) (late : ∀ value, first.result = .ok value → Refuses b (next value).result) :
    Refuses (fun error => a error ∨ b error) (first >>= next).result := by
  rw [bind_result]
  exact refuses_bind first.result _ a b early late

theorem result_bind (first : Outcome α) (next : α → Outcome β) (value : β) :
    (first >>= next).result = .ok value ↔
      ∃ held, first.result = .ok held ∧ (next held).result = .ok value := by
  change (first.andThen next).result = .ok value ↔ _
  unfold andThen
  cases first.result with
  | error error => simp
  | ok held => simp

theorem result_pure (held value : α) : (pure held : Outcome α).result = .ok value ↔ held = value := by
  change (Except.ok held : Except Error α) = .ok value ↔ _
  simp

theorem result_lift (computed : Except Error α) : (liftM computed : Outcome α).result = computed := rfl

theorem result_fail (error : Error) : (fail error : Outcome α).result = .error error := rfl

end Outcome

end DocGraph
