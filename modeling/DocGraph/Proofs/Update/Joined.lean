import DocGraph.Proofs.Update.Writes

set_option autoImplicit false

namespace DocGraph.Update

def newMembers (held given : Members) : Members :=
  given.filter (fun entry => entry.1 != Overwrite.marker && !Members.has entry.1 held)

mutual
def joined : Json → Json → Json
  | .obj held, .obj given => .obj (joinedMembers held given ++ newMembers held given)
  | _, given => given
termination_by structural held => held
def joinedMembers : Members → Members → Members
  | [], _ => []
  | (key, value) :: rest, given =>
      let others := joinedMembers rest given
      if key = Overwrite.marker then others
      else
        match Members.get? key given with
        | some other => (key, joined value other) :: others
        | none => (key, value) :: others
termination_by structural held => held
end

def joinedObject (held given : Members) : Members := joinedMembers held given ++ newMembers held given

theorem joined_value (value other : Json) :
    joined value other = other ∧ (∀ held given, value = .obj held → other ≠ .obj given) ∨
    ∃ held given, value = .obj held ∧ other = .obj given ∧ joined value other = .obj (joinedObject held given) := by
  cases value with
  | obj held =>
      cases other with
      | obj given => exact .inr ⟨held, given, rfl, rfl, by rw [joined]; rfl⟩
      | _ => exact .inl ⟨by rw [joined]; nofun, nofun⟩
  | _ => exact .inl ⟨by rw [joined]; nofun, nofun⟩

theorem new_members_get (key : String) (held given : Members) (plain : key ≠ Overwrite.marker)
    (fresh : Members.get? key held = none) : Members.get? key (newMembers held given) = Members.get? key given := by
  induction given with
  | nil => rfl
  | cons entry rest ih =>
      rcases entry with ⟨name, value⟩
      by_cases hit : name = key
      · have kept : (name != Overwrite.marker && !Members.has name held) = true := by
          simp [Members.has, hit, plain, fresh]
        rw [newMembers, List.filter_cons, if_pos kept, Members.get?, Members.get?, if_pos hit, if_pos hit]
      · rw [newMembers, List.filter_cons, Members.get?, if_neg hit, ← ih]
        split
        · rw [Members.get?, if_neg hit]
          rfl
        · rfl

theorem joined_members_get (key : String) (held given : Members) (plain : key ≠ Overwrite.marker) :
    Members.get? key (joinedMembers held given) =
      (Members.get? key held).map (fun value => ((Members.get? key given).map (joined value)).getD value) := by
  induction held with
  | nil => rfl
  | cons entry rest ih =>
      rcases entry with ⟨name, value⟩
      by_cases marks : name = Overwrite.marker
      · have other : name ≠ key := fun same => plain (same.symm.trans marks)
        rw [joinedMembers, if_pos marks, ih, Members.get?, if_neg other]
      · rw [joinedMembers, if_neg marks, Members.get?]
        by_cases hit : name = key
        · rw [if_pos hit, hit]
          cases Members.get? key given with
          | none => simp [Members.get?]
          | some other => simp [Members.get?]
        · rw [if_neg hit, ← ih]
          cases Members.get? name given with
          | none => simp [Members.get?, hit]
          | some other => simp [Members.get?, hit]

theorem joined_members_marker (held given : Members) :
    Members.get? Overwrite.marker (joinedMembers held given) = none := by
  induction held with
  | nil => rfl
  | cons entry rest ih =>
      rcases entry with ⟨name, value⟩
      by_cases marks : name = Overwrite.marker
      · rw [joinedMembers, if_pos marks, ih]
      · rw [joinedMembers, if_neg marks]
        cases Members.get? name given with
        | none => rw [Members.get?, if_neg marks, ih]
        | some other => rw [Members.get?, if_neg marks, ih]

theorem new_members_marker (held given : Members) : Members.get? Overwrite.marker (newMembers held given) = none := by
  refine (Members.get?_eq_none _ _).mpr (fun member => ?_)
  obtain ⟨entry, listed, marks⟩ := List.mem_map.mp member
  have plain := (List.mem_filter.mp listed).2
  simp [marks] at plain

inductive Source (key : String) (held given : Members) (value : Json) : Prop where
  | set (there : Members.get? key given = some value)
      (apart : ∀ inner other, Members.get? key held = some (.obj inner) → value ≠ .obj other)
  | onInsert (here : Members.get? key held = some value) (none : Members.get? key given = none)
  | both (inner other : Members) (here : Members.get? key held = some (.obj inner))
      (there : Members.get? key given = some (.obj other)) (same : value = .obj (joinedObject inner other))

theorem joined_object_get (key : String) (held given : Members) (value : Json)
    (found : Members.get? key (joinedObject held given) = some value) :
    key ≠ Overwrite.marker ∧ Source key held given value := by
  have plain : key ≠ Overwrite.marker := by
    intro marks
    rw [marks, joinedObject, Members.get?_append, joined_members_marker, new_members_marker] at found
    cases found
  refine ⟨plain, ?_⟩
  rw [joinedObject, Members.get?_append, joined_members_get key held given plain] at found
  cases here : Members.get? key held with
  | none =>
      rw [here, new_members_get key held given plain here] at found
      exact .set found (fun inner other held => nomatch here.symm.trans held)
  | some mine =>
      rw [here] at found
      cases there : Members.get? key given with
      | none =>
          rw [there] at found
          cases found
          exact .onInsert here there
      | some other =>
          rw [there] at found
          cases found
          rcases joined_value mine other with ⟨same, apart⟩ | ⟨inner, outer, rfl, rfl, same⟩
          · refine .set (there.trans (congrArg some same.symm)) (fun inner outer held => ?_)
            rw [here] at held
            exact fun object => apart inner outer (Option.some.inj held) (same.symm.trans object)
          · exact .both inner outer here there same

theorem joined_object_given (key : String) (held given : Members) (plain : key ≠ Overwrite.marker)
    (offered : valuesOf [held, given] key ≠ []) : ∃ value, Members.get? key (joinedObject held given) = some value := by
  rw [joinedObject, Members.get?_append, joined_members_get key held given plain]
  cases here : Members.get? key held with
  | some mine => exact ⟨_, rfl⟩
  | none =>
      rw [new_members_get key held given plain here]
      cases there : Members.get? key given with
      | some other => exact ⟨other, rfl⟩
      | none => simp [valuesOf, here, there] at offered

end DocGraph.Update
