import DocGraph.Json.Basic

set_option autoImplicit false

namespace DocGraph

namespace Json

mutual
def UniqueKeys : Json → Prop
  | .arr elements => ElementsUnique elements
  | .obj members => (Members.keys members).Nodup ∧ MembersUnique members
  | _ => True
termination_by structural value => value
def ElementsUnique : List Json → Prop
  | [] => True
  | element :: rest => UniqueKeys element ∧ ElementsUnique rest
termination_by structural elements => elements
def MembersUnique : Members → Prop
  | [] => True
  | (_, value) :: rest => UniqueKeys value ∧ MembersUnique rest
termination_by structural members => members
end

inductive ObjectIn : Json → Members → Prop where
  | self (object : Members) : ObjectIn (.obj object) object
  | member (key : String) (value : Json) (object inner : Members) (given : (key, value) ∈ object)
      (inside : ObjectIn value inner) : ObjectIn (.obj object) inner
  | element (element : Json) (elements : List Json) (inner : Members) (given : element ∈ elements)
      (inside : ObjectIn element inner) : ObjectIn (.arr elements) inner

theorem members_unique_mem (members : Members) (key : String) (value : Json)
    (unique : MembersUnique members) (member : (key, value) ∈ members) : UniqueKeys value := by
  induction members with
  | nil => simp at member
  | cons entry rest ih =>
      rcases entry with ⟨name, held⟩
      rcases List.mem_cons.mp member with same | later
      · cases same
        exact unique.1
      · exact ih unique.2 later

theorem member_depth (key : String) (value : Json) (members : Members) (member : (key, value) ∈ members) :
    value.depth ≤ membersDepth members := by
  induction members with
  | nil => cases member
  | cons entry rest ih =>
      rcases entry with ⟨name, held⟩
      rw [membersDepth]
      rcases List.mem_cons.mp member with same | later
      · cases same
        exact Nat.le_max_left _ _
      · exact Nat.le_trans (ih later) (Nat.le_max_right _ _)

theorem element_depth (element : Json) (elements : List Json) (member : element ∈ elements) :
    element.depth ≤ elementsDepth elements := by
  induction elements with
  | nil => cases member
  | cons head rest ih =>
      rw [elementsDepth]
      rcases List.mem_cons.mp member with rfl | later
      · exact Nat.le_max_left _ _
      · exact Nat.le_trans (ih later) (Nat.le_max_right _ _)

end Json

namespace Members

theorem mem_of_get? (key : String) (value : Json) (members : Members)
    (found : get? key members = some value) : (key, value) ∈ members := by
  induction members with
  | nil => cases found
  | cons entry rest ih =>
      rcases entry with ⟨name, held⟩
      by_cases same : name = key
      · simp only [get?, if_pos same, Option.some.injEq] at found
        simp [same, found]
      · rw [get?, if_neg same] at found
        exact List.mem_cons_of_mem _ (ih found)

theorem get?_eq_none (key : String) (members : Members) : get? key members = none ↔ key ∉ keys members := by
  induction members with
  | nil => simp [get?, keys]
  | cons entry rest ih =>
      rcases entry with ⟨name, held⟩
      by_cases same : name = key
      · simp [get?, keys, same]
      · simpa [get?, keys, same, Ne.symm same] using ih

theorem get?_append (key : String) (front back : Members) :
    get? key (front ++ back) = (get? key front).or (get? key back) := by
  induction front with
  | nil => rfl
  | cons entry rest ih =>
      rcases entry with ⟨name, value⟩
      by_cases hit : name = key
      · rw [List.cons_append, get?, get?, if_pos hit, if_pos hit]
        rfl
      · rw [List.cons_append, get?, get?, if_neg hit, if_neg hit, ih]

theorem get?_of_mem (key : String) (value : Json) (members : Members) (unique : (keys members).Nodup)
    (member : (key, value) ∈ members) : get? key members = some value := by
  induction members with
  | nil => simp at member
  | cons entry rest ih =>
      rcases entry with ⟨name, held⟩
      have parts := List.nodup_cons.mp unique
      rcases List.mem_cons.mp member with same | later
      · cases same
        simp [get?]
      · have different : name ≠ key := by
          intro same
          exact parts.1 (List.mem_map.mpr ⟨(key, value), later, same.symm⟩)
        rw [get?, if_neg different]
        exact ih parts.2 later

theorem mem_keys_of_mem (key : String) (value : Json) (members : Members) (member : (key, value) ∈ members) :
    key ∈ keys members :=
  List.mem_map.mpr ⟨(key, value), member, rfl⟩

theorem exists_of_mem_keys (key : String) (members : Members) (listed : key ∈ keys members) :
    ∃ value, (key, value) ∈ members := by
  obtain ⟨⟨_, value⟩, member, rfl⟩ := List.mem_map.mp listed
  exact ⟨value, member⟩

theorem keys_append (front back : Members) : keys (front ++ back) = keys front ++ keys back := by
  simp [keys]

theorem put_fresh (key : String) (value : Json) (members : Members) (fresh : key ∉ keys members) :
    put key value members = members ++ [(key, value)] := by
  induction members with
  | nil => rfl
  | cons entry rest ih =>
      rcases entry with ⟨name, held⟩
      have different : name ≠ key := fun same => fresh (by simp [keys, same])
      have later : key ∉ keys rest := fun member => fresh (List.mem_cons_of_mem _ member)
      simp only [put, if_neg different, ih later, List.cons_append]

theorem put_all_unique (entries held : Members) (unique : (keys (held ++ entries)).Nodup) :
    putAll held entries = held ++ entries := by
  induction entries generalizing held with
  | nil => simp [putAll]
  | cons entry rest ih =>
      rcases entry with ⟨key, value⟩
      have fresh : key ∉ keys held := by
        intro member
        rw [keys_append, List.nodup_append] at unique
        exact unique.2.2 key member key (by simp [keys]) rfl
      have shifted : held ++ (key, value) :: rest = (held ++ [(key, value)]) ++ rest := by simp
      change putAll (put key value held) rest = _
      rw [put_fresh key value held fresh, shifted]
      exact ih (held ++ [(key, value)]) (shifted ▸ unique)

theorem of_entries_unique (entries : Members) (unique : (keys entries).Nodup) : ofEntries entries = entries :=
  put_all_unique entries [] unique

theorem mem_put (entry : String × Json) (key : String) (value : Json) (members : Members)
    (member : entry ∈ put key value members) : entry = (key, value) ∨ entry ∈ members := by
  induction members with
  | nil => exact .inl (List.mem_singleton.mp member)
  | cons held rest ih =>
      rcases held with ⟨name, old⟩
      by_cases same : name = key
      · rw [put, if_pos same] at member
        rcases List.mem_cons.mp member with here | later
        · exact .inl (here.trans (by rw [same]))
        · exact .inr (List.mem_cons_of_mem _ later)
      · rw [put, if_neg same] at member
        rcases List.mem_cons.mp member with here | later
        · exact .inr (here ▸ List.mem_cons_self ..)
        · exact (ih later).imp (fun new => new) (List.mem_cons_of_mem _)

theorem mem_of_entries (entry : String × Json) (entries : Members) (member : entry ∈ ofEntries entries) :
    entry ∈ entries := by
  have fold (held : Members) (inside : entry ∈ putAll held entries) : entry ∈ entries ∨ entry ∈ held := by
    clear member
    induction entries generalizing held with
    | nil => exact .inr inside
    | cons head rest ih =>
        rcases ih (put head.1 head.2 held) inside with later | earlier
        · exact .inl (List.mem_cons_of_mem head later)
        · rcases mem_put entry head.1 head.2 held earlier with new | old
          · exact .inl (new ▸ List.mem_cons_self ..)
          · exact .inr old
  exact (fold [] member).elim (fun listed => listed) (fun none => absurd none List.not_mem_nil)

end Members

end DocGraph
