import DocGraph.InputType.Registry

set_option autoImplicit false

namespace DocGraph

namespace Keyed

variable {α : Type} (name : α → String)

theorem find_put (key : String) (item : α) (items : List α) :
    find? name key (put name item items) = if name item = key then some item else find? name key items := by
  induction items with
  | nil => by_cases hit : name item = key <;> simp [put, find?, hit]
  | cons held rest ih =>
      unfold find? at ih ⊢
      by_cases same : name held = name item
      · rw [put, if_pos same]
        by_cases hit : name item = key <;> simp [same, hit]
      · rw [put, if_neg same]
        by_cases hit : name held = key
        · have missed : ¬ name item = key := fun other => same (hit.trans other.symm)
          simp [hit, missed]
        · simp [hit, ih]

theorem find_fold (key : String) (items held : List α) :
    find? name key (items.foldl (fun held item => put name item held) held) =
      (items.reverse.find? (fun item => name item == key)).or (find? name key held) := by
  induction items generalizing held with
  | nil => simp
  | cons item rest ih =>
      rw [List.foldl_cons, ih, find_put, List.reverse_cons, List.find?_append, Option.or_assoc]
      by_cases hit : name item = key <;> simp [hit]

theorem find_collect (key : String) (items : List α) :
    find? name key (collect name items) = items.reverse.find? (fun item => name item == key) := by
  rw [collect, find_fold]
  simp [find?]

theorem mem_of_mem_put (item other : α) (items : List α) (member : other ∈ put name item items) :
    other = item ∨ other ∈ items := by
  induction items with
  | nil => exact .inl (List.mem_singleton.mp member)
  | cons held rest ih =>
      rw [put] at member
      split at member
      · rcases List.mem_cons.mp member with same | later
        · exact .inl same
        · exact .inr (List.mem_cons_of_mem held later)
      · rcases List.mem_cons.mp member with same | later
        · exact .inr (same ▸ List.mem_cons_self ..)
        · exact (ih later).imp id (List.mem_cons_of_mem held)

theorem mem_of_mem_collect (item : α) (items : List α) (member : item ∈ collect name items) : item ∈ items := by
  have fold (held : List α) (inside : item ∈ items.foldl (fun held item => put name item held) held) :
      item ∈ items ∨ item ∈ held := by
    clear member
    induction items generalizing held with
    | nil => exact .inr inside
    | cons head rest ih =>
        rcases ih (put name head held) inside with later | earlier
        · exact .inl (List.mem_cons_of_mem head later)
        · rcases mem_of_mem_put name head item held earlier with same | old
          · exact .inl (same ▸ List.mem_cons_self ..)
          · exact .inr old
  exact (fold [] member).elim id (absurd · List.not_mem_nil)

theorem put_not_nil (item : α) (items : List α) : put name item items ≠ [] := by
  cases items with
  | nil => exact List.cons_ne_nil _ _
  | cons held rest =>
      rw [put]
      split <;> exact List.cons_ne_nil _ _

theorem collect_nil_iff (items : List α) : collect name items = [] ↔ items = [] := by
  have kept (rest held : List α) (some : held ≠ []) : rest.foldl (fun held item => put name item held) held ≠ [] := by
    induction rest generalizing held with
    | nil => exact some
    | cons item rest ih => exact ih _ (put_not_nil name item held)
  cases items with
  | nil => exact ⟨fun _ => rfl, fun _ => rfl⟩
  | cons item rest =>
      have filled : collect name (item :: rest) ≠ [] := kept rest [item] (List.cons_ne_nil _ _)
      exact iff_of_false filled (List.cons_ne_nil _ _)

theorem put_absent (item : α) (items : List α) (absent : name item ∉ items.map name) :
    put name item items = items ++ [item] := by
  induction items with
  | nil => rfl
  | cons held rest ih =>
      obtain ⟨other, later⟩ := not_or.mp (mt List.mem_cons.mpr absent)
      rw [put, if_neg (Ne.symm other), ih later, List.cons_append]

theorem collect_distinct (items : List α) (distinct : (items.map name).Nodup) : collect name items = items := by
  have fold (rest held : List α) (apart : ((held ++ rest).map name).Nodup) :
      rest.foldl (fun held item => put name item held) held = held ++ rest := by
    induction rest generalizing held with
    | nil => exact (List.append_nil held).symm
    | cons item rest ih =>
        have absent : name item ∉ held.map name := by
          rw [List.map_append, List.nodup_append] at apart
          exact fun member => apart.2.2 _ member _ (List.mem_cons_self ..) rfl
        rw [List.foldl_cons, put_absent name item held absent, ih _ (by simpa using apart)]
        simp
  exact fold items [] distinct

end Keyed

theorem InputObject.make_field_mem (name : String) (description : Option String) (fields : List InputValue)
    (key : String) (input : InputValue) (found : (make name description fields).field? key = some input) :
    input ∈ fields ∧ input.name = key := by
  unfold field? make at found
  rw [Keyed.find_collect] at found
  exact ⟨List.mem_reverse.mp (List.mem_of_find?_eq_some found), by simpa using List.find?_some found⟩

namespace Registry

theorem lookup_place (key name : String) (type : InputType) (entries : List (String × InputType)) :
    lookup? ⟨place key type entries⟩ name = if key = name then some type else lookup? ⟨entries⟩ name := by
  unfold lookup?
  induction entries with
  | nil => by_cases hit : key = name <;> simp [place, hit]
  | cons entry rest ih =>
      rcases entry with ⟨held, old⟩
      by_cases before : key < held
      · rw [place, if_pos before]
        by_cases hit : key = name <;> simp [hit]
      · by_cases same : key = held
        · rw [place, if_neg before, if_pos same]
          by_cases hit : key = name
          · simp [hit]
          · have missed : ¬ held = name := fun other => hit (same.trans other)
            simp [hit, missed]
        · rw [place, if_neg before, if_neg same]
          by_cases hit : held = name
          · have missed : ¬ key = name := fun other => same (other.trans hit.symm)
            simp [hit, missed]
          · simpa [hit] using ih

theorem lookup_insert (registry : Registry) (key name : String) (type : InputType) :
    (registry.insert key type).lookup? name = if key = name then some type else registry.lookup? name :=
  lookup_place key name type registry.entries

theorem contains_iff (registry : Registry) (key : String) :
    registry.contains key = true ↔ ∃ type, registry.lookup? key = some type := Option.isSome_iff_exists

theorem contains_insert (registry : Registry) (key name : String) (type : InputType) :
    (registry.insert key type).contains name = (key == name || registry.contains name) := by
  rw [contains, lookup_insert]
  by_cases hit : key = name <;> simp [hit, contains]

def Sorted (registry : Registry) : Prop := registry.keys.Pairwise (· < ·)

theorem keys_place (key : String) (type : InputType) (entries : List (String × InputType)) (held : String)
    (member : held ∈ (place key type entries).map Prod.fst) : held = key ∨ held ∈ entries.map Prod.fst := by
  induction entries with
  | nil => exact .inl (List.mem_singleton.mp member)
  | cons entry rest ih =>
      rcases entry with ⟨other, old⟩
      by_cases before : key < other
      · rw [place, if_pos before] at member
        exact List.mem_cons.mp member
      · by_cases same : key = other
        · rw [place, if_neg before, if_pos same] at member
          exact (List.mem_cons.mp member).imp id (List.mem_cons_of_mem other)
        · rw [place, if_neg before, if_neg same] at member
          rcases List.mem_cons.mp member with first | later
          · exact .inr (first ▸ List.mem_cons_self ..)
          · exact (ih later).imp id (List.mem_cons_of_mem other)

theorem sorted_place (key : String) (type : InputType) (entries : List (String × InputType))
    (sorted : (entries.map Prod.fst).Pairwise (· < ·)) :
    ((place key type entries).map Prod.fst).Pairwise (· < ·) := by
  induction entries with
  | nil => exact List.pairwise_singleton _ _
  | cons entry rest ih =>
      rcases entry with ⟨other, old⟩
      obtain ⟨above, behind⟩ := List.pairwise_cons.mp sorted
      by_cases before : key < other
      · rw [place, if_pos before]
        refine List.pairwise_cons.mpr ⟨fun held member => ?_, sorted⟩
        rcases List.mem_cons.mp member with first | later
        · exact first ▸ before
        · exact String.lt_trans before (above held later)
      · by_cases same : key = other
        · rw [place, if_neg before, if_pos same]
          exact List.pairwise_cons.mpr ⟨same ▸ above, behind⟩
        · rw [place, if_neg before, if_neg same]
          refine List.pairwise_cons.mpr ⟨fun held member => ?_, ih behind⟩
          rcases keys_place key type rest held member with placed | later
          · exact placed ▸ Std.lt_of_le_of_ne (String.not_lt.mp before) (Ne.symm same)
          · exact above held later

theorem sorted_insert (registry : Registry) (key : String) (type : InputType) (sorted : registry.Sorted) :
    (registry.insert key type).Sorted := sorted_place key type registry.entries sorted

theorem lookup_of_mem (registry : Registry) (sorted : registry.Sorted) (entry : String × InputType)
    (member : entry ∈ registry.entries) : registry.lookup? entry.1 = some entry.2 := by
  rcases registry with ⟨entries⟩
  unfold Sorted keys at sorted
  unfold lookup?
  simp only at sorted member ⊢
  induction entries with
  | nil => cases member
  | cons head rest ih =>
      obtain ⟨above, behind⟩ := List.pairwise_cons.mp sorted
      rcases List.mem_cons.mp member with rfl | later
      · simp
      · have lower := above entry.1 (List.mem_map_of_mem later)
        have other : ¬ head.1 = entry.1 := fun same => String.lt_irrefl entry.1 (same ▸ lower)
        rw [List.find?_cons_of_neg (by simpa using other)]
        exact ih behind later

theorem mem_of_lookup (registry : Registry) (key : String) (type : InputType)
    (found : registry.lookup? key = some type) : (key, type) ∈ registry.entries := by
  obtain ⟨entry, hit, same⟩ := Option.map_eq_some_iff.mp found
  have named : entry.1 = key := by simpa using List.find?_some hit
  rw [← named, ← same]
  exact List.mem_of_find?_eq_some hit

theorem eq_of_lookup (registry other : Registry) (sorted : registry.Sorted) (ordered : other.Sorted)
    (same : ∀ key, registry.lookup? key = other.lookup? key) : registry = other := by
  have strict (held : Registry) (rising : held.Sorted) : held.entries.Pairwise (fun a b => a.1 < b.1) :=
    List.pairwise_map.mp rising
  have included (a b : Registry) (rising : a.Sorted) (agree : ∀ key, a.lookup? key = b.lookup? key) :
      a.entries ⊆ b.entries := by
    intro entry member
    exact mem_of_lookup b entry.1 entry.2 (agree entry.1 ▸ lookup_of_mem a rising entry member)
  have apart (held : Registry) (rising : held.Sorted) : held.entries.Nodup := by
    refine (strict held rising).imp ?_
    rintro a _ before rfl
    exact String.lt_irrefl _ before
  have perm : registry.entries.Perm other.entries :=
    (List.perm_ext_iff_of_nodup (apart registry sorted) (apart other ordered)).mpr (fun entry =>
      ⟨fun member => included registry other sorted same member,
        fun member => included other registry ordered (fun key => (same key).symm) member⟩)
  have equal := perm.eq_of_pairwise (fun a b _ _ before after => absurd (String.lt_trans before after) (String.lt_irrefl _))
    (strict registry sorted) (strict other ordered)
  exact congrArg Registry.mk equal

theorem resolves_mono (before after : Registry) (scalars : List String) (name : String)
    (kept : ∀ key, before.contains key = true → after.contains key = true)
    (resolved : before.resolves scalars name = true) : after.resolves scalars name = true := by
  simp only [resolves, Bool.or_eq_true] at resolved ⊢
  exact resolved.imp (Or.imp_left (kept name)) id

structure Closed (registry : Registry) (scalars : List String) : Prop where
  resolved : registry.dangling scalars = []
  named : ∀ entry ∈ registry.entries, entry.2.name = entry.1

theorem not_dangling (registry : Registry) (scalars : List String)
    (resolved : ∀ key object, (key, InputType.object object) ∈ registry.entries → ∀ field ∈ object.fields,
      registry.resolves scalars field.type.named = true) : registry.dangling scalars = [] := by
  refine List.flatMap_eq_nil_iff.mpr (fun object member => ?_)
  obtain ⟨⟨key, type⟩, listed, same⟩ := List.mem_filterMap.mp member
  cases type with
  | enum type => cases same
  | object held =>
      cases same
      rw [List.map_eq_nil_iff, List.filter_eq_nil_iff]
      intro field given
      simp [resolved key object listed field given]

end Registry

end DocGraph
