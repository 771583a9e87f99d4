import DocGraph.Update.Completeness
import Mathlib.Data.List.Basic

set_option autoImplicit false

namespace DocGraph

namespace FieldType

-- Whether a value has no null where its type forbids one. What is not an array counts as an array of itself.
def Admits : FieldType → Json → Prop
  | .named _, _ => True
  | .nonNull of, value => value ≠ .null ∧ of.Admits value
  | .list _, .null => True
  | .list of, .arr elements => ∀ element ∈ elements, of.Admits element
  | .list of, value => of.Admits value

-- What stands in a value inside the lists of its type, and the indices that lead there. Each list opens one array, for which a
-- value that is not an array stands itself, and has no nulls.
inductive Opens : FieldType → Json → List Nat → Json → Prop where
  | named (type : NamedType) (value : Json) : Opens (.named type) value [] value
  | nonNull (of : FieldType) (value : Json) (place : List Nat) (found : Json) (further : Opens of value place found) :
      Opens (.nonNull of) value place found
  | element (of : FieldType) (elements : List Json) (index : Nat) (element : Json) (place : List Nat) (found : Json)
      (listed : elements[index]? = some element) (given : element ≠ .null) (further : Opens of element place found) :
      Opens (.list of) (.arr elements) (index :: place) found
  | itself (of : FieldType) (value : Json) (place : List Nat) (found : Json) (single : ∀ elements, value ≠ .arr elements)
      (given : value ≠ .null) (further : Opens of value place found) : Opens (.list of) value place found

end FieldType

namespace Update

theorem open_arrays_each (values : List Json) : openArrays values = values.flatMap (fun value => openArrays [value]) := by
  simp [openArrays]

theorem admits_list (of : FieldType) (value : Json) :
    (FieldType.list of).Admits value ↔ ∀ element ∈ openArrays [value], of.Admits element := by
  cases value <;> simp [FieldType.Admits, openArrays]

theorem null_iff (value : Json) : value.isNull = true ↔ value = .null := by
  cases value <;> simp [Json.isNull]

theorem respects_iff (type : FieldType) (values : List Json) :
    respectsElements type values = true ↔ ∀ value ∈ values, type.Admits value := by
  induction type generalizing values with
  | named type => exact ⟨fun _ _ _ => trivial, fun _ => rfl⟩
  | list of ih =>
      rw [respectsElements, ih, open_arrays_each]
      simp only [List.forall_mem_flatMap, admits_list]
  | nonNull of ih =>
      rw [respectsElements, Bool.and_eq_true, ih, Bool.not_eq_true', List.any_eq_false]
      simp only [null_iff, ← forall₂_and]
      exact Iff.rfl

def under (each : Json → List (List Nat × Json)) : Nat → List Json → List (List Nat × Json)
  | _, [] => []
  | index, item :: rest => (each item).map (fun entry => (index :: entry.1, entry.2)) ++ under each (index + 1) rest

def located : FieldType → Json → List (List Nat × Json)
  | .named _, value => [([], value)]
  | .nonNull of, value => located of value
  | .list _, .null => []
  | .list of, .arr elements => under (fun element => if element.isNull then [] else located of element) 0 elements
  | .list of, value => located of value

section

variable (each : Json → List (List Nat × Json))

theorem under_found (items : List Json) (start : Nat) :
    (under each start items).map Prod.snd = items.flatMap (fun item => (each item).map Prod.snd) := by
  induction items generalizing start with
  | nil => rfl
  | cons item rest ih => simp [under, ih]

theorem mem_under (items : List Json) (start : Nat) (place : List Nat) (found : Json) :
    (place, found) ∈ under each start items ↔
      ∃ index rest item, place = (start + index) :: rest ∧ items[index]? = some item ∧ (rest, found) ∈ each item := by
  induction items generalizing start with
  | nil => simp [under]
  | cons item rest ih =>
      rw [under, List.mem_append, ih]
      constructor
      · rintro (mine | ⟨index, inner, other, rfl, listed, inside⟩)
        · obtain ⟨⟨inner, _⟩, inside, same⟩ := List.mem_map.mp mine
          cases same
          exact ⟨0, inner, item, rfl, rfl, inside⟩
        · exact ⟨index + 1, inner, other, by rw [Nat.add_right_comm, Nat.add_assoc], listed, inside⟩
      · rintro ⟨index, inner, other, rfl, listed, inside⟩
        cases index with
        | zero =>
            cases Option.some.inj listed
            exact .inl (List.mem_map.mpr ⟨_, inside, rfl⟩)
        | succ index => exact .inr ⟨index, inner, other, by rw [Nat.add_right_comm, Nat.add_assoc], listed, inside⟩

theorem under_ordered (items : List Json) (start : Nat)
    (ordered : ∀ item ∈ items, ((each item).map Prod.fst).Pairwise (List.Lex (· < ·))) :
    ((under each start items).map Prod.fst).Pairwise (List.Lex (· < ·)) := by
  induction items generalizing start with
  | nil => exact .nil
  | cons item rest ih =>
      obtain ⟨here, others⟩ := List.forall_mem_cons.mp ordered
      rw [under, List.map_append, List.pairwise_append]
      refine ⟨?_, ih (start + 1) others, ?_⟩
      · rw [List.map_map]
        rw [List.pairwise_map] at here ⊢
        exact here.imp List.Lex.cons
      · intro place mine other theirs
        obtain ⟨_, first, rfl⟩ := List.mem_map.mp mine
        obtain ⟨_, _, rfl⟩ := List.mem_map.mp first
        obtain ⟨⟨_, found⟩, later, rfl⟩ := List.mem_map.mp theirs
        obtain ⟨index, inner, _, rfl, _⟩ := (mem_under each rest (start + 1) _ found).mp later
        exact .rel (by omega)

end

theorem located_ordered (type : FieldType) (value : Json) :
    ((located type value).map Prod.fst).Pairwise (List.Lex (· < ·)) := by
  induction type generalizing value with
  | named type => exact List.pairwise_singleton _ _
  | nonNull of ih => exact ih value
  | list of ih =>
      cases value with
      | null => exact .nil
      | arr elements =>
          refine under_ordered _ elements 0 (fun element _ => ?_)
          split
          · exact .nil
          · exact ih element
      | _ => exact ih _

theorem mem_located (type : FieldType) (value : Json) (place : List Nat) (found : Json) :
    (place, found) ∈ located type value ↔ type.Opens value place found := by
  induction type generalizing value place with
  | named type =>
      constructor
      · intro member
        cases List.mem_singleton.mp member
        exact .named type _
      · rintro ⟨⟩
        exact List.mem_singleton.mpr rfl
  | nonNull of ih =>
      refine (ih value place).trans ⟨.nonNull of value place found, ?_⟩
      rintro ⟨⟩
      assumption
  | list of ih =>
      -- A value that is neither null nor an array is found itself.
      have alone (single : ∀ elements, value ≠ .arr elements) (given : value ≠ .null) :
          (place, found) ∈ located of value ↔ (FieldType.list of).Opens value place found := by
        refine (ih value place).trans ⟨.itself of value place found single given, fun opens => ?_⟩
        cases opens with
        | element _ elements => exact absurd rfl (single elements)
        | itself _ _ _ _ _ _ further => exact further
      cases value with
      | null =>
          refine ⟨fun none => absurd none List.not_mem_nil, fun opens => ?_⟩
          cases opens with
          | itself _ _ _ _ _ given _ => exact absurd rfl given
      | arr elements =>
          have among (element : Json) (rest : List Nat) :
              (rest, found) ∈ (if element.isNull then [] else located of element) ↔
                element ≠ .null ∧ of.Opens element rest found := by
            by_cases null : element.isNull = true
            · simp [(null_iff element).mp null, Json.isNull]
            · rw [if_neg null, ih]
              exact ⟨fun opens => ⟨mt (null_iff element).mpr null, opens⟩, And.right⟩
          simp only [located, mem_under, Nat.zero_add, among]
          constructor
          · rintro ⟨index, rest, element, rfl, listed, given, further⟩
            exact .element of elements index element rest found listed given further
          · intro opens
            cases opens with
            | element _ _ index element rest _ listed given further => exact ⟨index, rest, element, rfl, listed, given, further⟩
            | itself _ _ _ _ single => exact absurd rfl (single elements)
      | _ => exact alone nofun nofun

theorem flat_map_given {α : Type} (elements : List Json) (f : Json → List α) :
    (elements.filter (fun element => !element.isNull)).flatMap f =
      elements.flatMap (fun element => if element.isNull then [] else f element) := by
  induction elements with
  | nil => rfl
  | cons element rest ih => by_cases null : element.isNull = true <;> simp [null, ih]

theorem innermost_found (type : FieldType) (values : List Json) :
    innermostElements type values = values.flatMap (fun value => (located type value).map Prod.snd) := by
  induction type generalizing values with
  | named type => exact (List.flatMap_singleton' values).symm
  | nonNull of ih => exact ih values
  | list of ih =>
      rw [innermostElements, ih, open_arrays_each, List.filter_flatMap, List.flatMap_assoc]
      refine List.flatMap_congr (fun value _ => ?_)
      cases value with
      | null => rfl
      | arr elements =>
          have opened : openArrays [.arr elements] = elements := List.append_nil elements
          rw [located, under_found, opened, flat_map_given]
          refine List.flatMap_congr (fun element _ => ?_)
          split <;> rfl
      | _ => simp [openArrays, Json.isNull, located]

theorem elements_found (type : FieldType) (values : List Json) :
    (respectsElements type values = true ↔ ∀ value ∈ values, type.Admits value) ∧
    ∃ elements : List (List Nat × Json), innermostElements type values = elements.map Prod.snd ∧
      (elements.map Prod.fst).Pairwise (List.Lex (· < ·)) ∧
      ∀ place found, (place, found) ∈ elements ↔
        ∃ index rest value, place = index :: rest ∧ values[index]? = some value ∧ type.Opens value rest found := by
  refine ⟨respects_iff type values, under (located type) 0 values, ?_, ?_, ?_⟩
  · rw [under_found, innermost_found]
  · exact under_ordered (located type) values 0 (fun value _ => located_ordered type value)
  · simp only [mem_under, mem_located, Nat.zero_add, implies_true]

example : innermostElements (.list (.list (.scalar .int))) [.arr [.arr [Json.int 1, .null], .null, Json.int 2]] =
    [Json.int 1, Json.int 2] := rfl

end Update

end DocGraph
