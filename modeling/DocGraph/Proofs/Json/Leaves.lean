import DocGraph.Proofs.DotPath
import DocGraph.Proofs.Json.Members

set_option autoImplicit false

namespace DocGraph.Json

def isLeaf : Json → Bool
  | .null | .obj _ => false
  | _ => true

mutual
def valueLeaves (skipped : String) : Json → List (List String × Json)
  | .null => []
  | .obj object => memberLeaves skipped object
  | value => [([], value)]
termination_by structural value => value
def memberLeaves (skipped : String) : Members → List (List String × Json)
  | [] => []
  | (key, value) :: rest =>
      (if key = skipped then [] else (valueLeaves skipped value).map (fun leaf => (key :: leaf.1, leaf.2)))
        ++ memberLeaves skipped rest
termination_by structural object => object
end

-- The keys lead to the leaf, and none of them is the one that is left out.
inductive LeafAt (skipped : String) : Members → List String → Json → Prop where
  | here (object : Members) (key : String) (value : Json) (given : (key, value) ∈ object) (other : key ≠ skipped)
      (leaf : value.isLeaf = true) : LeafAt skipped object [key] value
  | deeper (object inner : Members) (key : String) (rest : List String) (value : Json) (given : (key, .obj inner) ∈ object)
      (other : key ≠ skipped) (later : LeafAt skipped inner rest value) : LeafAt skipped object (key :: rest) value

variable (skipped : String)

theorem value_leaves (value : Json) (leaf : value.isLeaf = true) : valueLeaves skipped value = [([], value)] := by
  cases value with
  | null | obj => cases leaf
  | _ => rfl

theorem member_leaves_mem (object : Members) (keys : List String) (value : Json) :
    (keys, value) ∈ memberLeaves skipped object ↔ ∃ key held rest, (key, held) ∈ object ∧ key ≠ skipped ∧
      (rest, value) ∈ valueLeaves skipped held ∧ keys = key :: rest := by
  induction object with
  | nil => simp [memberLeaves]
  | cons entry others ih =>
      rcases entry with ⟨name, content⟩
      rw [memberLeaves, List.mem_append, ih]
      constructor
      · rintro (mine | ⟨key, held, rest, given, theirs⟩)
        · by_cases left : name = skipped
          · rw [if_pos left] at mine
            cases mine
          · rw [if_neg left] at mine
            obtain ⟨⟨rest, _⟩, inside, same⟩ := List.mem_map.mp mine
            cases same
            exact ⟨name, content, rest, List.mem_cons_self .., left, inside, rfl⟩
        · exact ⟨key, held, rest, List.mem_cons_of_mem _ given, theirs⟩
      · rintro ⟨key, held, rest, given, other, inside, rfl⟩
        rcases List.mem_cons.mp given with same | later
        · cases same
          rw [if_neg other]
          exact .inl (List.mem_map.mpr ⟨(rest, value), inside, rfl⟩)
        · exact .inr ⟨key, held, rest, later, other, inside, rfl⟩

theorem mem_leaves (object : Members) (keys : List String) (value : Json) :
    (keys, value) ∈ memberLeaves skipped object ↔ LeafAt skipped object keys value := by
  constructor
  · intro member
    induction keys generalizing object with
    | nil =>
        obtain ⟨_, _, _, _, _, _, same⟩ := (member_leaves_mem skipped object _ value).mp member
        cases same
    | cons first others ih =>
        obtain ⟨key, held, rest, given, other, inside, same⟩ := (member_leaves_mem skipped object _ value).mp member
        cases same
        cases held with
        | null => cases inside
        | obj inner => exact .deeper object inner first others value given other (ih inner inside)
        | _ =>
            cases List.mem_singleton.mp inside
            exact .here object first _ given other rfl
  · intro position
    refine (member_leaves_mem skipped object keys value).mpr ?_
    induction position with
    | here object key value given other leaf =>
        exact ⟨key, value, [], given, other, value_leaves skipped value leaf ▸ List.mem_singleton.mpr rfl, rfl⟩
    | deeper object inner key rest value given other _ ih =>
        exact ⟨key, .obj inner, rest, given, other, (member_leaves_mem skipped inner rest value).mpr ih, rfl⟩

theorem leaf_keys (property : String → Prop) (object : Members) (keys : List String) (value : Json)
    (held : ∀ inner, ObjectIn (.obj object) inner → ∀ key ∈ Members.keys inner, property key)
    (position : LeafAt skipped object keys value) : ∀ key ∈ keys, property key := by
  induction position with
  | here object key value given =>
      intro other single
      cases List.mem_singleton.mp single
      exact held object (.self object) key (Members.mem_keys_of_mem key value object given)
  | deeper object inner key rest value given _ _ ih =>
      intro other member
      rcases List.mem_cons.mp member with rfl | later
      · exact held object (.self object) other (Members.mem_keys_of_mem other _ object given)
      · exact ih (fun deeper inside => held deeper (.member key _ object deeper given inside)) other later

def Apart (leaves : List (List String × Json)) : Prop := leaves.Pairwise (fun a b => ¬ DotPath.Along a.1 b.1)

mutual
theorem value_leaves_apart (value : Json) (unique : UniqueKeys value) : Apart (valueLeaves skipped value) := by
  cases value with
  | null => exact .nil
  | obj object => exact member_leaves_apart object unique.1 unique.2
  | _ => exact List.pairwise_singleton _ _
termination_by structural value
theorem member_leaves_apart (object : Members) (different : (Members.keys object).Nodup) (unique : MembersUnique object) :
    Apart (memberLeaves skipped object) := by
  cases object with
  | nil => exact .nil
  | cons entry rest =>
      rcases entry with ⟨key, value⟩
      have parts := List.nodup_cons.mp different
      refine List.pairwise_append.mpr ⟨?_, member_leaves_apart rest parts.2 unique.2, ?_⟩
      · split
        · exact .nil
        · refine List.pairwise_map.mpr ((value_leaves_apart value unique.1).imp ?_)
          intro a b clear along
          exact clear ((DotPath.along_cons key key a.1 b.1).mp along).2
      · -- A leaf of the first member and one of a later member differ in their first keys.
        intro a mine b theirs along
        split at mine
        · cases mine
        · obtain ⟨leaf, _, rfl⟩ := List.mem_map.mp mine
          obtain ⟨name, held, others, given, _, _, cut⟩ := (member_leaves_mem skipped rest b.1 b.2).mp theirs
          rw [cut, DotPath.along_cons] at along
          exact parts.1 (along.1 ▸ Members.mem_keys_of_mem name held rest given)
termination_by structural object
end

end DocGraph.Json
