import DocGraph.Proofs.Json.Leaves
import DocGraph.Proofs.Update.Cascade
import DocGraph.SortOrder

set_option autoImplicit false

namespace DocGraph

open DocGraph.Update (joinMembers)

def readDirection : Json → Option Json
  | .num (.int value) => if value = 1 ∨ value = -1 then some (Json.int value) else none
  | .str text => if text = "ASC" then some (Json.int 1) else if text = "DESC" then some (Json.int (-1)) else none
  | _ => none

def readNumber : Json → Option Json
  | .num number => some (.num number)
  | _ => none

inductive FlatArgument where
  | sort
  | inc
deriving DecidableEq, Repr

namespace FlatArgument

def placeholder : FlatArgument → String
  | sort => SortOrder.placeholder
  | inc => Update.incPlaceholder

def read : FlatArgument → Json → Option Json
  | sort => readDirection
  | inc => readNumber

def entries : FlatArgument → String → Json → Except Error Members
  | sort => SortOrder.valueEntries
  | inc => Update.incValue

def document : FlatArgument → Members → Except Error Members
  | sort, object => SortOrder.document (some (.obj object))
  | inc, object => Update.incDocument object

def leaves (argument : FlatArgument) (object : Members) : List (List String × Json) :=
  Json.memberLeaves argument.placeholder object

def written (argument : FlatArgument) (path : String) (leaf : List String × Json) : Option (String × Json) :=
  (argument.read leaf.2).map (fun value => (leaf.1.foldl DotPath.under path, value))

inductive ReadFrom (argument : FlatArgument) (path : String) :
    List (List String × Json) → Except Error Members → Prop where
  | all (leaves : List (List String × Json)) (document : Members)
      (each : leaves.map (argument.written path) = document.map some) : ReadFrom argument path leaves (.ok document)
  | refused (before after : List (List String × Json)) (leaf : List String × Json) (fault : Fault)
      (readable : ∀ earlier ∈ before, (argument.read earlier.2).isSome = true) (unreadable : argument.read leaf.2 = none) :
      ReadFrom argument path (before ++ leaf :: after) (.error (.invalidArgument (leaf.1.foldl DotPath.under path) fault))

end FlatArgument

section

open FlatArgument (ReadFrom)

theorem read_direction (path : String) (value : Json) (leaf : value.isLeaf = true) :
    ReadFrom .sort path [([], value)] (SortOrder.valueEntries path value) := by
  have refused (fault : Fault) (unreadable : readDirection value = none)
      (fails : SortOrder.direction path value = .error (.invalidArgument path fault)) :
      ReadFrom .sort path [([], value)] (SortOrder.valueEntries path value) := by
    have result : SortOrder.valueEntries path value = .error (.invalidArgument path fault) := by
      cases value with
      | null | obj => cases leaf
      | _ => rw [SortOrder.valueEntries, fails] <;> first | rfl | nofun
    rw [result]
    exact .refused [] [] ([], value) fault nofun unreadable
  cases value with
  | null | obj => cases leaf
  | bool value => exact refused .sortValue rfl rfl
  | arr elements => exact refused .sortValue rfl rfl
  | num number =>
      cases number with
      | double value => exact refused .directionNumber rfl rfl
      | int value =>
          by_cases up : value = 1
          · subst up
            exact .all _ [(path, Json.int 1)] rfl
          · by_cases down : value = -1
            · subst down
              exact .all _ [(path, Json.int (-1))] rfl
            · refine refused .directionNumber (by simp [readDirection, up, down]) ?_
              simp [SortOrder.direction, Direction.ofValue?, Direction.all, Direction.value, Ne.symm up, Ne.symm down]
  | str text =>
      by_cases up : text = "ASC"
      · subst up
        exact .all _ [(path, Json.int 1)] rfl
      · by_cases down : text = "DESC"
        · subst down
          exact .all _ [(path, Json.int (-1))] rfl
        · refine refused (.unknownDirection text) (by simp [readDirection, up, down]) ?_
          simp [SortOrder.direction, Direction.ofWord?, Direction.all, Direction.word, Ne.symm up, Ne.symm down]

theorem read_number (path : String) (value : Json) (leaf : value.isLeaf = true) :
    ReadFrom .inc path [([], value)] (Update.incValue path value) := by
  cases value with
  | null | obj => cases leaf
  | num number => exact .all _ [(path, .num number)] rfl
  | _ => exact .refused [] [] _ .incrementNotNumber nofun rfl

end

namespace FlatArgument

theorem sort_members_joined (path : String) (object : Members) : SortOrder.entries path object =
    joinMembers SortOrder.placeholder (fun key value => SortOrder.valueEntries (DotPath.under path key) value) object := by
  induction object with
  | nil => rfl
  | cons entry rest ih => rw [SortOrder.entries, joinMembers, ih]

variable (argument : FlatArgument)

theorem entries_null (path : String) : argument.entries path .null = .ok [] := by
  cases argument <;> rfl

theorem entries_object (path : String) (object : Members) : argument.entries path (.obj object) =
    joinMembers argument.placeholder (fun key value => argument.entries (DotPath.under path key) value) object := by
  cases argument with
  | sort => exact sort_members_joined path object
  | inc => exact Update.inc_members_joined path object

theorem read_leaf (path : String) (value : Json) (leaf : value.isLeaf = true) :
    ReadFrom argument path [([], value)] (argument.entries path value) := by
  cases argument with
  | sort => exact read_direction path value leaf
  | inc => exact read_number path value leaf

variable {argument}

theorem readable_of_written (path : String) (leaves : List (List String × Json)) (document : Members)
    (each : leaves.map (argument.written path) = document.map some) :
    ∀ leaf ∈ leaves, (argument.read leaf.2).isSome = true := by
  intro leaf member
  have listed : argument.written path leaf ∈ document.map some := each ▸ List.mem_map_of_mem member
  obtain ⟨entry, _, same⟩ := List.mem_map.mp listed
  cases reads : argument.read leaf.2 with
  | some value => rfl
  | none =>
      rw [written, reads] at same
      cases same

theorem read_append (path : String) (front back : List (List String × Json)) (first others : Except Error Members)
    (here : ReadFrom argument path front first) (later : ReadFrom argument path back others) :
    ReadFrom argument path (front ++ back) (do return (← first) ++ (← others)) := by
  cases here with
  | refused before after leaf fault readable unreadable =>
      rw [List.append_assoc]
      exact .refused before (after ++ back) leaf fault readable unreadable
  | all _ document each =>
      cases later with
      | all _ more rest => exact .all _ (document ++ more) (by rw [List.map_append, List.map_append, each, rest])
      | refused before after leaf fault readable unreadable =>
          rw [← List.append_assoc]
          refine .refused (front ++ before) after leaf fault ?_ unreadable
          intro earlier member
          rcases List.mem_append.mp member with mine | theirs
          · exact readable_of_written path front document each earlier mine
          · exact readable earlier theirs

theorem read_below (path key : String) (leaves : List (List String × Json)) (result : Except Error Members)
    (inside : ReadFrom argument (DotPath.under path key) leaves result) :
    ReadFrom argument path (leaves.map (fun leaf => (key :: leaf.1, leaf.2))) result := by
  cases inside with
  | all _ document each =>
      refine .all _ document ?_
      rw [List.map_map, ← each]
      rfl
  | refused before after leaf fault readable unreadable =>
      rw [List.map_append, List.map_cons]
      refine .refused _ _ (key :: leaf.1, leaf.2) fault ?_ unreadable
      intro earlier member
      obtain ⟨other, listed, rfl⟩ := List.mem_map.mp member
      exact readable other listed

mutual
theorem read_value (value : Json) (path : String) :
    ReadFrom argument path (Json.valueLeaves argument.placeholder value) (argument.entries path value) := by
  cases value with
  | null =>
      rw [entries_null]
      exact .all [] [] rfl
  | obj object =>
      rw [entries_object]
      exact read_members object path
  | _ => exact read_leaf argument path _ rfl
termination_by structural value
theorem read_members (object : Members) (path : String) :
    ReadFrom argument path (Json.memberLeaves argument.placeholder object) (joinMembers argument.placeholder
      (fun key value => argument.entries (DotPath.under path key) value) object) := by
  cases object with
  | nil => exact .all [] [] rfl
  | cons entry rest =>
      rcases entry with ⟨key, value⟩
      rw [joinMembers, Json.memberLeaves]
      by_cases left : key = argument.placeholder
      · rw [if_pos left, if_pos left]
        exact read_append path [] _ (.ok []) _ (.all [] [] rfl) (read_members rest path)
      · rw [if_neg left, if_neg left]
        exact read_append path _ _ _ _ (read_below path key _ _ (read_value value (DotPath.under path key)))
          (read_members rest path)
termination_by structural object
end

theorem document_entries (object : Members) :
    argument.document object = Members.ofEntries <$> argument.entries "" (.obj object) := by
  cases argument <;> rfl

theorem document_written (path : String) (leaves : List (List String × Json)) (document : Members)
    (each : leaves.map (argument.written path) = document.map some) : document = leaves.filterMap (argument.written path) := by
  have mapped := congrArg (List.filterMap id) each
  simpa [List.filterMap_map, Function.comp_def] using mapped.symm

theorem written_segments (leaf : List String × Json) (entry : String × Json) (nonempty : leaf.1 ≠ [])
    (segments : ∀ key ∈ leaf.1, DotPath.IsSegment key) (wrote : argument.written "" leaf = some entry) :
    DotPath.segments entry.1 = leaf.1 := by
  obtain ⟨value, _, rfl⟩ := Option.map_eq_some_iff.mp wrote
  exact DotPath.segments_spelled _ leaf.1 (DotPath.spells_of_keys leaf.1 segments) nonempty

theorem written_apart (leaves : List (List String × Json)) (document : Members) (apart : Json.Apart leaves)
    (segments : ∀ leaf ∈ leaves, leaf.1 ≠ [] ∧ ∀ key ∈ leaf.1, DotPath.IsSegment key)
    (each : leaves.map (argument.written "") = document.map some) : (Members.keys document).Pairwise DotPath.Apart := by
  rw [document_written "" leaves document each, Members.keys, List.pairwise_map, List.pairwise_filterMap]
  refine apart.imp_of_mem ?_
  intro a b first second clear entry mine other theirs
  refine DotPath.apart_of_segments entry.1 other.1 ?_
  rw [written_segments a entry (segments a first).1 (segments a first).2 mine,
    written_segments b other (segments b second).1 (segments b second).2 theirs]
  exact clear

-- The document of an argument lists all leaves in order, under paths that lie apart, unless a leaf cannot be read. Then
-- the first such leaf is refused.
structure Flattened (argument : FlatArgument) (object : Members) : Prop where
  succeeds : (∃ document, argument.document object = .ok document) ↔
    ∀ leaf ∈ argument.leaves object, (argument.read leaf.2).isSome = true
  lists : ∀ document, argument.document object = .ok document →
    (argument.leaves object).map (argument.written "") = document.map some
  apart : ∀ document, argument.document object = .ok document → (Members.keys document).Pairwise DotPath.Apart
  refuses : ∀ error, argument.document object = .error error → ∃ before leaf after fault,
    argument.leaves object = before ++ leaf :: after ∧ (∀ earlier ∈ before, (argument.read earlier.2).isSome = true) ∧
      argument.read leaf.2 = none ∧ error = .invalidArgument (DotPath.ofKeys leaf.1) fault

def HasSegmentKeys (object : Members) : Prop :=
  ∀ inner, Json.ObjectIn (.obj object) inner → ∀ key ∈ Members.keys inner, DotPath.IsSegment key

theorem leaf_segments (object : Members) (keys : HasSegmentKeys object) :
    ∀ leaf ∈ argument.leaves object, leaf.1 ≠ [] ∧ ∀ key ∈ leaf.1, DotPath.IsSegment key := by
  rintro ⟨path, value⟩ member
  obtain ⟨_, _, _, _, _, _, same⟩ := (Json.member_leaves_mem argument.placeholder object path value).mp member
  refine ⟨same ▸ List.cons_ne_nil _ _, ?_⟩
  exact Json.leaf_keys argument.placeholder DotPath.IsSegment object path value keys
    ((Json.mem_leaves argument.placeholder object path value).mp member)

theorem read_cases (path : String) (leaves : List (List String × Json)) (result : Except Error Members)
    (reads : ReadFrom argument path leaves result) :
    (∃ document, result = .ok document ∧ leaves.map (argument.written path) = document.map some) ∨
      ∃ before leaf after fault, leaves = before ++ leaf :: after ∧
        (∀ earlier ∈ before, (argument.read earlier.2).isSome = true) ∧ argument.read leaf.2 = none ∧
        result = .error (.invalidArgument (leaf.1.foldl DotPath.under path) fault) := by
  cases reads with
  | all _ document each => exact .inl ⟨document, rfl, each⟩
  | refused before after leaf fault readable unreadable =>
      exact .inr ⟨before, leaf, after, fault, rfl, readable, unreadable, rfl⟩

variable (argument) in
theorem object_read (object : Members) :
    ReadFrom argument "" (argument.leaves object) (argument.entries "" (.obj object)) := read_value (.obj object) ""

theorem flattened (object : Members) (unique : Json.UniqueKeys (.obj object)) (keys : HasSegmentKeys object) :
    Flattened argument object := by
  rcases read_cases "" _ _ (object_read argument object) with
    ⟨entries, result, each⟩ | ⟨before, leaf, after, fault, split, readable, unreadable, result⟩
  · have apart := written_apart _ entries (Json.member_leaves_apart argument.placeholder object unique.1 unique.2)
      (leaf_segments object keys) each
    have made : argument.document object = .ok entries := by
      rw [document_entries, result]
      exact congrArg Except.ok (Members.of_entries_unique entries (Update.apart_nodup _ apart))
    constructor
    · exact ⟨fun _ => readable_of_written "" _ entries each, fun _ => ⟨entries, made⟩⟩
    · intro document same
      cases made.symm.trans same
      exact each
    · intro document same
      cases made.symm.trans same
      exact apart
    · intro error same
      cases made.symm.trans same
  · have made : argument.document object = .error (.invalidArgument (DotPath.ofKeys leaf.1) fault) := by
      rw [document_entries, result]
      rfl
    constructor
    · constructor
      · rintro ⟨document, same⟩
        cases made.symm.trans same
      · intro all
        have reads := all leaf (split ▸ List.mem_append_right before (List.mem_cons_self ..))
        rw [unreadable] at reads
        cases reads
    · intro document same
      cases made.symm.trans same
    · intro document same
      cases made.symm.trans same
    · intro error same
      cases made.symm.trans same
      exact ⟨before, leaf, after, fault, split, readable, unreadable, rfl⟩

example : document .sort [("size", .obj [("depth", .str "DESC"), ("width", Json.int 2)]), ("label", .bool true)] =
    .error (.invalidArgument "size.width" .directionNumber) := rfl

end FlatArgument

end DocGraph
