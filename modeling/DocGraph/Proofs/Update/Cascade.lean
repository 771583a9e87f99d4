import DocGraph.Proofs.Json.Assignment
import DocGraph.Proofs.Update.SetEntries

set_option autoImplicit false

namespace DocGraph.Update

open Json (assignAll setField member?)

mutual
def PathKeys : Json → Prop
  | .obj object => isExtended object = true ∨ MembersPathKeys object
  | _ => True
termination_by structural value => value
def MembersPathKeys : Members → Prop
  | [] => True
  | (key, value) :: rest => DotPath.IsSegment key ∧ PathKeys value ∧ MembersPathKeys rest
termination_by structural object => object
end

mutual
def updatedField (mode : WriteMode) : Json → Option Json → Option Json
  | .obj object, held =>
      if isExtended object then some (.obj object)
      else if mode.replaces (Overwrite.flag? object) then some (.obj (unmarkedMembers object))
      else updatedMembers (WriteMode.passedOn false) object held
  | value, _ => some value
termination_by structural value => value
def updatedMembers (mode : WriteMode) : Members → Option Json → Option Json
  | [], held => held
  | (key, value) :: rest, held =>
      if key = Overwrite.marker then updatedMembers mode rest held
      else updatedMembers mode rest (setField key (updatedField mode value (held.bind (member? key))) held)
termination_by structural object => object
end

-- The update of a whole document. Its own flag decides only what its members inherit.
def updated (mode : WriteMode) (object : Members) (held : Option Json) : Option Json :=
  updatedMembers (WriteMode.passedOn (mode.replaces (Overwrite.flag? object))) object held

theorem updated_whole (mode : WriteMode) (value : Json) (held : Option Json) (whole : setWhole value = true) :
    updatedField mode value held = some value := by
  cases value with
  | obj object => exact if_pos whole
  | _ => rfl

mutual
theorem set_value_updates (mode : WriteMode) (path key : String) (value : Json) (entries : Members)
    (held : Option Json) (segment : DotPath.IsSegment key) (keys : PathKeys value) (unique : Json.UniqueKeys value)
    (written : setValue mode path key value = .ok entries) :
    assignAll entries held = setField key (updatedField mode value (held.bind (member? key))) held := by
  by_cases whole : setWhole value = true
  · rw [set_value_whole mode path key value whole] at written
    rw [← Except.ok.inj written, updated_whole mode value _ whole]
    exact Json.assign_all_segment key value held segment
  · cases value with
    | obj object =>
        have opened : ¬ isExtended object = true := whole
        have inside : MembersPathKeys object := keys.resolve_left whole
        rw [updatedField, if_neg opened]
        by_cases replaces : mode.replaces (Overwrite.flag? object) = true
        · rw [if_pos replaces,
            set_value_replaced mode path key object entries (Bool.eq_false_iff.mpr whole) unique replaces written]
          exact Json.assign_all_segment key _ held segment
        · obtain ⟨inner, compiled, joined⟩ :=
            set_value_object mode path key object entries (Bool.eq_false_iff.mpr whole) written
          rw [Bool.eq_false_iff.mpr replaces] at compiled
          rw [joined, nested, if_neg replaces, if_neg replaces, Json.assign_all_under key inner held segment,
            set_members_updates _ (DotPath.under path key) object inner _ inside unique.2 compiled]
    | _ => exact absurd rfl whole
termination_by structural value
theorem set_members_updates (mode : WriteMode) (path : String) (object entries : Members) (held : Option Json)
    (keys : MembersPathKeys object) (unique : Json.MembersUnique object)
    (written : setMembers mode path object = .ok entries) :
    assignAll entries held = updatedMembers mode object held := by
  cases object with
  | nil =>
      rw [← Except.ok.inj written]
      rfl
  | cons entry rest =>
      rcases entry with ⟨key, value⟩
      by_cases marks : key = Overwrite.marker
      · subst key
        rw [set_members_marker] at written
        rw [updatedMembers, if_pos rfl]
        exact set_members_updates mode path rest entries held keys.2.2 unique.2 written
      · obtain ⟨first, others, here, rests, joined⟩ :=
          (set_members_cons mode path key value rest entries marks).mp written
        rw [updatedMembers, if_neg marks, joined, Json.assign_all_append,
          set_value_updates mode path key value first held keys.1 keys.2.1 unique.1 here]
        exact set_members_updates mode path rest others _ keys.2.2 unique.2 rests
termination_by structural object
end

def Separate (entries : Members) : Prop :=
  entries.Pairwise (fun a b => ¬ DotPath.Along (DotPath.segments a.1) (DotPath.segments b.1))

theorem set_value_first (mode : WriteMode) (path key : String) (value : Json) (entries : Members)
    (segment : DotPath.IsSegment key) (written : setValue mode path key value = .ok entries) :
    ∀ entry ∈ entries, ∃ rest, DotPath.segments entry.1 = key :: rest := by
  have alone : ∀ value : Json, ∀ entry ∈ [(key, value)], ∃ rest, DotPath.segments entry.1 = key :: rest := by
    intro value entry member
    cases List.mem_singleton.mp member
    exact ⟨[], DotPath.segments_segment key segment⟩
  by_cases whole : setWhole value = true
  · rw [set_value_whole mode path key value whole] at written
    exact Except.ok.inj written ▸ alone value
  · cases value with
    | obj object =>
        obtain ⟨inner, _, rfl⟩ := set_value_object mode path key object entries (Bool.eq_false_iff.mpr whole) written
        by_cases replaces : mode.replaces (Overwrite.flag? object) = true
        · rw [nested, if_pos replaces]
          exact alone _
        · rw [nested, if_neg replaces]
          intro entry member
          obtain ⟨below, _, rfl⟩ := List.mem_map.mp member
          exact ⟨DotPath.segments below.1, DotPath.segments_under_segment key below.1 segment⟩
    | _ => exact absurd rfl whole

theorem path_keys_segment (object : Members) (key : String) (value : Json) (keys : MembersPathKeys object)
    (member : (key, value) ∈ object) : DotPath.IsSegment key := by
  induction object with
  | nil => cases member
  | cons entry rest ih =>
      rcases entry with ⟨name, held⟩
      rcases List.mem_cons.mp member with same | later
      · cases same
        exact keys.1
      · exact ih keys.2.2 later

theorem set_members_first (mode : WriteMode) (path : String) (object entries : Members)
    (keys : MembersPathKeys object) (written : setMembers mode path object = .ok entries) :
    ∀ entry ∈ entries, ∃ key ∈ Members.keys object, ∃ rest, DotPath.segments entry.1 = key :: rest := by
  intro entry listed
  obtain ⟨key, value, first, member, _, here, inside⟩ := set_members_entry mode path object entries written entry listed
  have segment := path_keys_segment object key value keys member
  exact ⟨key, Members.mem_keys_of_mem key value object member, set_value_first mode path key value first segment here entry inside⟩

mutual
theorem set_value_separate (mode : WriteMode) (path key : String) (value : Json) (entries : Members)
    (segment : DotPath.IsSegment key) (keys : PathKeys value) (unique : Json.UniqueKeys value)
    (written : setValue mode path key value = .ok entries) : Separate entries := by
  by_cases whole : setWhole value = true
  · rw [set_value_whole mode path key value whole] at written
    exact Except.ok.inj written ▸ List.pairwise_singleton _ _
  · cases value with
    | obj object =>
        obtain ⟨inner, compiled, rfl⟩ :=
          set_value_object mode path key object entries (Bool.eq_false_iff.mpr whole) written
        by_cases replaces : mode.replaces (Overwrite.flag? object) = true
        · rw [nested, if_pos replaces]
          exact List.pairwise_singleton _ _
        · have inside : MembersPathKeys object := keys.resolve_left whole
          have separate := set_members_separate _ (DotPath.under path key) object inner inside unique.1 unique.2 compiled
          rw [nested, if_neg replaces]
          refine List.pairwise_map.mpr (List.Pairwise.imp ?_ separate)
          intro a b clear along
          rw [DotPath.segments_under_segment key a.1 segment,
            DotPath.segments_under_segment key b.1 segment, DotPath.along_cons] at along
          exact clear along.2
    | _ => exact absurd rfl whole
termination_by structural value
theorem set_members_separate (mode : WriteMode) (path : String) (object entries : Members)
    (keys : MembersPathKeys object) (different : (Members.keys object).Nodup) (unique : Json.MembersUnique object)
    (written : setMembers mode path object = .ok entries) : Separate entries := by
  cases object with
  | nil => exact Except.ok.inj written ▸ .nil
  | cons member rest =>
      rcases member with ⟨key, value⟩
      have parts := List.nodup_cons.mp different
      by_cases marks : key = Overwrite.marker
      · subst key
        rw [set_members_marker] at written
        exact set_members_separate mode path rest entries keys.2.2 parts.2 unique.2 written
      · obtain ⟨first, others, here, rests, rfl⟩ :=
          (set_members_cons mode path key value rest entries marks).mp written
        refine List.pairwise_append.mpr ⟨set_value_separate mode path key value first keys.1 keys.2.1 unique.1 here,
          set_members_separate mode path rest others keys.2.2 parts.2 unique.2 rests, ?_⟩
        intro a mine b theirs along
        obtain ⟨tail, cut⟩ := set_value_first mode path key value first keys.1 here a mine
        obtain ⟨name, listed, tail', cut'⟩ := set_members_first mode path rest others keys.2.2 rests b theirs
        rw [cut, cut', DotPath.along_cons] at along
        exact parts.1 (along.1 ▸ listed)
termination_by structural object
end

theorem separate_keys (entries : Members) (separate : Separate entries) : (Members.keys entries).Pairwise DotPath.Apart :=
  List.pairwise_map.mpr (separate.imp (fun clear => DotPath.apart_of_segments _ _ clear))

theorem apart_nodup (keys : List String) (apart : keys.Pairwise DotPath.Apart) : keys.Nodup :=
  apart.imp (fun clear => clear.1)

-- Compiling a set object fails on a marker that is not a boolean and on nothing else. The `$set` document
-- it gives performs the update of the object on every document, and none of its paths is another one or lies
-- inside another one.
theorem set_document_updates (mode : WriteMode) (path : String) (object : Members)
    (unique : Json.UniqueKeys (.obj object)) (keys : MembersPathKeys object) :
    if Overwrite.readable object && membersReadable object then
      ∃ document, setDocument mode path object = .ok document ∧
        (∀ held, assignAll document held = updated mode object held) ∧
        (Members.keys document).Pairwise DotPath.Apart
    else ∃ place, setDocument mode path object = .error (.invalidArgument place .overwriteNotBoolean) := by
  cases own : Overwrite.readable object with
  | false => exact ⟨path, by rw [setDocument, Overwrite.explicit_unreadable object path own]; rfl⟩
  | true =>
      cases inside : membersReadable object with
      | false =>
          obtain ⟨place, refused⟩ := set_members_refused
            (WriteMode.passedOn (mode.replaces (Overwrite.flag? object))) path object inside
          refine ⟨place, ?_⟩
          rw [setDocument, Overwrite.explicit_readable object path own]
          simp only [bind, Except.bind, refused]
      | true =>
          obtain ⟨entries, compiled⟩ := set_members_succeeds
            (WriteMode.passedOn (mode.replaces (Overwrite.flag? object))) path object inside
          have apart := separate_keys entries
            (set_members_separate _ path object entries keys unique.1 unique.2 compiled)
          have same := Members.of_entries_unique entries (apart_nodup _ apart)
          refine ⟨entries, ?_, ?_, apart⟩
          · rw [setDocument, Overwrite.explicit_readable object path own]
            simp only [bind, Except.bind, compiled, same]
            rfl
          · intro held
            exact set_members_updates _ path object entries held keys unique.2 compiled

def remodelling : Members := [
  ("a", .obj [("x", Json.int 1), ("when", .obj [("$date", .str "2020")])]),
  ("b", .obj [("_OVERWRITE", .bool true), ("c", .obj [("_OVERWRITE", .bool false), ("y", .null)])]),
  ("list", .arr [.obj [("_OVERWRITE", .bool true)]])]

def stored : Json := .obj [("b", .obj [("c", .obj [("z", Json.int 2)])]), ("a", .obj [("z", Json.int 3)])]

def remodelled : Json := .obj [
  ("b", .obj [("c", .obj [("y", .null)])]),
  ("a", .obj [("z", Json.int 3), ("x", Json.int 1), ("when", .obj [("$date", .str "2020")])]),
  ("list", .arr [.obj [("_OVERWRITE", .bool true)]])]

theorem remodelling_updates :
    Json.UniqueKeys (.obj remodelling) ∧ MembersPathKeys remodelling ∧
      ∃ document, setDocument .merge "set" remodelling = .ok document ∧
        assignAll document (some stored) = some remodelled ∧ (Members.keys document).Pairwise DotPath.Apart := by
  have unique : Json.UniqueKeys (.obj remodelling) := by
    simp [remodelling, Json.UniqueKeys, Json.MembersUnique, Json.ElementsUnique, Members.keys, Json.int]
  have keys : MembersPathKeys remodelling := by
    simp [remodelling, MembersPathKeys, PathKeys, isExtended, DotPath.IsSegment, Json.int]
  have updates := set_document_updates .merge "set" remodelling unique keys
  have reads : (Overwrite.readable remodelling && membersReadable remodelling) = true := by decide
  rw [if_pos reads] at updates
  obtain ⟨document, compiled, applied, apart⟩ := updates
  exact ⟨unique, keys, document, compiled, (applied (some stored)).trans rfl, apart⟩

end DocGraph.Update
