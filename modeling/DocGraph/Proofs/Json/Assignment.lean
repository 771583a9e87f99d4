import DocGraph.Proofs.DotPath
import DocGraph.Proofs.Json.Descent
import DocGraph.Proofs.Json.Members

set_option autoImplicit false

namespace DocGraph

namespace Members

theorem put_put (key : String) (first second : Json) (members : Members) :
    put key second (put key first members) = put key second members := by
  induction members with
  | nil => simp [put]
  | cons entry rest ih =>
      rcases entry with ⟨name, held⟩
      by_cases same : name = key
      · simp [put, same]
      · simp [put, same, ih]

theorem put_held (key : String) (value : Json) (members : Members) (found : get? key members = some value) :
    put key value members = members := by
  induction members with
  | nil => cases found
  | cons entry rest ih =>
      rcases entry with ⟨name, held⟩
      by_cases same : name = key
      · simp only [get?, if_pos same, Option.some.injEq] at found
        simp [put, same, found]
      · rw [get?, if_neg same] at found
        rw [put, if_neg same, ih found]

end Members

namespace Json

def heldMembers (held : Option Json) : Members := (held.bind members?).getD []

def setMember (key : String) (value : Json) (held : Option Json) : Json :=
  .obj (Members.put key value (heldMembers held))

def assign : List String → Json → Option Json → Json
  | [], value, _ => value
  | key :: rest, value, held => setMember key (assign rest value (held.bind (member? key))) held

def assignAll : Members → Option Json → Option Json
  | [], held => held
  | (path, value) :: rest, held => assignAll rest (some (assign (DotPath.segments path) value held))

-- Gives a field a new content. A field that was absent and got none stays absent.
def setField (key : String) (content held : Option Json) : Option Json :=
  match content with
  | none => held
  | some value => some (setMember key value held)

theorem member_set_member (key : String) (value : Json) (held : Option Json) :
    member? key (setMember key value held) = some value := by
  simp [member?, setMember, members?, Members.get?_put]

theorem set_member_again (key : String) (first second : Json) (held : Option Json) :
    setMember key second (some (setMember key first held)) = setMember key second held := by
  simp [setMember, heldMembers, members?, Members.put_put]

theorem set_field_held (key : String) (held : Option Json) :
    setField key (held.bind (member? key)) held = held := by
  cases held with
  | none => rfl
  | some value =>
      cases value with
      | obj members =>
          cases found : Members.get? key members with
          | none => simp [setField, member?, members?, found]
          | some content =>
              simp [setField, setMember, heldMembers, member?, members?, found,
                Members.put_held key content members found]
      | _ => rfl

theorem assign_all_append (front back : Members) (held : Option Json) :
    assignAll (front ++ back) held = assignAll back (assignAll front held) := by
  induction front generalizing held with
  | nil => rfl
  | cons entry rest ih => exact ih (some (assign (DotPath.segments entry.1) entry.2 held))

theorem assign_all_present (entries : Members) (value : Json) :
    ∃ content, assignAll entries (some value) = some content := by
  induction entries generalizing value with
  | nil => exact ⟨value, rfl⟩
  | cons entry rest ih => exact ih (assign (DotPath.segments entry.1) entry.2 (some value))

theorem assign_all_segment (key : String) (value : Json) (held : Option Json) (segment : DotPath.IsSegment key) :
    assignAll [(key, value)] held = setField key (some value) held := by
  simp only [assignAll, DotPath.segments_segment key segment, assign, setField]

theorem assign_all_under (key : String) (entries : Members) (held : Option Json) (segment : DotPath.IsSegment key) :
    assignAll (entries.map (fun entry => (DotPath.under key entry.1, entry.2))) held =
      setField key (assignAll entries (held.bind (member? key))) held := by
  induction entries generalizing held with
  | nil => exact (set_field_held key held).symm
  | cons entry rest ih =>
      rcases entry with ⟨path, value⟩
      have cut := DotPath.segments_under_segment key path segment
      let inner := assign (DotPath.segments path) value (held.bind (member? key))
      obtain ⟨content, present⟩ := assign_all_present rest inner
      have written := ih (some (setMember key inner held))
      rw [Option.bind_some, member_set_member, present, setField, set_member_again] at written
      have direct : assignAll ((path, value) :: rest) (held.bind (member? key)) = some content := present
      rw [direct, List.map_cons, assignAll, cut]
      exact written

end Json

end DocGraph
