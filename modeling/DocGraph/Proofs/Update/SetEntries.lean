import DocGraph.Proofs.DotPath
import DocGraph.Proofs.Json.Members
import DocGraph.Proofs.Outcome
import DocGraph.Update.Document

set_option autoImplicit false

namespace DocGraph

namespace Overwrite

def isFlag : Json → Bool
  | .null | .bool _ => true
  | _ => false

def flag? (object : Members) : Option Bool :=
  match Members.get? marker object with
  | some (.bool value) => some value
  | _ => none

def readable (object : Members) : Bool := (Members.get? marker object).all isFlag

theorem explicit_readable (object : Members) (path : String) (reads : readable object = true) :
    explicit object path = .ok (flag? object) := by
  unfold readable at reads
  unfold explicit flag?
  cases given : Members.get? marker object with
  | none => rfl
  | some value =>
      rw [given] at reads
      cases value with
      | null => rfl
      | bool flag => rfl
      | _ => cases reads

theorem explicit_unreadable (object : Members) (path : String) (fails : readable object = false) :
    explicit object path = .error (.invalidArgument path .overwriteNotBoolean) := by
  unfold readable at fails
  unfold explicit
  cases given : Members.get? marker object with
  | none => simp [given] at fails
  | some value =>
      rw [given] at fails
      cases value with
      | null => cases fails
      | bool flag => cases fails
      | _ => rfl

theorem explicit_ok (object : Members) (path : String) (flag : Option Bool)
    (explicitly : explicit object path = .ok flag) : flag = flag? object := by
  cases reads : readable object with
  | true =>
      rw [explicit_readable object path reads] at explicitly
      exact (Except.ok.inj explicitly).symm
  | false =>
      rw [explicit_unreadable object path reads] at explicitly
      cases explicitly

theorem explicit_flag (object : Members) (path : String) (flag : Option Bool) (value : Json)
    (explicitly : explicit object path = .ok flag) (given : Members.get? marker object = some value) :
    isFlag value = true := by
  cases reads : readable object with
  | false =>
      rw [explicit_unreadable object path reads] at explicitly
      cases explicitly
  | true => simpa [readable, given] using reads

end Overwrite

namespace Update

mutual
def readable : Json → Bool
  | .obj object => isExtended object || (Overwrite.readable object && membersReadable object)
  | _ => true
termination_by structural value => value
def membersReadable : Members → Bool
  | [] => true
  | (key, value) :: rest => (key == Overwrite.marker || readable value) && membersReadable rest
termination_by structural object => object
end

mutual
def unmarked : Json → Json
  | .obj object => if isExtended object then .obj object else .obj (unmarkedMembers object)
  | value => value
termination_by structural value => value
def unmarkedMembers : Members → Members
  | [] => []
  | (key, value) :: rest =>
      if key = Overwrite.marker then unmarkedMembers rest else (key, unmarked value) :: unmarkedMembers rest
termination_by structural object => object
end

theorem unmarked_keys (object : Members) :
    (Members.keys (unmarkedMembers object)).Sublist (Members.keys object) := by
  induction object with
  | nil => exact .slnil
  | cons entry rest ih =>
      rcases entry with ⟨key, value⟩
      by_cases marks : key = Overwrite.marker
      · rw [unmarkedMembers, if_pos marks]
        exact ih.cons key
      · rw [unmarkedMembers, if_neg marks]
        exact ih.cons_cons key

def joinMembers (reserved : String) (each : String → Json → Except Error Members) : Members → Except Error Members
  | [] => .ok []
  | (key, value) :: rest => do
      let first ← if key = reserved then .ok [] else each key value
      let others ← joinMembers reserved each rest
      return first ++ others

section

variable (reserved : String) (each : String → Json → Except Error Members)

theorem join_members_reserved (value : Json) (rest : Members) :
    joinMembers reserved each ((reserved, value) :: rest) = joinMembers reserved each rest := by
  rw [joinMembers, if_pos rfl]
  cases joinMembers reserved each rest <;> rfl

theorem join_members_cons (key : String) (value : Json) (rest entries : Members) (plain : key ≠ reserved) :
    joinMembers reserved each ((key, value) :: rest) = .ok entries ↔
      ∃ first others, each key value = .ok first ∧ joinMembers reserved each rest = .ok others ∧
        entries = first ++ others := by
  rw [joinMembers, if_neg plain, except_bind_ok]
  constructor
  · rintro ⟨first, written, later⟩
    obtain ⟨others, rests, joined⟩ := (except_bind_ok _ _ _).mp later
    exact ⟨first, others, written, rests, (Except.ok.inj joined).symm⟩
  · rintro ⟨first, others, written, rests, rfl⟩
    exact ⟨first, written, (except_bind_ok _ _ _).mpr ⟨others, rests, rfl⟩⟩

theorem join_members_entry (object entries : Members) (written : joinMembers reserved each object = .ok entries) :
    ∀ entry ∈ entries, ∃ key value first, (key, value) ∈ object ∧ key ≠ reserved ∧ each key value = .ok first ∧
      entry ∈ first := by
  induction object generalizing entries with
  | nil =>
      intro entry member
      rw [← Except.ok.inj written] at member
      cases member
  | cons held rest ih =>
      rcases held with ⟨key, value⟩
      have later (others : Members) (rests : joinMembers reserved each rest = .ok others) (entry : String × Json)
          (member : entry ∈ others) : ∃ name content first, (name, content) ∈ (key, value) :: rest ∧
            name ≠ reserved ∧ each name content = .ok first ∧ entry ∈ first := by
        obtain ⟨name, content, first, listed, plain, here, inside⟩ := ih others rests entry member
        exact ⟨name, content, first, List.mem_cons_of_mem _ listed, plain, here, inside⟩
      intro entry member
      by_cases left : key = reserved
      · subst key
        rw [join_members_reserved] at written
        exact later entries written entry member
      · obtain ⟨first, others, here, rests, rfl⟩ := (join_members_cons reserved each key value rest entries left).mp written
        rcases List.mem_append.mp member with mine | theirs
        · exact ⟨key, value, first, List.mem_cons_self .., left, here, mine⟩
        · exact later others rests entry theirs

theorem join_members_mem (object entries : Members) (key : String) (value : Json)
    (written : joinMembers reserved each object = .ok entries) (member : (key, value) ∈ object) (plain : key ≠ reserved) :
    ∃ first, each key value = .ok first ∧ ∀ entry ∈ first, entry ∈ entries := by
  induction object generalizing entries with
  | nil => cases member
  | cons held rest ih =>
      rcases held with ⟨name, content⟩
      by_cases left : name = reserved
      · subst name
        rw [join_members_reserved] at written
        rcases List.mem_cons.mp member with same | later
        · cases same
          exact absurd rfl plain
        · exact ih entries written later
      · obtain ⟨first, others, here, rests, rfl⟩ := (join_members_cons reserved each name content rest entries left).mp written
        rcases List.mem_cons.mp member with same | later
        · cases same
          exact ⟨first, here, fun entry inside => List.mem_append_left _ inside⟩
        · obtain ⟨mine, compiled, inside⟩ := ih others rests later
          exact ⟨mine, compiled, fun entry listed => List.mem_append_right _ (inside entry listed)⟩

theorem join_members_succeeds (object : Members)
    (succeeds : ∀ key value, (key, value) ∈ object → key ≠ reserved → ∃ first, each key value = .ok first) :
    ∃ entries, joinMembers reserved each object = .ok entries := by
  induction object with
  | nil => exact ⟨[], rfl⟩
  | cons held rest ih =>
      rcases held with ⟨key, value⟩
      obtain ⟨others, rests⟩ := ih (fun name content member => succeeds name content (List.mem_cons_of_mem _ member))
      by_cases left : key = reserved
      · subst key
        exact ⟨others, (join_members_reserved reserved each value rest).trans rests⟩
      · obtain ⟨first, here⟩ := succeeds key value (List.mem_cons_self ..) left
        exact ⟨first ++ others, (join_members_cons reserved each key value rest _ left).mpr ⟨first, others, here, rests, rfl⟩⟩

end

theorem set_members_joined (mode : WriteMode) (path : String) (object : Members) :
    setMembers mode path object = joinMembers Overwrite.marker (setValue mode path) object := by
  induction object with
  | nil => rfl
  | cons entry rest ih => rw [setMembers, joinMembers, ih]

theorem inc_members_joined (path : String) (object : Members) : incMembers path object =
    joinMembers incPlaceholder (fun key value => incValue (DotPath.under path key) value) object := by
  induction object with
  | nil => rfl
  | cons entry rest ih => rw [incMembers, joinMembers, ih]

theorem set_members_marker (mode : WriteMode) (path : String) (value : Json) (rest : Members) :
    setMembers mode path ((Overwrite.marker, value) :: rest) = setMembers mode path rest := by
  simp only [set_members_joined, join_members_reserved]

theorem set_members_cons (mode : WriteMode) (path key : String) (value : Json) (rest entries : Members)
    (plain : key ≠ Overwrite.marker) :
    setMembers mode path ((key, value) :: rest) = .ok entries ↔
      ∃ first others, setValue mode path key value = .ok first ∧ setMembers mode path rest = .ok others ∧
        entries = first ++ others := by
  simp only [set_members_joined]
  exact join_members_cons _ _ key value rest entries plain

theorem set_members_entry (mode : WriteMode) (path : String) (object entries : Members)
    (written : setMembers mode path object = .ok entries) : ∀ entry ∈ entries, ∃ key value first,
      (key, value) ∈ object ∧ key ≠ Overwrite.marker ∧ setValue mode path key value = .ok first ∧ entry ∈ first :=
  join_members_entry _ _ object entries ((set_members_joined mode path object).symm.trans written)

def setWhole : Json → Bool
  | .obj object => isExtended object
  | _ => true

theorem set_value_whole (mode : WriteMode) (path key : String) (value : Json) (whole : setWhole value = true) :
    setValue mode path key value = .ok [(key, value)] := by
  cases value with
  | obj object =>
      rw [setValue]
      exact if_pos whole
  | _ => rfl

def nested (replaces : Bool) (key : String) (inner : Members) : Members :=
  if replaces then [(key, .obj (Members.ofEntries inner))]
  else inner.map (fun entry => (DotPath.under key entry.1, entry.2))

theorem set_value_opened (mode : WriteMode) (path key : String) (object : Members)
    (opened : isExtended object = false) (reads : Overwrite.readable object = true) :
    setValue mode path key (.obj object) =
      (setMembers (WriteMode.passedOn (mode.replaces (Overwrite.flag? object))) (DotPath.under path key) object).map
        (nested (mode.replaces (Overwrite.flag? object)) key) := by
  have explicitly := Overwrite.explicit_readable object (DotPath.under path key) reads
  rw [setValue, opened]
  simp only [explicitly, Bool.false_eq_true, if_false, bind, Except.bind]
  cases setMembers _ _ object <;> rfl

theorem set_value_unreadable (mode : WriteMode) (path key : String) (object : Members)
    (opened : isExtended object = false) (fails : Overwrite.readable object = false) :
    setValue mode path key (.obj object) =
      .error (.invalidArgument (DotPath.under path key) .overwriteNotBoolean) := by
  have explicitly := Overwrite.explicit_unreadable object (DotPath.under path key) fails
  rw [setValue, opened]
  simp only [explicitly, Bool.false_eq_true, if_false, bind, Except.bind]

theorem set_value_object (mode : WriteMode) (path key : String) (object entries : Members)
    (opened : isExtended object = false) (written : setValue mode path key (.obj object) = .ok entries) :
    ∃ inner, setMembers (WriteMode.passedOn (mode.replaces (Overwrite.flag? object))) (DotPath.under path key)
        object = .ok inner ∧ entries = nested (mode.replaces (Overwrite.flag? object)) key inner := by
  cases reads : Overwrite.readable object with
  | false =>
      rw [set_value_unreadable mode path key object opened reads] at written
      cases written
  | true =>
      rw [set_value_opened mode path key object opened reads] at written
      cases compiled : setMembers (WriteMode.passedOn (mode.replaces (Overwrite.flag? object)))
          (DotPath.under path key) object with
      | error error =>
          rw [compiled] at written
          cases written
      | ok inner =>
          rw [compiled] at written
          exact ⟨inner, rfl, (Except.ok.inj written).symm⟩

mutual
theorem set_value_succeeds (mode : WriteMode) (path key : String) (value : Json) (reads : readable value = true) :
    ∃ entries, setValue mode path key value = .ok entries := by
  cases value with
  | obj object =>
      by_cases extended : isExtended object = true
      · exact ⟨_, set_value_whole mode path key (.obj object) extended⟩
      · have parts : Overwrite.readable object = true ∧ membersReadable object = true := by
          simpa [readable, extended] using reads
        obtain ⟨inner, compiled⟩ := set_members_succeeds
          (WriteMode.passedOn (mode.replaces (Overwrite.flag? object))) (DotPath.under path key) object parts.2
        rw [set_value_opened mode path key object (Bool.eq_false_iff.mpr extended) parts.1, compiled]
        exact ⟨_, rfl⟩
  | _ => exact ⟨_, rfl⟩
termination_by structural value
theorem set_members_succeeds (mode : WriteMode) (path : String) (object : Members)
    (reads : membersReadable object = true) : ∃ entries, setMembers mode path object = .ok entries := by
  cases object with
  | nil => exact ⟨[], rfl⟩
  | cons entry rest =>
      rcases entry with ⟨key, value⟩
      simp only [membersReadable, Bool.and_eq_true] at reads
      obtain ⟨others, rests⟩ := set_members_succeeds mode path rest reads.2
      by_cases marks : key = Overwrite.marker
      · subst key
        exact ⟨others, (set_members_marker mode path value rest).trans rests⟩
      · have reads : readable value = true := by simpa [marks] using reads.1
        obtain ⟨first, written⟩ := set_value_succeeds mode path key value reads
        exact ⟨first ++ others, (set_members_cons mode path key value rest _ marks).mpr
          ⟨first, others, written, rests, rfl⟩⟩
termination_by structural object
end

mutual
theorem set_value_refused (mode : WriteMode) (path key : String) (value : Json) (fails : readable value = false) :
    ∃ place, setValue mode path key value = .error (.invalidArgument place .overwriteNotBoolean) := by
  cases value with
  | obj object =>
      by_cases extended : isExtended object = true
      · simp [readable, extended] at fails
      · have opened : isExtended object = false := Bool.eq_false_iff.mpr extended
        cases reads : Overwrite.readable object with
        | false => exact ⟨_, set_value_unreadable mode path key object opened reads⟩
        | true =>
            have inside : membersReadable object = false := by simpa [readable, extended, reads] using fails
            obtain ⟨place, refused⟩ := set_members_refused
              (WriteMode.passedOn (mode.replaces (Overwrite.flag? object))) (DotPath.under path key) object inside
            rw [set_value_opened mode path key object opened reads, refused]
            exact ⟨place, rfl⟩
  | _ => cases fails
termination_by structural value
theorem set_members_refused (mode : WriteMode) (path : String) (object : Members)
    (fails : membersReadable object = false) :
    ∃ place, setMembers mode path object = .error (.invalidArgument place .overwriteNotBoolean) := by
  cases object with
  | nil => cases fails
  | cons entry rest =>
      rcases entry with ⟨key, value⟩
      by_cases marks : key = Overwrite.marker
      · subst key
        rw [set_members_marker]
        exact set_members_refused mode path rest (by simpa [membersReadable] using fails)
      · rw [setMembers, if_neg marks]
        cases reads : readable value with
        | false =>
            obtain ⟨place, refused⟩ := set_value_refused mode path key value reads
            refine ⟨place, ?_⟩
            simp only [bind, Except.bind, refused]
        | true =>
            have later : membersReadable rest = false := by simpa [membersReadable, marks, reads] using fails
            obtain ⟨first, written⟩ := set_value_succeeds mode path key value reads
            obtain ⟨place, refused⟩ := set_members_refused mode path rest later
            refine ⟨place, ?_⟩
            simp only [bind, Except.bind, written, refused]
termination_by structural object
end

mutual
theorem set_value_replacing (path key : String) (value : Json) (entries : Members) (unique : Json.UniqueKeys value)
    (written : setValue .replace path key value = .ok entries) : entries = [(key, unmarked value)] := by
  cases value with
  | obj object =>
      by_cases extended : isExtended object = true
      · rw [set_value_whole .replace path key (.obj object) extended] at written
        rw [unmarked, if_pos extended]
        exact (Except.ok.inj written).symm
      · obtain ⟨inner, compiled, joined⟩ := set_value_object .replace path key object entries
          (Bool.eq_false_iff.mpr extended) written
        have plain := set_members_replacing (DotPath.under path key) object inner unique.2 compiled
        have different : (Members.keys inner).Nodup := plain ▸ unique.1.sublist (unmarked_keys object)
        have replaces : WriteMode.replace.replaces (Overwrite.flag? object) = true := rfl
        rw [replaces, nested, if_pos rfl, Members.of_entries_unique inner different, plain] at joined
        rw [unmarked, if_neg extended]
        exact joined
  | _ => exact (Except.ok.inj written).symm
termination_by structural value
theorem set_members_replacing (path : String) (object entries : Members) (unique : Json.MembersUnique object)
    (written : setMembers .replace path object = .ok entries) : entries = unmarkedMembers object := by
  cases object with
  | nil => exact (Except.ok.inj written).symm
  | cons entry rest =>
      rcases entry with ⟨key, value⟩
      by_cases marks : key = Overwrite.marker
      · subst key
        rw [set_members_marker] at written
        rw [unmarkedMembers, if_pos rfl]
        exact set_members_replacing path rest entries unique.2 written
      · obtain ⟨first, others, here, rests, joined⟩ :=
          (set_members_cons .replace path key value rest entries marks).mp written
        rw [joined, set_value_replacing path key value first unique.1 here,
          set_members_replacing path rest others unique.2 rests, unmarkedMembers, if_neg marks]
        rfl
termination_by structural object
end

theorem unmarked_opened (object : Members) (opened : isExtended object = false) :
    unmarked (.obj object) = .obj (unmarkedMembers object) := by
  rw [unmarked, opened]
  rfl

theorem set_value_replaced (mode : WriteMode) (path key : String) (object entries : Members)
    (opened : isExtended object = false) (unique : Json.UniqueKeys (.obj object))
    (replaces : mode.replaces (Overwrite.flag? object) = true)
    (written : setValue mode path key (.obj object) = .ok entries) : entries = [(key, .obj (unmarkedMembers object))] := by
  obtain ⟨inner, compiled, joined⟩ := set_value_object mode path key object entries opened written
  rw [replaces] at compiled
  have plain := set_members_replacing (DotPath.under path key) object inner unique.2 compiled
  have different : (Members.keys inner).Nodup := plain ▸ unique.1.sublist (unmarked_keys object)
  rw [joined, nested, if_pos replaces, Members.of_entries_unique inner different, plain]

theorem set_document_ok (mode : WriteMode) (path : String) (object document : Members)
    (written : setDocument mode path object = .ok document) :
    ∃ entries, setMembers (WriteMode.passedOn (mode.replaces (Overwrite.flag? object))) path object = .ok entries ∧
      document = Members.ofEntries entries := by
  obtain ⟨flag, explicitly, later⟩ := (except_bind_ok _ _ _).mp written
  obtain ⟨entries, compiled, joined⟩ := (except_bind_ok _ _ _).mp later
  cases Overwrite.explicit_ok object path flag explicitly
  exact ⟨entries, compiled, (Except.ok.inj joined).symm⟩

end Update

end DocGraph
