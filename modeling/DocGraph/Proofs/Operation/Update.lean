import DocGraph.Operation.Update
import DocGraph.Proofs.Json.Members
import DocGraph.Proofs.Outcome

set_option autoImplicit false

namespace DocGraph

namespace Update

theorem optional_object_ok (update object : Members) (name : String) :
    optionalObject update name = .ok (some object) ↔ Members.get? name update = some (.obj object) := by
  unfold optionalObject
  cases given : Members.get? name update with
  | none => simp
  | some value =>
      cases value with
      | obj members => simp [Json.nonNull?]
      | _ => simp [Json.nonNull?]

theorem optional_object_succeeds (update : Members) (name : String)
    (fits : ∀ value, Members.get? name update = some value → value = .null ∨ ∃ object, value = .obj object) :
    ∃ given, optionalObject update name = .ok given := by
  unfold optionalObject
  cases given : Members.get? name update with
  | none => exact ⟨none, rfl⟩
  | some value =>
      rcases fits value given with rfl | ⟨object, rfl⟩
      · exact ⟨none, rfl⟩
      · exact ⟨some object, rfl⟩

def partDocument (compilePart : Members → Except Error Members) (update : Members) (name : String) :
    Except Error (Option Members) := do
  (← optionalObject update name).mapM compilePart

theorem part_document_ok (compilePart : Members → Except Error Members) (update : Members) (name : String)
    (written : Option Members) (made : partDocument compilePart update name = .ok written) (document : Members) :
    written = some document ↔
      ∃ object, Members.get? name update = some (.obj object) ∧ compilePart object = .ok document := by
  obtain ⟨given, found, mapped⟩ := (except_bind_ok _ _ _).mp made
  cases given with
  | none =>
      cases Except.ok.inj mapped
      refine ⟨nofun, ?_⟩
      rintro ⟨object, given, _⟩
      cases found.symm.trans ((optional_object_ok update object name).mpr given)
  | some object =>
      have given := (optional_object_ok update object name).mp found
      obtain ⟨compiled, here, rfl⟩ := (except_map_ok _ _ _).mp mapped
      constructor
      · rintro ⟨⟩
        exact ⟨object, given, here⟩
      · rintro ⟨other, again, there⟩
        cases given.symm.trans again
        cases here.symm.trans there
        rfl

theorem part_document_succeeds (compilePart : Members → Except Error Members) (update : Members) (name : String)
    (fits : ∀ value, Members.get? name update = some value → value = .null ∨ ∃ object, value = .obj object)
    (succeeds : ∀ object, Members.get? name update = some (.obj object) → ∃ document, compilePart object = .ok document) :
    ∃ written, partDocument compilePart update name = .ok written := by
  obtain ⟨given, found⟩ := optional_object_succeeds update name fits
  unfold partDocument
  rw [found]
  cases given with
  | none => exact ⟨none, rfl⟩
  | some object =>
      obtain ⟨document, made⟩ := succeeds object ((optional_object_ok update object name).mp found)
      exact ⟨some document, (except_map_ok _ _ _).mpr ⟨document, made, rfl⟩⟩

def operators (onInsert set inc : Option Members) : Members :=
  (onInsert.map (fun object => ("$setOnInsert", Json.obj object))).toList
    ++ entryUnlessEmpty "$set" set ++ entryUnlessEmpty "$inc" inc

theorem operators_on_insert (onInsert set inc : Option Members) :
    Members.get? "$setOnInsert" (operators onInsert set inc) = onInsert.map Json.obj := by
  rcases onInsert with _ | object <;> rcases set with _ | _ | ⟨entry, rest⟩ <;> rcases inc with _ | _ | ⟨entry', rest'⟩ <;> rfl

theorem operators_set (onInsert set inc : Option Members) : Members.get? "$set" (operators onInsert set inc) =
    (set.filter (fun document => !document.isEmpty)).map Json.obj := by
  rcases onInsert with _ | object <;> rcases set with _ | _ | ⟨entry, rest⟩ <;> rcases inc with _ | _ | ⟨entry', rest'⟩ <;> rfl

theorem operators_inc (onInsert set inc : Option Members) : Members.get? "$inc" (operators onInsert set inc) =
    (inc.filter (fun document => !document.isEmpty)).map Json.obj := by
  rcases onInsert with _ | object <;> rcases set with _ | _ | ⟨entry, rest⟩ <;> rcases inc with _ | _ | ⟨entry', rest'⟩ <;> rfl

theorem mem_unless_empty (key other : String) (document : Option Members) (value : Json)
    (member : (key, value) ∈ entryUnlessEmpty other document) :
    key = other ∧ ∃ members, document = some members ∧ value = .obj members := by
  cases document with
  | none => cases member
  | some members =>
      cases members with
      | nil => cases member
      | cons entry rest =>
          cases List.mem_singleton.mp member
          exact ⟨rfl, _, rfl, rfl⟩

theorem mem_operators (onInsert set inc : Option Members) (key : String) (value : Json)
    (member : (key, value) ∈ operators onInsert set inc) :
    (key = "$setOnInsert" ∧ ∃ object, onInsert = some object ∧ value = .obj object) ∨
    (key = "$set" ∧ ∃ document, set = some document ∧ value = .obj document) ∨
    (key = "$inc" ∧ ∃ document, inc = some document ∧ value = .obj document) := by
  rcases List.mem_append.mp member with front | last
  · rcases List.mem_append.mp front with first | second
    · rw [Option.toList_map] at first
      obtain ⟨object, given, same⟩ := List.mem_map.mp first
      cases same
      exact .inl ⟨rfl, object, Option.mem_toList.mp given, rfl⟩
    · exact .inr (.inl (mem_unless_empty key "$set" set value second))
  · exact .inr (.inr (mem_unless_empty key "$inc" inc value last))

theorem compile_ok (update : Members) (overwrite : Bool) (compiled : Compiled) :
    compile update overwrite = .ok compiled ↔ ∃ onInsert set inc, optionalObject update "setOnInsert" = .ok onInsert ∧
      partDocument (setDocument (WriteMode.ofFlag overwrite) "set") update "set" = .ok set ∧
      partDocument incDocument update "inc" = .ok inc ∧
      compiled = ⟨operators onInsert set inc, ⟨onInsert.isSome⟩⟩ := by
  constructor
  · intro made
    obtain ⟨onInsert, first, later⟩ := (except_bind_ok _ _ _).mp made
    obtain ⟨given, found, later⟩ := (except_bind_ok _ _ _).mp later
    obtain ⟨set, sets, later⟩ := (except_bind_ok _ _ _).mp later
    obtain ⟨given', found', later⟩ := (except_bind_ok _ _ _).mp later
    obtain ⟨inc, increments, whole⟩ := (except_bind_ok _ _ _).mp later
    exact ⟨onInsert, set, inc, first, (except_bind_ok _ _ _).mpr ⟨given, found, sets⟩,
      (except_bind_ok _ _ _).mpr ⟨given', found', increments⟩, (Except.ok.inj whole).symm⟩
  · rintro ⟨onInsert, set, inc, first, sets, increments, rfl⟩
    obtain ⟨given, found, sets⟩ := (except_bind_ok _ _ _).mp sets
    obtain ⟨given', found', increments⟩ := (except_bind_ok _ _ _).mp increments
    exact (except_bind_ok _ _ _).mpr ⟨onInsert, first, (except_bind_ok _ _ _).mpr ⟨given, found, (except_bind_ok _ _ _).mpr
      ⟨set, sets, (except_bind_ok _ _ _).mpr ⟨given', found', (except_bind_ok _ _ _).mpr ⟨inc, increments, rfl⟩⟩⟩⟩⟩

theorem compile_set (update : Members) (overwrite : Bool) (compiled : Compiled) (value : Json)
    (made : compile update overwrite = .ok compiled) (given : Members.get? "$set" compiled.document = some value) :
    ∃ object document, Members.get? "set" update = some (.obj object) ∧
      setDocument (WriteMode.ofFlag overwrite) "set" object = .ok document ∧ value = .obj document := by
  obtain ⟨onInsert, set, inc, _, sets, _, rfl⟩ := (compile_ok update overwrite compiled).mp made
  rw [operators_set] at given
  obtain ⟨document, kept, rfl⟩ := Option.map_eq_some_iff.mp given
  obtain ⟨object, found, here⟩ :=
    (part_document_ok _ update "set" set sets document).mp (Option.filter_eq_some_iff.mp kept).1
  exact ⟨object, document, found, here, rfl⟩

theorem compile_set_given (update object : Members) (overwrite : Bool) (compiled : Compiled)
    (made : compile update overwrite = .ok compiled) (given : Members.get? "set" update = some (.obj object)) :
    ∃ document, setDocument (WriteMode.ofFlag overwrite) "set" object = .ok document ∧
      (document ≠ [] → Members.get? "$set" compiled.document = some (.obj document)) := by
  obtain ⟨onInsert, set, inc, _, sets, _, rfl⟩ := (compile_ok update overwrite compiled).mp made
  obtain ⟨found, asked, mapped⟩ := (except_bind_ok _ _ _).mp sets
  cases asked.symm.trans ((optional_object_ok update object "set").mpr given)
  obtain ⟨document, written, rfl⟩ := (except_map_ok _ _ _).mp mapped
  refine ⟨document, written, ?_⟩
  intro some
  rw [operators_set, Option.filter_some, if_pos (by simpa using some)]
  rfl

theorem compile_inc (update : Members) (overwrite : Bool) (compiled : Compiled) (value : Json)
    (made : compile update overwrite = .ok compiled) (given : Members.get? "$inc" compiled.document = some value) :
    ∃ object document, Members.get? "inc" update = some (.obj object) ∧ incDocument object = .ok document ∧
      value = .obj document := by
  obtain ⟨onInsert, set, inc, _, _, increments, rfl⟩ := (compile_ok update overwrite compiled).mp made
  rw [operators_inc] at given
  obtain ⟨document, kept, rfl⟩ := Option.map_eq_some_iff.mp given
  obtain ⟨object, found, here⟩ :=
    (part_document_ok _ update "inc" inc increments document).mp (Option.filter_eq_some_iff.mp kept).1
  exact ⟨object, document, found, here, rfl⟩

theorem compile_on_insert (update : Members) (overwrite : Bool) (compiled : Compiled) (value : Json)
    (made : compile update overwrite = .ok compiled) (given : Members.get? "$setOnInsert" compiled.document = some value) :
    ∃ object, Members.get? "setOnInsert" update = some (.obj object) ∧ value = .obj object := by
  obtain ⟨onInsert, set, inc, first, _, _, rfl⟩ := (compile_ok update overwrite compiled).mp made
  rw [operators_on_insert] at given
  obtain ⟨object, rfl, rfl⟩ := Option.map_eq_some_iff.mp given
  exact ⟨object, (optional_object_ok update object "setOnInsert").mp first, rfl⟩

end Update

namespace UpdateField

variable {σ γ ε α : Type}

def recording (answer : UpdateCommand → FieldCall σ γ → Except ε α) (command : UpdateCommand) (call : FieldCall σ γ) :
    ExceptT ε (StateM (List UpdateCommand)) α :=
  fun handed => (answer command call, command :: handed)

def handed (field : UpdateField) (ofError : Error → ε) (answer : UpdateCommand → FieldCall σ γ → Except ε α)
    (call : FieldCall σ γ) : List UpdateCommand :=
  ((field.resolve ofError (recording answer) call).run []).2

theorem mem_handed (field : UpdateField) (ofError : Error → ε) (answer : UpdateCommand → FieldCall σ γ → Except ε α)
    (call : FieldCall σ γ) (command : UpdateCommand) : command ∈ field.handed ofError answer call ↔
      (field.command call.arguments call.request call.key).result = .ok command := by
  unfold handed resolve
  cases compiled : (field.command call.arguments call.request call.key).result with
  | error error =>
      refine ⟨fun member => ?_, nofun⟩
      simp only [compiled] at member
      cases member
  | ok other =>
      simp only [compiled]
      change command ∈ [other] ↔ _
      rw [List.mem_singleton, Except.ok.injEq]
      exact eq_comm

theorem command_ok (field : UpdateField) (arguments : Members) (request : GraphQL.Request) (key : String)
    (command : UpdateCommand) (made : (field.command arguments request key).result = .ok command) :
    ∃ update compiled, Members.get? "update" arguments = some (.obj update) ∧ field.validate update = .ok () ∧
      Update.compile update field.settings.overwrite = .ok compiled ∧ command.update = compiled.document := by
  obtain ⟨filter, _, later⟩ := (Outcome.result_bind _ _ _).mp made
  obtain ⟨update, given, later⟩ := (Outcome.result_bind _ _ _).mp later
  obtain ⟨_, valid, later⟩ := (Outcome.result_bind _ _ _).mp later
  obtain ⟨compiled, here, later⟩ := (Outcome.result_bind _ _ _).mp later
  obtain ⟨projection, _, whole⟩ := (Outcome.result_bind _ _ _).mp later
  have argument : Members.get? "update" arguments = some (.obj update) := by
    rw [Outcome.result_lift, updateArgument] at given
    split at given
    · rename_i held found
      exact Except.ok.inj given ▸ found
    · cases given
  cases (Outcome.result_pure _ _).mp whole
  exact ⟨update, compiled, argument, valid, here, rfl⟩

end UpdateField

end DocGraph
