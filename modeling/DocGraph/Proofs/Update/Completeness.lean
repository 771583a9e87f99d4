import DocGraph.Proofs.InputType.Check
import DocGraph.Proofs.Operation.Update
import DocGraph.Proofs.Update.SetTypes
import DocGraph.Proofs.Update.Writes

set_option autoImplicit false

namespace DocGraph

namespace Update

theorem check_ok (schema : Schema) (type : CompositeIndex) (update : Members) (overwrite : Bool) (computed : FieldTest)
    (checked : check schema type update overwrite computed = .ok ()) :
    violations schema type update overwrite computed = .ok [] := by
  obtain ⟨found, here, later⟩ := (except_bind_ok _ _ _).mp checked
  cases found with
  | nil => exact here
  | cons violation rest => cases later

theorem set_alone (update set : Members) (overwrite : Bool)
    (alone : ∀ object, Members.get? "setOnInsert" update ≠ some (.obj object))
    (given : Members.get? "set" update = some (.obj set)) :
    writtenObjects update = [set] ∧ rootMode update overwrite = WriteMode.ofFlag overwrite := by
  have none : (Members.get? "setOnInsert" update).bind Json.members? = none := by
    cases found : Members.get? "setOnInsert" update with
    | none => rfl
    | some value =>
        cases value with
        | obj object => exact absurd found (alone object)
        | _ => rfl
  simp [writtenObjects, rootMode, none, given, Json.members?]

theorem checked_set_complete (schema : Schema) (names : schema.HasPlainNames) (fits : FieldType → Json → Prop)
    (closed : StoredOnly schema fits) (type : CompositeIndex) (kind : CompositeKind) (update set document : Members)
    (overwrite : Bool) (unique : Json.UniqueKeys (.obj update))
    (alone : ∀ object, Members.get? "setOnInsert" update ≠ some (.obj object))
    (given : Members.get? "set" update = some (.obj set)) (fit : fits (.named (.composite kind type)) (.obj set))
    (checked : check schema type update overwrite Field.isComputed = .ok ())
    (written : setDocument (WriteMode.ofFlag overwrite) "set" set = .ok document) :
    ∀ path value, (path, value) ∈ document → ∀ field, StoredAt schema type (DotPath.segments path) field →
      (path ≠ "_id" → field.type.Respected value) ∧
      ∀ listed id object, ObjectAt schema field.type value listed id object → Complete schema listed id object := by
  have valid := check_ok schema type update overwrite Field.isComputed checked
  obtain ⟨objects, mode⟩ := set_alone update set overwrite alone given
  rw [violations, objects, mode] at valid
  have held := Members.mem_of_get? "set" (.obj set) update given
  have deep : (Json.obj set).depth ≤ (Json.obj update).depth + 1 :=
    Nat.le_trans (Json.member_depth "set" _ update held) (Nat.le_trans (Nat.le_succ _) (Nat.le_succ _))
  obtain ⟨entries, compiled, rfl⟩ := set_document_ok (WriteMode.ofFlag overwrite) "set" set document written
  intro path value member field position
  have result := set_members_complete schema names fits closed _ kind set type "" "set" (WriteMode.ofFlag overwrite) _
    entries deep fit (Json.members_unique_mem update "set" (.obj set) unique.2 held) valid (fun replaces => replaces)
    compiled (path, value) (Members.mem_of_entries _ entries member) field position
  exact ⟨fun other => result.1 (fun root => other root.2), result.2⟩

end Update

open DocGraph.Derivation
open DocGraph.Update (StoredAt ObjectAt Complete)

variable {σ γ ε α : Type}

-- For every update of the derived type that has no `setOnInsert` and reaches the store, whatever was called in the
-- session before and whatever the store answers.
theorem validated_set_complete (text : String) (field : UpdateField) (read : Schema.ofText text = .ok field.schema)
    (free : CollisionFree field.schema) (session : Session) (reached : session.Reached field.schema)
    (within : field.type.index < field.schema.composites.length) (validates : field.settings.validateUpdateArgs = true)
    (computed : field.settings.computed = Field.isComputed) (ofError : Error → ε)
    (answer : UpdateCommand → FieldCall σ γ → Except ε α) :
    ∃ name after notices,
      session.call field.schema (.composite .update field.type []) = (after, notices, .ok (.reference ⟨name⟩)) ∧
      ∀ (call : FieldCall σ γ) update, Members.get? "update" call.arguments = some (.obj update) →
        Json.UniqueKeys (.obj update) →
        TypeRef.Conforms after.registry field.schema.scalars ⟨name⟩ (.obj update) →
        (∀ object, Members.get? "setOnInsert" update ≠ some (.obj object)) →
        ∀ command ∈ field.handed ofError answer call, ∀ document,
          Members.get? "$set" command.update = some (.obj document) →
          ∀ path value, (path, value) ∈ document →
            ∀ stored, StoredAt field.schema field.type (DotPath.segments path) stored →
              (path ≠ "_id" → stored.type.Respected value) ∧
              ∀ listed id object, ObjectAt field.schema stored.type value listed id object →
                Complete field.schema listed id object := by
  have sound := Schema.sound_of_text text field.schema read
  have names := Schema.plain_of_text text field.schema read
  obtain ⟨name, after, notices, named, called, grounded, contained⟩ :=
    composite_call field.schema sound session reached .update field.type [] within
  refine ⟨name, after, notices, called, ?_⟩
  intro call update given unique conforms alone command reaches document written
  have made := (UpdateField.mem_handed field ofError answer call command).mp reaches
  obtain ⟨other, compiled, again, valid, here, same⟩ := UpdateField.command_ok field _ _ _ command made
  cases again.symm.trans given
  obtain ⟨set, entries, asked, compiles, same'⟩ :=
    Update.compile_set update field.settings.overwrite compiled (.obj document) here (same ▸ written)
  cases same'
  rw [UpdateField.validate, if_pos validates, computed] at valid
  exact Update.checked_set_complete field.schema names (Update.FitsSet field.schema after.registry field.schema.scalars)
    (Update.set_types_stored field.schema after.registry field.schema.scalars sound free grounded) field.type .object update set
    document field.settings.overwrite unique alone asked
    (Update.update_part_fits field.schema after.registry field.schema.scalars sound free grounded ("set", .set) (by decide)
      (.inl rfl) field.type .nested within name update set .object named contained conforms asked) valid compiles

def updateCall (update : Members) : FieldCall Unit Unit where
  source := ()
  arguments := [("update", .obj update)]
  context := ()
  request := ⟨[], []⟩
  key := "update"

def validating (schema : Schema) : UpdateField where
  schema := schema
  type := ⟨0⟩
  settings := { differentOutputType := true, validateUpdateArgs := true }

def updateTypes (schema : Schema) : Registry := (Session.call schema {} (.composite .update ⟨0⟩ [])).1.registry

structure Hands (text name : String) (schema : Schema) (update document : Members) : Prop where
  read : Schema.ofText text = .ok schema
  free : CollisionFree schema
  within : 0 < schema.composites.length
  answered : (Session.call schema {} (.composite .update ⟨0⟩ [])).2.2 = .ok (.reference ⟨name⟩)
  unique : Json.UniqueKeys (.obj update)
  conforms : TypeRef.Conforms (updateTypes schema) schema.scalars ⟨name⟩ (.obj update)
  alone : ∀ object, Members.get? "setOnInsert" update ≠ some (.obj object)
  handed : (validating schema).handed (fun error => error) (fun _ _ => .ok ()) (updateCall update) =
    [⟨[], [("$set", .obj document)], {}, none⟩]

def orderText : String :=
  "type Order \x7b address: Address!, lines: [Line!]! \x7d type Address \x7b street: String!, note: String \x7d " ++
    "type Line \x7b product: String! \x7d"

def orders : Schema where
  composites := [
    { name := "Order", kind := .object, fields := [
      { name := "address", type := .nonNull (.named (.composite .object ⟨1⟩)) },
      { name := "lines", type := .nonNull (.list (.nonNull (.named (.composite .object ⟨2⟩)))) }] },
    { name := "Address", kind := .object, fields := [
      { name := "street", type := .nonNull (.scalar .string) },
      { name := "note", type := .scalar .string }] },
    { name := "Line", kind := .object, fields := [{ name := "product", type := .nonNull (.scalar .string) }] }]

def pen : Members := [("product", .str "pen")]

def orderSet : Members := [
  ("address", .obj [("_OVERWRITE", .bool true), ("street", .str "Main")]),
  ("lines", .arr [.obj pen])]

def orderDocument : Members := [("address", .obj [("street", .str "Main")]), ("lines", .arr [.obj pen])]

theorem order_handed : Hands orderText "OrderUpdateType" orders [("set", .obj orderSet)] orderDocument where
  read := by decide +kernel
  free := by decide +kernel
  within := by decide
  answered := by decide +kernel
  unique := by
    simp [orderSet, pen, Json.UniqueKeys, Json.MembersUnique, Json.ElementsUnique, Members.keys]
  conforms := TypeRef.conforms_of_checks _ _ 6 _ _ (by decide +kernel)
  alone := by nofun
  handed := rfl

theorem order_complete :
    Hands orderText "OrderUpdateType" orders [("set", .obj orderSet)] orderDocument ∧ Session.Reached orders {} ∧
      (validating orders).settings.validateUpdateArgs = true ∧
      (validating orders).settings.computed = Field.isComputed ∧
      Complete orders false ⟨1⟩ [("street", .str "Main")] ∧ Complete orders true ⟨2⟩ pen := by
  refine ⟨order_handed, .fresh, rfl, rfl, ?_⟩
  obtain ⟨name, after, notices, called, complete⟩ := validated_set_complete orderText (validating orders) order_handed.read
    order_handed.free {} .fresh order_handed.within rfl rfl (fun error => error)
    (fun (_ : UpdateCommand) (_ : FieldCall Unit Unit) => Except.ok ())
  have registry : updateTypes orders = after.registry := congrArg (fun result => result.1.registry) called
  have reference : name = "OrderUpdateType" := by
    have answered := (congrArg (fun result => result.2.2) called).symm.trans order_handed.answered
    cases answered
    rfl
  have conforms := order_handed.conforms
  rw [registry, ← reference] at conforms
  have reaches := order_handed.handed ▸ List.mem_singleton.mpr rfl
  have written := complete (updateCall [("set", .obj orderSet)]) _ rfl order_handed.unique conforms order_handed.alone _
    reaches orderDocument rfl
  have address : StoredAt orders ⟨0⟩ (DotPath.segments "address")
      { name := "address", type := .nonNull (.named (.composite .object ⟨1⟩)) } :=
    .here ⟨0⟩ _ "address" _ rfl rfl rfl
  have lines : StoredAt orders ⟨0⟩ (DotPath.segments "lines")
      { name := "lines", type := .nonNull (.list (.nonNull (.named (.composite .object ⟨2⟩)))) } :=
    .here ⟨0⟩ _ "lines" _ rfl rfl rfl
  refine ⟨(written "address" _ (List.mem_cons_self ..) _ address).2 false ⟨1⟩ _ ?_,
    (written "lines" _ (List.mem_cons_of_mem _ (List.mem_cons_self ..)) _ lines).2 true ⟨2⟩ _ ?_⟩
  · exact .nonNull _ _ _ _ _ (.self .object ⟨1⟩ _)
  · exact .nonNull _ _ _ _ _ (.element _ _ _ _ _ _ (List.mem_singleton.mpr rfl)
      (.nonNull _ _ _ _ _ (.self .object ⟨2⟩ pen)))

def userText : String := "type User \x7b _id: ID!, name: String \x7d"

def users : Schema where
  composites := [{
    name := "User"
    kind := .object
    fields := [{ name := "_id", type := .nonNull (.scalar .id) }, { name := "name", type := .scalar .string }] }]

def pageText : String := "type Page \x7b state: State \x7d type State \x7b _OVERWRITE: Boolean!, title: String \x7d"

def pages : Schema where
  composites := [
    { name := "Page", kind := .object, fields := [{ name := "state", type := .named (.composite .object ⟨1⟩) }] },
    { name := "State", kind := .object, fields := [
      { name := "_OVERWRITE", type := .nonNull (.scalar .boolean) },
      { name := "title", type := .scalar .string }] }]

def titled : Members := [("title", .str "Home")]

def pageSet : Members := [("state", .obj (("_OVERWRITE", .bool true) :: titled))]

theorem user_handed : Hands userText "UserUpdateType" users [("set", .obj [("_id", .null)])] [("_id", .null)] where
  read := by decide +kernel
  free := by decide +kernel
  within := by decide
  answered := by decide +kernel
  unique := by simp [Json.UniqueKeys, Json.MembersUnique, Members.keys]
  conforms := TypeRef.conforms_of_checks _ _ 3 _ _ (by decide +kernel)
  alone := by nofun
  handed := rfl

theorem page_handed : Hands pageText "PageUpdateType" pages [("set", .obj pageSet)] [("state", .obj titled)] where
  read := by decide +kernel
  free := by decide +kernel
  within := by decide
  answered := by decide +kernel
  unique := by simp [pageSet, titled, Json.UniqueKeys, Json.MembersUnique, Members.keys]
  conforms := TypeRef.conforms_of_checks _ _ 4 _ _ (by decide +kernel)
  alone := by nofun
  handed := rfl

theorem exempt_fields_incomplete :
    (Hands userText "UserUpdateType" users [("set", .obj [("_id", .null)])] [("_id", .null)] ∧
      ∃ stored, StoredAt users ⟨0⟩ (DotPath.segments "_id") stored ∧ ¬ stored.type.Respected .null) ∧
    Hands pageText "PageUpdateType" pages [("set", .obj pageSet)] [("state", .obj titled)] ∧
      ∃ stored, StoredAt pages ⟨0⟩ (DotPath.segments "state") stored ∧
        ObjectAt pages stored.type (.obj titled) false ⟨1⟩ titled ∧ ¬ Complete pages true ⟨1⟩ titled := by
  refine ⟨⟨user_handed, _, .here ⟨0⟩ _ "_id" _ rfl rfl rfl, fun respected => nomatch respected.1⟩, page_handed, _,
    .here ⟨0⟩ _ "state" _ rfl rfl rfl, .self .object ⟨1⟩ titled, ?_⟩
  intro complete
  obtain ⟨value, given, _⟩ := complete _ _ rfl (List.mem_cons_self ..) rfl rfl (.inl rfl)
  cases given

end DocGraph
