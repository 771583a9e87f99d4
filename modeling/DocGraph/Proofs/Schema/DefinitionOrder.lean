import DocGraph.InputType.Printer
import DocGraph.Proofs.Derivation.Renumbering
import DocGraph.Proofs.Filter.Renumbering
import DocGraph.Proofs.Projection.Renumbering
import DocGraph.Proofs.Schema.Definitions
import DocGraph.Proofs.Update.Renumbering
import Mathlib.Logic.Equiv.Basic

set_option autoImplicit false

namespace DocGraph

open GraphQL

def shifted (numbers : Equiv.Perm Nat) : Equiv.Perm Nat where
  toFun
    | 0 => 0
    | index + 1 => numbers index + 1
  invFun
    | 0 => 0
    | index + 1 => numbers.symm index + 1
  left_inv index := by cases index <;> simp
  right_inv index := by cases index <;> simp

structure Places {α : Type} (numbers : Equiv.Perm Nat) (here there : List α) : Prop where
  size : there.length = here.length
  found : ∀ index, there[numbers index]? = here[index]?
  beyond : ∀ index, here.length ≤ index → numbers index = index

theorem places_of_perm {α : Type} (here there : List α) (perm : here.Perm there) : ∃ numbers, Places numbers here there := by
  induction perm with
  | nil => exact ⟨Equiv.refl Nat, rfl, fun _ => rfl, fun _ _ => rfl⟩
  | cons head _ ih =>
      obtain ⟨numbers, places⟩ := ih
      refine ⟨shifted numbers, congrArg Nat.succ places.size, ?_, ?_⟩
      · intro index
        cases index with
        | zero => rfl
        | succ index => exact places.found index
      · intro index outside
        cases index with
        | zero => rfl
        | succ index => exact congrArg Nat.succ (places.beyond index (Nat.le_of_succ_le_succ outside))
  | swap first second rest =>
      have later (index : Nat) : Equiv.swap 0 1 (index + 2) = index + 2 :=
        Equiv.swap_apply_of_ne_of_ne (by omega) (by omega)
      refine ⟨Equiv.swap 0 1, rfl, ?_, ?_⟩
      · intro index
        match index with
        | 0 => simp
        | 1 => simp
        | index + 2 => simp [later]
      · intro index outside
        simp only [List.length_cons] at outside
        obtain ⟨index, rfl⟩ := Nat.exists_eq_add_of_le' (show 2 ≤ index by omega)
        exact later index
  | trans _ _ first second =>
      obtain ⟨early, before⟩ := first
      obtain ⟨late, after⟩ := second
      refine ⟨early.trans late, after.size.trans before.size, ?_, ?_⟩
      · intro index
        exact (after.found (early index)).trans (before.found index)
      · intro index outside
        rw [Equiv.trans_apply, before.beyond index outside]
        exact after.beyond index (before.size ▸ outside)

theorem places_map {α β : Type} (numbers : Equiv.Perm Nat) (here there : List α) (places : Places numbers here there)
    (before after : α → β) (change : β → β) (same : ∀ item, after item = change (before item)) (index : Nat) :
    (there.map after)[numbers index]? = ((here.map before)[index]?).map change := by
  rw [List.getElem?_map, List.getElem?_map, places.found index, Option.map_map]
  exact congrArg (Option.map · here[index]?) (funext same)

namespace Schema

section

variable (numbers : Renumbering) (definitions reordered : List TypeDefinition)

structure Reorders : Prop where
  composites : Places numbers.composites (compositesOf definitions) (compositesOf reordered)
  enums : Places numbers.enums (definitions.filterMap enumOf?) (reordered.filterMap enumOf?)
  scalars : (definitions.filterMap scalarOf?).Perm (reordered.filterMap scalarOf?)

theorem reorders_of_perm (perm : definitions.Perm reordered) : ∃ numbers, Reorders numbers definitions reordered := by
  obtain ⟨composites, first⟩ := places_of_perm _ _ (perm.filterMap (fun definition =>
    definition.body.kind?.map (fun kind => (kind, definition))))
  obtain ⟨enums, second⟩ := places_of_perm _ _ (perm.filterMap enumOf?)
  exact ⟨⟨composites, enums⟩, first, second, perm.filterMap scalarOf?⟩

variable (reorders : Reorders numbers definitions reordered)

include reorders

theorem renumbers_of_reorders (make other : CompositeKind × TypeDefinition → Composite)
    (same : ∀ defined, other defined = (make defined).renumber numbers) :
    Renumbers numbers { declaredBy definitions with composites := (compositesOf definitions).map make }
      { declaredBy reordered with composites := (compositesOf reordered).map other } where
  size := by simpa using reorders.composites.size
  composites := places_map _ _ _ reorders.composites make other _ same
  enums := reorders.enums.found
  scalars := reorders.scalars
  beyond index outside := reorders.composites.beyond index (by simpa using outside)
  beyondEnums := reorders.enums.beyond

theorem declared_renumbers : Renumbers numbers (declaredBy definitions) (declaredBy reordered) :=
  renumbers_of_reorders numbers definitions reordered reorders shellOf shellOf (fun _ => rfl)

variable (apart : (reordered.map TypeDefinition.name).Nodup)

include apart

theorem fields_reordered (definition : TypeDefinition) : fieldsOf (declaredBy reordered) definition =
    (fieldsOf (declaredBy definitions) definition).map (List.map (Field.renumber numbers)) := by
  have declares : reordered.foldlM declare {} = .ok (declaredBy reordered) :=
    declares_all reordered {} (fun _ _ => List.not_mem_nil) apart
  have names : (declaredBy reordered).NamesApart := by
    obtain ⟨declarations, same⟩ := all_declared reordered _ declares
    exact same ▸ run_names_apart declarations
  exact except_map_list_changed _ _ _ _ (renumbered_field numbers _ _
    (declared_renumbers numbers definitions reordered reorders) names definition.name)

theorem readable_reordered (definition : TypeDefinition) (readable : Readable (declaredBy definitions) definition) :
    Readable (declaredBy reordered) definition := by
  obtain ⟨fields, read, distinct⟩ := readable
  refine ⟨fields.map (Field.renumber numbers), ?_, ?_⟩
  · rw [fields_reordered numbers definitions reordered reorders apart, read]
    rfl
  · rw [List.map_map]
    exact distinct

theorem read_renumbers : Renumbers numbers (readBy definitions) (readBy reordered) := by
  apply renumbers_of_reorders numbers definitions reordered reorders
  intro defined
  unfold readingOf
  rw [fields_reordered numbers definitions reordered reorders apart]
  cases fieldsOf (declaredBy definitions) defined.2 <;> rfl

end

theorem check_reordered (numbers : Renumbering) (schema other : Schema) (renumbers : Renumbers numbers schema other)
    (checked : schema.check = .ok ()) : other.check = .ok () := by
  have refers (type : FieldType) (leads : type.Refers schema) : (type.renumber numbers).Refers other := by
    unfold FieldType.Refers at leads ⊢
    rw [FieldType.innermost_renumber]
    generalize type.innermost = innermost at leads ⊢
    cases innermost with
    | scalar scalar => trivial
    | enum id =>
        have found := renumbers.enums id.index
        rw [List.getElem?_eq_getElem (show id.index < schema.enums.length from leads)] at found
        exact (List.getElem?_eq_some_iff.mp found).1
    | composite kind id =>
        obtain ⟨target, found, kinds⟩ := leads
        have there := renumbers.composites id.index
        rw [found] at there
        exact ⟨target.renumber numbers, there, kinds⟩
  apply (check_ok other).mpr
  intro composite member
  obtain ⟨index, found⟩ := List.mem_iff_getElem?.mp member
  have origin := renumbers.composites (numbers.composites.symm index)
  rw [Equiv.apply_symm_apply, found] at origin
  obtain ⟨held, here, rfl⟩ := Option.map_eq_some_iff.mp origin.symm
  obtain ⟨given, leads⟩ := (check_ok schema).mp checked held (List.mem_of_getElem? here)
  refine ⟨by simpa using given, ?_⟩
  intro field listed
  obtain ⟨original, among, rfl⟩ := List.mem_map.mp listed
  exact refers original.type (leads original among)

theorem types_reordered (definitions reordered : List TypeDefinition) (perm : definitions.Perm reordered)
    (apart : (definitions.map TypeDefinition.name).Nodup) (schema : Schema) (read : ofTypes definitions = .ok schema) :
    ∃ numbers other, ofTypes reordered = .ok other ∧ Renumbers numbers schema other := by
  have others : (reordered.map TypeDefinition.name).Nodup := (perm.map _).nodup_iff.mp apart
  obtain ⟨numbers, reorders⟩ := reorders_of_perm definitions reordered perm
  obtain ⟨readable, rfl, checked⟩ := (of_types_apart definitions apart schema).mp read
  have renumbers := read_renumbers numbers definitions reordered reorders others
  refine ⟨numbers, readBy reordered, (of_types_apart reordered others _).mpr ⟨?_, rfl, ?_⟩, renumbers⟩
  · intro defined member
    have among := (perm.filterMap _).mem_iff.mpr member
    exact readable_reordered numbers definitions reordered reorders others defined.2 (readable defined among)
  · exact check_reordered numbers _ _ renumbers checked

def typesOf (definitions : List Definition) : List TypeDefinition :=
  definitions.filterMap (fun definition =>
    match definition with
    | .type definition => some definition
    | _ => none)

theorem of_text_types (text : String) (definitions : List Definition) (found : definitionsOfText? text = some definitions) :
    ofText text = (ofTypes (typesOf definitions)).mapError Error.build := by
  unfold ofText
  simp only [found]
  rfl

/-- Two schemas that only the numbers tell apart: under the same names they derive, compile and check alike. -/
structure Alike (numbers : Renumbering) (schema other : Schema) : Prop where
  renumbers : Renumbers numbers schema other
  composites : ∀ name, other.compositeNamed? name = (schema.compositeNamed? name).map numbers.composite
  enums : ∀ name, other.enumNamed? name = (schema.enumNamed? name).map numbers.enum
  calls : ∀ (session : Derivation.Session) call,
    session.call other (call.renumber numbers) = session.call schema call
  exports : ∀ calls, (Derivation.Session.run other {} (calls.map (Derivation.Call.renumber numbers))).registry.text =
    (Derivation.Session.run schema {} calls).registry.text
  filters : ∀ type filter, Filter.document other (numbers.composite type) filter = Filter.document schema type filter
  projections : ∀ type request key excluded computed,
    Projection.document other (numbers.composite type) request key excluded computed =
      Projection.document schema type request key excluded (fun field => computed (field.renumber numbers))
  updates : ∀ type update overwrite computed,
    Update.check other (numbers.composite type) update overwrite computed =
      Update.check schema type update overwrite (fun field => computed (field.renumber numbers))

theorem alike_of_renumbers (numbers : Renumbering) (schema other : Schema) (renumbers : Renumbers numbers schema other)
    (apart : other.NamesApart) : Alike numbers schema other where
  renumbers := renumbers
  composites := renumbered_composite_named numbers schema other renumbers apart
  enums := renumbered_enum_named numbers schema other renumbers apart
  calls := Derivation.call_renumbered numbers schema other renumbers
  exports calls := by rw [Derivation.run_renumbered numbers schema other renumbers]
  filters := Filter.document_renumbered numbers schema other renumbers
  projections type request key excluded computed :=
    Projection.document_renumbered numbers computed schema other renumbers apart type request key excluded
  updates type update overwrite computed :=
    Update.check_renumbered numbers schema other renumbers computed type update overwrite

-- For every two texts with the same definitions in whatever order, none of which defines a name again.
theorem definition_order_irrelevant (first second : String) (definitions reordered : List Definition)
    (here : definitionsOfText? first = some definitions) (there : definitionsOfText? second = some reordered)
    (perm : definitions.Perm reordered) (once : ((typesOf definitions).map TypeDefinition.name).Nodup) :
    ((∃ error, ofText first = .error error) ∧ ∃ error, ofText second = .error error) ∨
      ∃ schema other numbers, ofText first = .ok schema ∧ ofText second = .ok other ∧ Alike numbers schema other := by
  have types : (typesOf definitions).Perm (typesOf reordered) := perm.filterMap _
  have again : ((typesOf reordered).map TypeDefinition.name).Nodup := (types.map _).nodup_iff.mp once
  have left := of_text_types first definitions here
  have right := of_text_types second reordered there
  cases read : ofTypes (typesOf definitions) with
  | ok schema =>
      obtain ⟨numbers, other, made, renumbers⟩ := types_reordered _ _ types once schema read
      have given : ofText first = .ok schema := left.trans (by rw [read]; rfl)
      have result : ofText second = .ok other := right.trans (by rw [made]; rfl)
      have apart := names_apart_of_text second other result
      exact .inr ⟨schema, other, numbers, given, result, alike_of_renumbers numbers schema other renumbers apart⟩
  | error error =>
      refine .inl ⟨⟨.build error, left.trans (by rw [read]; rfl)⟩, ?_⟩
      cases made : ofTypes (typesOf reordered) with
      | error fault => exact ⟨.build fault, right.trans (by rw [made]; rfl)⟩
      | ok other =>
          obtain ⟨_, schema, found, _⟩ := types_reordered _ _ types.symm again other made
          cases found.symm.trans read

def shelvesText : String :=
  "enum Kind \x7b BOOK FILM \x7d type Shelf \x7b items: [Item!] \x7d type Item \x7b kind: Kind, shelf: Shelf! \x7d"

def itemsText : String :=
  "type Item \x7b kind: Kind, shelf: Shelf! \x7d type Shelf \x7b items: [Item!] \x7d enum Kind \x7b BOOK FILM \x7d"

def kindDefinition : Definition := .type ⟨false, none, "Kind", [], .enum [⟨none, "BOOK", []⟩, ⟨none, "FILM", []⟩]⟩

def shelfDefinition : Definition :=
  .type ⟨false, none, "Shelf", [], .object [] [⟨none, "items", [], .list (.nonNull (.named "Item")), []⟩]⟩

def itemDefinition : Definition :=
  .type ⟨false, none, "Item", [], .object [] [
    ⟨none, "kind", [], .named "Kind", []⟩, ⟨none, "shelf", [], .nonNull (.named "Shelf"), []⟩]⟩

def shelves : Schema where
  composites := [
    { name := "Shelf", kind := .object, fields := [
      { name := "items", type := .list (.nonNull (.named (.composite .object ⟨1⟩))) }] },
    { name := "Item", kind := .object, fields := [
      { name := "kind", type := .named (.enum ⟨0⟩) },
      { name := "shelf", type := .nonNull (.named (.composite .object ⟨0⟩)) }] }]
  enums := [{ name := "Kind", values := ["BOOK", "FILM"] }]

def items : Schema where
  composites := [
    { name := "Item", kind := .object, fields := [
      { name := "kind", type := .named (.enum ⟨0⟩) },
      { name := "shelf", type := .nonNull (.named (.composite .object ⟨1⟩)) }] },
    { name := "Shelf", kind := .object, fields := [
      { name := "items", type := .list (.nonNull (.named (.composite .object ⟨0⟩))) }] }]
  enums := [{ name := "Kind", values := ["BOOK", "FILM"] }]

theorem shelves_in_another_order :
    definitionsOfText? shelvesText = some [kindDefinition, shelfDefinition, itemDefinition] ∧
      definitionsOfText? itemsText = some [itemDefinition, shelfDefinition, kindDefinition] ∧
      [kindDefinition, shelfDefinition, itemDefinition].Perm [itemDefinition, shelfDefinition, kindDefinition] ∧
      ((typesOf [kindDefinition, shelfDefinition, itemDefinition]).map TypeDefinition.name).Nodup ∧
      ofText shelvesText = .ok shelves ∧ ofText itemsText = .ok items ∧
      ∃ numbers, Alike numbers shelves items ∧ numbers.composite ⟨0⟩ = ⟨1⟩ := by
  have here : definitionsOfText? shelvesText = some [kindDefinition, shelfDefinition, itemDefinition] := by decide +kernel
  have there : definitionsOfText? itemsText = some [itemDefinition, shelfDefinition, kindDefinition] := by decide +kernel
  have perm := (List.reverse_perm [itemDefinition, shelfDefinition, kindDefinition])
  have once : ((typesOf [kindDefinition, shelfDefinition, itemDefinition]).map TypeDefinition.name).Nodup := by decide
  have shelved : ofText shelvesText = .ok shelves := by decide +kernel
  have listed : ofText itemsText = .ok items := by decide +kernel
  refine ⟨here, there, perm, once, shelved, listed, ?_⟩
  have settled := definition_order_irrelevant shelvesText itemsText _ _ here there perm once
  rcases settled with ⟨⟨error, failed⟩, _⟩ | ⟨schema, other, numbers, first, second, alike⟩
  · cases failed.symm.trans shelved
  · cases first.symm.trans shelved
    cases second.symm.trans listed
    exact ⟨numbers, alike, (Option.some.inj (alike.composites "Shelf")).symm⟩

end Schema

end DocGraph
