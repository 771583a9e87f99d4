import DocGraph.Proofs.Schema.Declarations
import Mathlib.Logic.Equiv.Defs

set_option autoImplicit false

namespace DocGraph

structure Renumbering where
  composites : Equiv.Perm Nat
  enums : Equiv.Perm Nat

namespace Renumbering

def composite (numbers : Renumbering) (id : CompositeIndex) : CompositeIndex := ⟨numbers.composites id.index⟩

def enum (numbers : Renumbering) (id : EnumIndex) : EnumIndex := ⟨numbers.enums id.index⟩

theorem composite_inj (numbers : Renumbering) (a b : CompositeIndex) :
    numbers.composite a = numbers.composite b ↔ a = b := by
  cases a
  cases b
  simp [composite]

end Renumbering

variable (numbers : Renumbering)

def NamedType.renumber : NamedType → NamedType
  | .scalar type => .scalar type
  | .enum id => .enum (numbers.enum id)
  | .composite kind id => .composite kind (numbers.composite id)

def Declared.renumber : Declared → Declared
  | .composite kind id => .composite kind (numbers.composite id)
  | .enum id => .enum (numbers.enum id)
  | .scalar => .scalar

namespace FieldType

def renumber : FieldType → FieldType
  | .named type => .named (type.renumber numbers)
  | .list of => .list of.renumber
  | .nonNull of => .nonNull of.renumber

@[simp] theorem innermost_renumber (type : FieldType) :
    (type.renumber numbers).innermost = type.innermost.renumber numbers := by
  induction type with
  | named type => rfl
  | list of ih => exact ih
  | nonNull of ih => exact ih

@[simp] theorem is_list_renumber (type : FieldType) : (type.renumber numbers).isList = type.isList := by
  induction type with
  | named type => rfl
  | list of ih => rfl
  | nonNull of ih => exact ih

@[simp] theorem is_non_null_renumber (type : FieldType) : (type.renumber numbers).isNonNull = type.isNonNull := by
  induction type with
  | named type => rfl
  | list of ih => exact ih
  | nonNull of ih => rfl

@[simp] theorem composite_renumber (type : FieldType) :
    (type.renumber numbers).composite? = type.composite?.map numbers.composite := by
  rw [composite?, composite?, innermost_renumber]
  cases type.innermost <;> rfl

@[simp] theorem is_numeric_renumber (type : FieldType) : (type.renumber numbers).isNumeric = type.isNumeric := by
  rw [isNumeric, isNumeric, innermost_renumber]
  cases type.innermost <;> rfl

theorem nullable_renumber (type : FieldType) : (type.renumber numbers).nullable = type.nullable.renumber numbers := by
  cases type <;> rfl

end FieldType

namespace Field

def renumber (field : Field) : Field := { field with type := field.type.renumber numbers }

@[simp] theorem name_renumber (field : Field) : (field.renumber numbers).name = field.name := rfl

@[simp] theorem type_renumber (field : Field) : (field.renumber numbers).type = field.type.renumber numbers := rfl

@[simp] theorem description_renumber (field : Field) : (field.renumber numbers).description = field.description := rfl

@[simp] theorem is_computed_renumber (field : Field) : (field.renumber numbers).isComputed = field.isComputed := rfl

@[simp] theorem is_stored_renumber (field : Field) : (field.renumber numbers).isStored = field.isStored := rfl

@[simp] theorem dependencies_renumber (field : Field) : (field.renumber numbers).dependencies = field.dependencies := rfl

@[simp] theorem reads_undeclared_renumber (field : Field) :
    (field.renumber numbers).readsUndeclared = field.readsUndeclared := rfl

end Field

namespace Composite

def renumber (composite : Composite) : Composite :=
  { composite with fields := composite.fields.map (Field.renumber numbers) }

@[simp] theorem name_renumber (composite : Composite) : (composite.renumber numbers).name = composite.name := rfl

@[simp] theorem fields_renumber (composite : Composite) :
    (composite.renumber numbers).fields = composite.fields.map (Field.renumber numbers) := rfl

@[simp] theorem field_named_renumber (composite : Composite) (name : String) :
    (composite.renumber numbers).field? name = (composite.field? name).map (Field.renumber numbers) := by
  rw [field?, fields_renumber, List.find?_map]
  rfl

theorem field_renumber (composite : Composite) (name : String) :
    (composite.renumber numbers).field name = (composite.field name).map (Field.renumber numbers) := by
  rw [field, field, field_named_renumber]
  cases composite.field? name <;> rfl

theorem undeclared_readers_renumber (composite : Composite) :
    (composite.renumber numbers).undeclaredReaders = composite.undeclaredReaders := by
  rw [undeclaredReaders, undeclaredReaders, fields_renumber, List.filter_map, List.map_map]
  rfl

end Composite

namespace Schema

structure Renumbers (schema other : Schema) : Prop where
  size : other.composites.length = schema.composites.length
  composites : ∀ index, other.composites[numbers.composites index]? =
    (schema.composites[index]?).map (Composite.renumber numbers)
  enums : ∀ index, other.enums[numbers.enums index]? = schema.enums[index]?
  scalars : schema.scalars.Perm other.scalars
  beyond : ∀ index, schema.composites.length ≤ index → numbers.composites index = index
  beyondEnums : ∀ index, schema.enums.length ≤ index → numbers.enums index = index

theorem enum_named_found (schema : Schema) (name : String) (id : EnumIndex) (named : schema.enumNamed? name = some id) :
    ∃ definition, schema.enums[id.index]? = some definition ∧ definition.name = name := by
  obtain ⟨index, found, rfl⟩ := Option.map_eq_some_iff.mp named
  obtain ⟨within, here, _⟩ := List.findIdx?_eq_some_iff_getElem.mp found
  exact ⟨_, List.getElem?_eq_getElem within, by simpa using here⟩

theorem enum_named (schema : Schema) (apart : schema.NamesApart) (id : EnumIndex) (definition : Enumeration)
    (found : schema.enumeration id = .ok definition) : schema.enumNamed? definition.name = some id := by
  cases named : schema.enumNamed? definition.name with
  | none =>
      have missing : ∀ other ∈ schema.enums, other.name ≠ definition.name := by simpa [enumNamed?] using named
      exact absurd rfl (missing definition (enumeration_mem schema id definition found))
  | some other =>
      obtain ⟨target, there, same⟩ := enum_named_found schema definition.name other named
      exact congrArg some (enum_index_unique schema apart other id target definition
        ((enumeration_ok schema other target).mpr there) found same)

section

variable (schema other : Schema) (renumbers : Renumbers numbers schema other)

include renumbers

theorem renumbered_composite (id : CompositeIndex) :
    other.composite (numbers.composite id) = (schema.composite id).map (Composite.renumber numbers) := by
  have found := renumbers.composites id.index
  unfold composite
  change other.composites[(numbers.composite id).index]? = _ at found
  rw [found]
  cases here : schema.composites[id.index]? with
  | some composite => rfl
  | none =>
      have same : numbers.composite id = id :=
        congrArg CompositeIndex.mk (renumbers.beyond id.index (List.getElem?_eq_none_iff.mp here))
      rw [same]
      rfl

theorem renumbered_enumeration (id : EnumIndex) : other.enumeration (numbers.enum id) = schema.enumeration id := by
  have found := renumbers.enums id.index
  unfold enumeration
  change other.enums[(numbers.enum id).index]? = _ at found
  rw [found]
  cases here : schema.enums[id.index]? with
  | some definition => rfl
  | none =>
      have same : numbers.enum id = id :=
        congrArg EnumIndex.mk (renumbers.beyondEnums id.index (List.getElem?_eq_none_iff.mp here))
      rw [same]

variable (apart : other.NamesApart)

include apart

theorem renumbered_composite_named (name : String) :
    other.compositeNamed? name = (schema.compositeNamed? name).map numbers.composite := by
  cases named : schema.compositeNamed? name with
  | some id =>
      obtain ⟨composite, here, rfl⟩ := composite_named_found schema name id named
      have there := renumbered_composite numbers schema other renumbers id
      rw [(composite_ok schema id composite).mpr here] at there
      exact composite_named other apart (numbers.composite id) (composite.renumber numbers) there
  | none =>
      have missing : ∀ composite ∈ schema.composites, composite.name ≠ name := by simpa [compositeNamed?] using named
      apply Option.eq_none_iff_forall_not_mem.mpr
      intro id there
      obtain ⟨composite, found, same⟩ := composite_named_found other name id there
      have origin := renumbers.composites (numbers.composites.symm id.index)
      rw [Equiv.apply_symm_apply, found] at origin
      obtain ⟨held, here, rfl⟩ := Option.map_eq_some_iff.mp origin.symm
      exact missing held (List.mem_of_getElem? here) same

theorem renumbered_enum_named (name : String) :
    other.enumNamed? name = (schema.enumNamed? name).map numbers.enum := by
  cases named : schema.enumNamed? name with
  | some id =>
      obtain ⟨definition, here, rfl⟩ := enum_named_found schema name id named
      have there := renumbers.enums id.index
      rw [here] at there
      exact enum_named other apart (numbers.enum id) definition ((enumeration_ok other _ definition).mpr there)
  | none =>
      have missing : ∀ definition ∈ schema.enums, definition.name ≠ name := by simpa [enumNamed?] using named
      apply Option.eq_none_iff_forall_not_mem.mpr
      intro id there
      obtain ⟨definition, found, same⟩ := enum_named_found other name id there
      have origin := renumbers.enums (numbers.enums.symm id.index)
      rw [Equiv.apply_symm_apply, found] at origin
      exact missing definition (List.mem_of_getElem? origin.symm) same

theorem renumbered_type_named (name : String) :
    other.typeNamed? name = (schema.typeNamed? name).map (NamedType.renumber numbers) := by
  have composites : other.declaredComposite? name =
      (schema.declaredComposite? name).map (Declared.renumber numbers) := by
    unfold declaredComposite?
    rw [renumbered_composite_named numbers schema other renumbers apart name]
    cases schema.compositeNamed? name with
    | none => rfl
    | some id =>
        simp only [Option.map_some, Option.bind_eq_bind, Option.bind_some]
        change other.composites[numbers.composites id.index]?.bind _ = _
        rw [renumbers.composites id.index]
        cases schema.composites[id.index]? <;> rfl
  have scalars : other.scalars.contains name = schema.scalars.contains name := by
    rw [Bool.eq_iff_iff, List.contains_iff_mem, List.contains_iff_mem]
    exact renumbers.scalars.mem_iff.symm
  have declared : other.declared? name = (schema.declared? name).map (Declared.renumber numbers) := by
    unfold declared?
    rw [composites, renumbered_enum_named numbers schema other renumbers apart name, scalars]
    cases schema.declaredComposite? name with
    | some found => rfl
    | none =>
        cases schema.enumNamed? name with
        | some id => rfl
        | none => cases schema.scalars.contains name <;> rfl
  unfold typeNamed?
  rw [declared]
  cases schema.declared? name with
  | none => cases ScalarType.builtin? name <;> rfl
  | some found => cases found <;> rfl

theorem renumbered_field_type (node : GraphQL.TypeNode) :
    other.fieldTypeOf? node = (schema.fieldTypeOf? node).map (FieldType.renumber numbers) := by
  induction node with
  | named name =>
      rw [fieldTypeOf?, fieldTypeOf?, renumbered_type_named numbers schema other renumbers apart name]
      cases schema.typeNamed? name <;> rfl
  | list of ih =>
      rw [fieldTypeOf?, fieldTypeOf?, ih]
      cases schema.fieldTypeOf? of <;> rfl
  | nonNull of ih =>
      rw [fieldTypeOf?, fieldTypeOf?, ih]
      cases schema.fieldTypeOf? of <;> rfl

theorem renumbered_field (owner : String) (definition : GraphQL.FieldDefinition) :
    other.fieldOf owner definition = (schema.fieldOf owner definition).map (Field.renumber numbers) := by
  unfold fieldOf
  rw [renumbered_field_type numbers schema other renumbers apart definition.type]
  cases schema.fieldTypeOf? definition.type with
  | error name => rfl
  | ok type =>
      cases definition.directives.foldlM applyDirective Origin.stored <;> rfl

end

end Schema

end DocGraph
