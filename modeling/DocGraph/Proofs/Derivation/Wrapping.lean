import DocGraph.Proofs.Derivation.Spelling

set_option autoImplicit false

namespace DocGraph

open GraphQL

-- A name that holds nothing which a wrapper puts around it.
def IsBare (name : String) : Prop := '!' ∉ name.toList ∧ '[' ∉ name.toList ∧ ']' ∉ name.toList

instance (name : String) : Decidable (IsBare name) := inferInstanceAs (Decidable (_ ∧ _))

inductive Wrapper where
  | list
  | nonNull
deriving DecidableEq, Repr

def TypeRef.wrappedIn (type : TypeRef) (wrappers : List Wrapper) : TypeRef :=
  wrappers.foldl (fun type wrapper => match wrapper with | .list => type.list | .nonNull => type.nonNull) type

namespace GraphQL.TypeNode

def wrappedIn (node : TypeNode) (wrappers : List Wrapper) : TypeNode :=
  wrappers.foldl (fun node wrapper => match wrapper with | .list => .list node | .nonNull => .nonNull node) node

def name : TypeNode → String
  | .named name => name
  | .list of => of.name
  | .nonNull of => of.name

def unmarked : TypeNode → TypeNode
  | .named name => .named name
  | .list of => .list of.unmarked
  | .nonNull of => of.unmarked

theorem wrapped_name (node : TypeNode) (wrappers : List Wrapper) : (node.wrappedIn wrappers).name = node.name := by
  induction wrappers generalizing node with
  | nil => rfl
  | cons wrapper rest ih => cases wrapper <;> exact ih _

def reference (node : TypeNode) : TypeRef := ⟨node.text⟩

theorem wrapped_reference (node : TypeNode) (wrappers : List Wrapper) :
    (node.wrappedIn wrappers).reference = node.reference.wrappedIn wrappers := by
  induction wrappers generalizing node with
  | nil => rfl
  | cons wrapper rest ih => cases wrapper <;> exact ih _

end GraphQL.TypeNode

theorem bare_is_name (name : String) (bare : IsBare name) : TypeRef.IsName ⟨name⟩ := by
  have unmarked : Text.before? ['!'] name.toList = none := by
    refine Option.eq_none_iff_forall_not_mem.mpr (fun rest found => bare.1 ?_)
    rw [(Text.before?_eq_some_iff _ _ _).mp found]
    simp
  have unlisted : Text.after? ['['] name.toList = none := by
    refine Option.eq_none_iff_forall_not_mem.mpr (fun rest found => bare.2.1 ?_)
    rw [(Text.after?_eq_some_iff _ _ _).mp found]
    simp
  rw [TypeRef.IsName, TypeRef.unwrapped?, TypeRef.insideBrackets?, unmarked, unlisted]
  rfl

theorem TypeRef.non_null_injective (a b : TypeRef) (same : a.nonNull = b.nonNull) : a = b := by
  have texts := congrArg (fun type => type.text.toList) same
  simp only [non_null_text, List.append_cancel_right_eq] at texts
  exact congrArg TypeRef.mk (String.toList_injective texts)

namespace GraphQL.TypeNode

theorem reference_named (node : TypeNode) (bare : IsBare node.name) : node.reference.named = node.name := by
  induction node with
  | named name => exact TypeRef.named_of_name _ (bare_is_name name bare)
  | list of ih => exact (TypeRef.named_list of.reference).trans (ih bare)
  | nonNull of ih => exact (TypeRef.named_non_null of.reference).trans (ih bare)

theorem reference_marked (node : TypeNode) (bare : IsBare node.name) :
    node.reference.isNonNull = true ↔ ∃ inner, node = .nonNull inner := by
  cases node with
  | named name =>
      have nullable := TypeRef.name_nullable (named name).reference (bare_is_name name bare)
      exact iff_of_false (Bool.eq_false_iff.mp nullable) nofun
  | list of => exact iff_of_false (Bool.eq_false_iff.mp (TypeRef.list_nullable of.reference)) nofun
  | nonNull of =>
      refine iff_of_true ?_ ⟨of, rfl⟩
      exact beq_iff_eq.mpr (TypeRef.non_null_last of.reference)

-- No two types are written alike, since the last character tells a name, a list and a mark apart.
theorem reference_injective (node other : TypeNode) (bare : IsBare node.name) (clean : IsBare other.name)
    (same : node.reference = other.reference) : node = other := by
  induction node generalizing other with
  | named name =>
      have plain : other.reference.IsName := same ▸ bare_is_name name bare
      cases other with
      | named held => exact congrArg named (congrArg TypeRef.text same)
      | list of => exact absurd plain (TypeRef.list_not_name of.reference)
      | nonNull of => exact absurd plain (TypeRef.non_null_not_name of.reference)
  | list of ih =>
      cases other with
      | named held =>
          have plain : (list of).reference.IsName := (congrArg TypeRef.IsName same).mpr (bare_is_name held clean)
          exact absurd plain (TypeRef.list_not_name of.reference)
      | list inner => exact congrArg list (ih inner bare clean (TypeRef.list_injective _ _ same))
      | nonNull inner => exact absurd same (TypeRef.list_ne_non_null of.reference inner.reference)
  | nonNull of ih =>
      cases other with
      | named held =>
          have plain : (nonNull of).reference.IsName := (congrArg TypeRef.IsName same).mpr (bare_is_name held clean)
          exact absurd plain (TypeRef.non_null_not_name of.reference)
      | list inner => exact absurd same.symm (TypeRef.list_ne_non_null inner.reference of.reference)
      | nonNull inner => exact congrArg nonNull (ih inner bare clean (TypeRef.non_null_injective _ _ same))

end GraphQL.TypeNode

namespace FieldType

theorem node_name (keepNonNull : Bool) (name : String) (type : FieldType) : (type.node keepNonNull name).name = name := by
  induction type with
  | named _ => rfl
  | list of ih => exact ih
  | nonNull of ih => cases keepNonNull <;> exact ih

theorem node_unmarked (name : String) (type : FieldType) : type.node false name = (type.node true name).unmarked := by
  induction type with
  | named _ => rfl
  | list of ih => exact congrArg TypeNode.list ih
  | nonNull of ih => exact ih

theorem node_reads (name : String) (named : IsName name) (type : FieldType) (once : type.MarkedOnce) :
    Reader.typeNode (type.node true name).text.toList = some (type.node true name, []) := by
  have proper := ((type.node_proper name named).2 once).1
  refine Reader.type_node_reads _ proper _ [] ?_ nofun
  simpa using Reader.drop_type _ proper []

end FieldType

-- A type around a bare name is written as its wrappers are, no other type around a bare name is written so, and if the marks in
-- it do not follow each other it is read back. Without marks its lists are written. And however the reference is wrapped
-- further, it leads to the name, and it has a mark if its outermost wrapper is one.
theorem references_decode (type : FieldType) (name : String) (bare : IsBare name) :
    (type.wrap true ⟨name⟩).text = (type.node true name).text ∧
    (∀ node : TypeNode, IsBare node.name → node.text = (type.wrap true ⟨name⟩).text → node = type.node true name) ∧
    (type.MarkedOnce → IsName name →
      Reader.typeNode (type.wrap true ⟨name⟩).text.toList = some (type.node true name, [])) ∧
    (type.wrap false ⟨name⟩).text = (type.node true name).unmarked.text ∧
    ∀ (keepNonNull : Bool) (wrappers : List Wrapper),
      let node := (if keepNonNull then type.node true name else (type.node true name).unmarked).wrappedIn wrappers
      let reference := (type.wrap keepNonNull ⟨name⟩).wrappedIn wrappers
      reference.text = node.text ∧ reference.named = name ∧ (reference.isNonNull = true ↔ ∃ inner, node = .nonNull inner) := by
  have written (keepNonNull : Bool) : type.wrap keepNonNull ⟨name⟩ = (type.node keepNonNull name).reference :=
    congrArg TypeRef.mk (type.node_text keepNonNull name).symm
  refine ⟨congrArg TypeRef.text (written true), ?_, ?_, ?_, ?_⟩
  · intro node clean same
    rw [written] at same
    have known : IsBare (type.node true name).name := (type.node_name true name).symm ▸ bare
    exact TypeNode.reference_injective node _ clean known (congrArg TypeRef.mk same)
  · intro once named
    rw [written]
    exact type.node_reads name named once
  · rw [written, type.node_unmarked]
    rfl
  · intro keepNonNull wrappers node reference
    have chosen : (if keepNonNull then type.node true name else (type.node true name).unmarked) = type.node keepNonNull name := by
      cases keepNonNull with
      | true => rfl
      | false => exact (type.node_unmarked name).symm
    have leads : ((type.node keepNonNull name).wrappedIn wrappers).name = name :=
      (TypeNode.wrapped_name _ wrappers).trans (type.node_name keepNonNull name)
    have whole : node = (type.node keepNonNull name).wrappedIn wrappers := congrArg (·.wrappedIn wrappers) chosen
    have spelled : reference = node.reference := by
      rw [whole, TypeNode.wrapped_reference, ← written]
    have clean : IsBare node.name := whole ▸ leads.symm ▸ bare
    rw [spelled]
    exact ⟨rfl, (TypeNode.reference_named node clean).trans (whole ▸ leads), TypeNode.reference_marked node clean⟩

theorem tags_decode : IsBare "Tag Filter" ∧
    TypeRef.named ((FieldType.wrap true ⟨"Tag Filter"⟩ (.list (.nonNull (.scalar .string)))).wrappedIn [.nonNull, .list]) =
      "Tag Filter" ∧
    TypeRef.isNonNull ((FieldType.wrap true ⟨"Tag Filter"⟩ (.list (.nonNull (.scalar .string)))).wrappedIn [.list, .nonNull]) =
      true ∧
    (FieldType.wrap false ⟨"Tag Filter"⟩ (.list (.nonNull (.scalar .string)))).text = "[Tag Filter]" := by
  have bare : IsBare "Tag Filter" := by decide
  obtain ⟨_, _, _, lists, decodes⟩ := references_decode (.list (.nonNull (.scalar .string))) "Tag Filter" bare
  exact ⟨bare, (decodes true _).2.1, (decodes true _).2.2.mpr ⟨_, rfl⟩, lists⟩

end DocGraph
