import DocGraph.Projection
import DocGraph.Proofs.Selection.Renumbering

set_option autoImplicit false

namespace DocGraph.Projection

variable (numbers : Renumbering) (computed : FieldTest)

theorem stored_paths_renumber (tree : SelectionTree) : ∀ excluded path,
    storedPaths computed excluded path (tree.renumber numbers) =
      storedPaths (fun field => computed (field.renumber numbers)) excluded path tree := by
  induction tree with
  | nil => exact fun _ _ => rfl
  | leaf field rest ih =>
      intro excluded path
      simp only [SelectionTree.renumber, storedPaths, ih, Field.name_renumber]
  | object field selection rest inner ih =>
      intro excluded path
      simp only [SelectionTree.renumber, storedPaths, ih, inner, Field.name_renumber, SelectionTree.is_empty_renumber]

theorem computed_paths_renumber (tree : SelectionTree) : ∀ path,
    computedPaths computed path (tree.renumber numbers) =
      computedPaths (fun field => computed (field.renumber numbers)) path tree := by
  induction tree with
  | nil => exact fun _ => rfl
  | leaf field rest ih =>
      intro path
      simp only [SelectionTree.renumber, computedPaths, ih, dependenciesAt, Field.dependencies_renumber]
  | object field selection rest inner ih =>
      intro path
      simp only [SelectionTree.renumber, computedPaths, ih, inner, dependenciesAt, Field.dependencies_renumber,
        Field.name_renumber]

theorem undeclared_readers_renumber (tree : SelectionTree) :
    undeclaredReaders computed (tree.renumber numbers) =
      undeclaredReaders (fun field => computed (field.renumber numbers)) tree := by
  induction tree with
  | nil => rfl
  | leaf field rest ih => simp only [SelectionTree.renumber, undeclaredReaders, ih, Field.reads_undeclared_renumber,
      Field.name_renumber]
  | object field selection rest _ ih => simp only [SelectionTree.renumber, undeclaredReaders, ih,
      Field.reads_undeclared_renumber, Field.name_renumber]

theorem paths_renumber (excluded : List String) (tree : SelectionTree) :
    paths computed excluded (tree.renumber numbers) =
      paths (fun field => computed (field.renumber numbers)) excluded tree := by
  simp only [paths, stored_paths_renumber, computed_paths_renumber]

variable (schema other : Schema) (renumbers : Schema.Renumbers numbers schema other)

include renumbers

theorem notice_renumbered (type : CompositeIndex) (tree : SelectionTree) :
    noticeFor other computed (numbers.composite type) (tree.renumber numbers) =
      noticeFor schema (fun field => computed (field.renumber numbers)) type tree := by
  simp only [noticeFor, undeclared_readers_renumber, Schema.renumbered_composite numbers schema other renumbers,
    Outcome.lift_map_bind, Composite.name_renumber]

theorem notices_below_renumbered (tree : SelectionTree) :
    noticesBelow other computed (tree.renumber numbers) =
      noticesBelow schema (fun field => computed (field.renumber numbers)) tree := by
  induction tree with
  | nil => rfl
  | leaf field rest ih => exact ih
  | object field selection rest inner ih =>
      simp only [SelectionTree.renumber, noticesBelow, ih, inner, Field.type_renumber, FieldType.composite_renumber]
      cases field.type.composite? with
      | none => rfl
      | some type =>
          simp only [Option.map_some, notice_renumbered numbers computed schema other renumbers]

theorem document_renumbered (apart : other.NamesApart) (type : CompositeIndex) (request : GraphQL.Request) (key : String)
    (excluded : List String) :
    document other (numbers.composite type) request key excluded computed =
      document schema type request key excluded (fun field => computed (field.renumber numbers)) := by
  unfold document
  simp only [Selection.tree_renumbered numbers schema other renumbers apart, Outcome.lift_map_bind,
    notice_renumbered numbers computed schema other renumbers, notices_below_renumbered numbers computed schema other renumbers,
    paths_renumber]

end DocGraph.Projection
