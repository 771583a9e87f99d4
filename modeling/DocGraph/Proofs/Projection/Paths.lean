import DocGraph.Proofs.Outcome
import DocGraph.Proofs.Projection.Cover
import DocGraph.Proofs.Selection.Tree

set_option autoImplicit false

namespace DocGraph

namespace Node

def isProjected (computed : FieldTest) (excluded : List String) (node : Node) : Bool :=
  node.whole && node.chain.all (fun field => !computed field) && !excluded.contains node.root.name

def isResolved (computed : FieldTest) (node : Node) : Bool :=
  node.above.all (fun field => !computed field) && computed node.field

theorem projected_within (computed : FieldTest) (excluded : List String) (field : Field) (node : Node) :
    (node.within field).isProjected computed excluded =
      (!(excluded.contains field.name || computed field) && node.isProjected computed []) := by
  simp only [isProjected, within, chain, root, List.cons_append, List.all_cons, List.headD_cons,
    List.contains_nil, Bool.not_false, Bool.and_true, Bool.not_or]
  ac_rfl

theorem resolved_within (computed : FieldTest) (field : Field) (node : Node) :
    (node.within field).isResolved computed = (!computed field && node.isResolved computed) := by
  simp only [isResolved, within, List.all_cons]
  ac_rfl

end Node

namespace Projection

open DotPath

def pathOf (base : String) (fields : List Field) : String := (fields.map Field.name).foldl under base

def requestedPaths (computed : FieldTest) (excluded : List String) (tree : SelectionTree) : List String :=
  (tree.nodes.filter (Node.isProjected computed excluded)).map (fun node => pathOf "" node.chain)

def declaredPaths (computed : FieldTest) (tree : SelectionTree) : List String :=
  (tree.nodes.filter (Node.isResolved computed)).flatMap (fun node => dependenciesAt (pathOf "" node.above) node.field)

def demanded (computed : FieldTest) (excluded : List String) (tree : SelectionTree) : List String :=
  requestedPaths computed excluded tree ++ declaredPaths computed tree

theorem stored_nodes (computed : FieldTest) (tree : SelectionTree) : ∀ (excluded : List String) (path : String),
    storedPaths computed excluded path tree =
      (tree.nodes.filter (Node.isProjected computed excluded)).map (fun node => pathOf path node.chain) := by
  induction tree with
  | nil => exact fun _ _ => rfl
  | leaf field rest ih =>
      intro excluded path
      have itself : Node.isProjected computed excluded ⟨[], field, true⟩ =
          !(excluded.contains field.name || computed field) := by
        simp [Node.isProjected, Node.chain, Node.root, Bool.and_comm]
      rw [storedPaths, SelectionTree.nodes, List.filter_cons, itself, ih]
      cases excluded.contains field.name || computed field <;> rfl
  | object field selection rest inner ih =>
      intro excluded path
      have itself : Node.isProjected computed excluded ⟨[], field, selection.isEmpty⟩ =
          (selection.isEmpty && !(excluded.contains field.name || computed field)) := by
        simp only [Node.isProjected, Node.chain, Node.root, List.nil_append, List.all_cons, List.all_nil, Bool.and_true,
          List.headD_nil, Bool.not_or]
        ac_rfl
      have below : (selection.nodes.map (Node.within field)).filter (Node.isProjected computed excluded) =
          if excluded.contains field.name || computed field then []
          else (selection.nodes.filter (Node.isProjected computed [])).map (Node.within field) := by
        rw [List.filter_map]
        have each : Node.isProjected computed excluded ∘ Node.within field = fun node =>
            !(excluded.contains field.name || computed field) && node.isProjected computed [] :=
          funext (Node.projected_within computed excluded field)
        rw [each]
        cases excluded.contains field.name || computed field <;> simp
      rw [storedPaths, SelectionTree.nodes, List.filter_cons, itself, List.filter_append, below, ih]
      cases excluded.contains field.name || computed field with
      | true => simp
      | false =>
          cases empty : selection.isEmpty with
          | true =>
              cases selection with
              | nil => rfl
              | _ => cases empty
          | false =>
              simp only [inner, List.map_append, List.map_map, Bool.false_eq_true, Bool.false_and, if_false]
              rfl

theorem computed_nodes (computed : FieldTest) (tree : SelectionTree) : ∀ path : String,
    computedPaths computed path tree =
      (tree.nodes.filter (Node.isResolved computed)).flatMap
        (fun node => dependenciesAt (pathOf path node.above) node.field) := by
  induction tree with
  | nil => exact fun _ => rfl
  | leaf field rest ih =>
      intro path
      have itself : Node.isResolved computed ⟨[], field, true⟩ = computed field := rfl
      rw [computedPaths, SelectionTree.nodes, List.filter_cons, itself, ih]
      cases computed field <;> rfl
  | object field selection rest inner ih =>
      intro path
      have itself : Node.isResolved computed ⟨[], field, selection.isEmpty⟩ = computed field := rfl
      have below : (selection.nodes.map (Node.within field)).filter (Node.isResolved computed) =
          if computed field then []
          else (selection.nodes.filter (Node.isResolved computed)).map (Node.within field) := by
        rw [List.filter_map]
        have each : Node.isResolved computed ∘ Node.within field = fun node =>
            !computed field && node.isResolved computed :=
          funext (Node.resolved_within computed field)
        rw [each]
        cases computed field <;> simp
      rw [computedPaths, SelectionTree.nodes, List.filter_cons, itself, List.filter_append, below, ih]
      cases computed field with
      | true => rfl
      | false =>
          simp only [inner, List.flatMap_append, List.flatMap_map, Bool.false_eq_true, if_false]
          rfl

theorem paths_demanded (computed : FieldTest) (excluded : List String) (tree : SelectionTree) :
    paths computed excluded tree = minimal (demanded computed excluded tree) := by
  rw [paths_minimal, stored_nodes, computed_nodes]
  rfl

theorem document_ok (schema : Schema) (type : CompositeIndex) (request : GraphQL.Request) (key : String)
    (excluded : List String) (computed : FieldTest) (projection : Members)
    (made : (document schema type request key excluded computed).result = .ok projection) :
    ∃ tree, Selection.tree schema type request key = .ok tree ∧
      projection = (paths computed excluded tree).map (fun path => (path, Json.int 1)) := by
  obtain ⟨tree, read, later⟩ := (Outcome.result_bind _ _ _).mp made
  obtain ⟨_, _, later⟩ := (Outcome.result_bind _ _ _).mp later
  obtain ⟨_, _, whole⟩ := (Outcome.result_bind _ _ _).mp later
  exact ⟨tree, read, ((Outcome.result_pure _ _).mp whole).symm⟩

theorem document_keys (schema : Schema) (type : CompositeIndex) (request : GraphQL.Request) (key : String)
    (excluded : List String) (computed : FieldTest) (projection : Members)
    (made : (document schema type request key excluded computed).result = .ok projection) :
    ∃ tree, Selection.tree schema type request key = .ok tree ∧
      projection.keys = minimal (demanded computed excluded tree) := by
  obtain ⟨tree, read, same⟩ := document_ok schema type request key excluded computed projection made
  refine ⟨tree, read, ?_⟩
  rw [same, paths_demanded, Members.keys, List.map_map]
  exact List.map_id' _

theorem minimal_ancestors (paths : List String) : minimal paths =
    (firsts paths).filter (fun path => decide (∀ other ∈ paths, ¬ Ancestor other path)) := by
  refine List.filter_congr (fun path _ => ?_)
  rw [Bool.eq_iff_iff]
  simp only [Bool.not_eq_true', List.any_eq_false, decide_eq_true_eq]
  exact forall₂_congr (fun other _ => not_congr (below_iff_ancestor path other))

theorem minimal_apart (paths : List String) : (minimal paths).Pairwise Apart := by
  have distinct : (minimal paths).Nodup := (nodup_firsts paths).filter _
  refine List.Pairwise.imp_of_mem ?_ distinct
  intro path other here there different
  obtain ⟨member, top⟩ := (mem_minimal path paths).mp here
  obtain ⟨listed, above⟩ := (mem_minimal other paths).mp there
  exact ⟨different, top other listed, above path member⟩

theorem projection_minimal_cover (schema : Schema) (type : CompositeIndex) (request : GraphQL.Request) (key : String)
    (excluded : List String) (computed : FieldTest) (projection : Members)
    (made : (document schema type request key excluded computed).result = .ok projection) :
    ∃ tree, Selection.tree schema type request key = .ok tree ∧
      projection = ((firsts (demanded computed excluded tree)).filter
        (fun path => decide (∀ other ∈ demanded computed excluded tree, ¬ Ancestor other path))).map
          (fun path => (path, Json.int 1)) ∧
      projection.keys.Pairwise Apart ∧
      ∀ path ∈ demanded computed excluded tree, ∃ held ∈ projection.keys, held = path ∨ Ancestor held path := by
  obtain ⟨tree, read, same⟩ := document_ok schema type request key excluded computed projection made
  rw [paths_demanded] at same
  have keys : projection.keys = minimal (demanded computed excluded tree) := by
    rw [same, Members.keys, List.map_map]
    exact List.map_id' _
  refine ⟨tree, read, minimal_ancestors _ ▸ same, keys ▸ minimal_apart _, ?_⟩
  intro path member
  obtain ⟨held, stays, upper⟩ := (covered_iff _ path).mp (covered_of_mem _ path member)
  exact ⟨held, keys ▸ stays, upper.imp id (below_iff_ancestor path held).mp⟩

def memberSchema : Schema where
  composites := [
    { name := "Member", kind := .object, fields := [
      { name := "_id", type := .scalar .id },
      { name := "name", type := .scalar .string },
      { name := "address", type := .named (.composite .object ⟨1⟩) },
      { name := "contact", type := .named (.composite .object ⟨2⟩) },
      { name := "label", type := .scalar .string, origin := .computed (some ["address", "name"]) }] },
    { name := "Address", kind := .object, fields := [{ name := "city", type := .scalar .string }] },
    { name := "Contact", kind := .object, fields := [
      { name := "card", type := .scalar .string, origin := .computed (some ["phone", "mail.home"]) }] }]

def asking (fields : List (String × GraphQL.SelectionSet)) : GraphQL.SelectionSet :=
  fields.foldr (fun field rest => .field none field.1 [] [] field.2 rest) .nil

def querying (key : String) (selections : GraphQL.SelectionSet) : GraphQL.Request where
  operations := [{
    kind := .query
    name := none
    variableDefinitions := []
    directives := []
    selections := asking [(key, selections)] }]
  fragments := []

def memberRequest : GraphQL.Request :=
  querying "members" (asking [("_id", .nil), ("name", .nil), ("address", asking [("city", .nil)]),
    ("contact", asking [("card", .nil)]), ("label", .nil)])

theorem member_projection :
    (document memberSchema ⟨0⟩ memberRequest "members" ["_id"] Field.isComputed).result =
      .ok (["name", "contact.phone", "contact.mail.home", "address"].map (fun path => (path, Json.int 1))) ∧
    ["name", "contact.phone", "contact.mail.home", "address"].Pairwise Apart ∧
    ∀ path ∈ ["name", "address.city", "contact.phone", "contact.mail.home", "address", "name"],
      ∃ held ∈ ["name", "contact.phone", "contact.mail.home", "address"], held = path ∨ Ancestor held path := by
  have made : (document memberSchema ⟨0⟩ memberRequest "members" ["_id"] Field.isComputed).result =
      .ok (["name", "contact.phone", "contact.mail.home", "address"].map (fun path => (path, Json.int 1))) := rfl
  obtain ⟨tree, read, cover⟩ := projection_minimal_cover memberSchema ⟨0⟩ memberRequest "members" ["_id"] Field.isComputed _ made
  cases read
  obtain ⟨_, apart, covers⟩ := cover
  exact ⟨made, apart, covers⟩

end Projection

end DocGraph
