import DocGraph.Proofs.Projection.Paths
import DocGraph.Proofs.Selection.Nodes
import DocGraph.Proofs.Selection.TypeConditions

set_option autoImplicit false

namespace DocGraph

open GraphQL

namespace Projection

open SelectionTree

theorem paths_same (computed : FieldTest) (excluded : List String) (tree other : SelectionTree)
    (same : ∀ node, node ∈ tree.nodes ↔ node ∈ other.nodes) (path : String) :
    (path ∈ storedPaths computed excluded "" tree ↔ path ∈ storedPaths computed excluded "" other) ∧
      (path ∈ paths computed excluded tree ↔ path ∈ paths computed excluded other) := by
  have stored (path : String) :
      path ∈ requestedPaths computed excluded tree ↔ path ∈ requestedPaths computed excluded other := by
    simp only [requestedPaths, List.mem_map, List.mem_filter, same]
  have declared (path : String) : path ∈ declaredPaths computed tree ↔ path ∈ declaredPaths computed other := by
    simp only [declaredPaths, List.mem_flatMap, List.mem_filter, same]
  rw [stored_nodes, stored_nodes, paths_demanded, paths_demanded, mem_minimal, mem_minimal]
  refine ⟨stored path, ?_⟩
  simp only [demanded, List.mem_append, stored, declared]

def Built (schema : Schema) (type : CompositeIndex) (tree : SelectionTree) : Prop :=
  ∃ request key, Selection.tree schema type request key = .ok tree

theorem merging_absorbs (schema : Schema) (type : CompositeIndex) :
    (∀ tree middle other : SelectionTree, Built schema type tree → Built schema type middle → Built schema type other →
      (tree.merge middle).merge other = tree.merge (middle.merge other) ∧ tree.merge tree = tree ∧
      ∀ path, ((tree.merge other).IsLeaf path ↔
          (tree.IsLeaf path ∨ other.IsLeaf path) ∧ tree.Uncovered path ∧ other.Uncovered path) ∧
        ((tree.merge other).IsInner path ↔ (tree.IsNode path ∨ other.IsNode path) ∧
          ¬ tree.IsLeaf path ∧ ¬ other.IsLeaf path ∧ tree.Uncovered path ∧ other.Uncovered path)) ∧
    ∀ request other key tree, request.Acyclic → Rearranged request other → Selection.tree schema type request key = .ok tree →
      ∃ after, Selection.tree schema type other key = .ok after ∧ Similar tree after ∧
        (Selection.KeepsTypes schema request type key → ∀ computed excluded path,
          (path ∈ storedPaths computed excluded "" tree ↔ path ∈ storedPaths computed excluded "" after) ∧
            (path ∈ paths computed excluded tree ↔ path ∈ paths computed excluded after)) := by
  have distinct (tree : SelectionTree) (built : Built schema type tree) : tree.Distinct := by
    obtain ⟨request, key, made⟩ := built
    exact Selection.tree_distinct schema type request key tree made
  constructor
  · intro tree middle other first second third
    refine ⟨merge_assoc tree middle other (distinct _ first) (distinct _ second) (distinct _ third),
      merge_self tree (distinct _ first), fun path => ?_⟩
    exact ⟨leaf_merge path tree other (distinct _ third), inner_merge path tree other (distinct _ third)⟩
  · intro request other key tree acyclic same made
    have alike := Selection.tree_alike schema request other acyclic same type key
    rw [made] at alike
    generalize result : Selection.tree schema type other key = ended at alike
    cases alike with
    | makes _ after here there similar =>
        refine ⟨after, rfl, similar, fun keeps computed excluded path => ?_⟩
        have still := rearranged_acyclic request other same acyclic
        have traced := Selection.tree_leads schema request acyclic type key keeps tree made
        have follows := Selection.tree_leads schema other still type key
          (Selection.rearranged_keeps schema request other same type key keeps) after result
        have determined : Determined (fun names field _ => Selection.Leads schema type names field) :=
          fun names field other _ _ same => Selection.leads_unique schema field other same names type
        have back : Similar after tree := fun path => ⟨(similar path).1.symm, (similar path).2.symm⟩
        refine paths_same computed excluded tree after (fun node => ⟨?_, ?_⟩) path
        · exact fun member => nodes_subset tree after _ determined here there traced follows similar member
        · exact fun member => nodes_subset after tree _ determined there here follows traced back member

theorem folders_keep_types (request : Request) (type : CompositeIndex) (selections : SelectionSet)
    (changes : Selection.Changes Selection.folders request type selections) : type ≠ ⟨0⟩ := by
  have stays (condition : Option String) : Selection.target Selection.folders ⟨0⟩ condition = ⟨0⟩ := by
    cases condition with
    | none => rfl
    | some name =>
        by_cases named : "Folder" = name
        · subst named
          rfl
        · simp [Selection.target, Selection.folders, Schema.compositeNamed?, named]
  induction changes with
  | inline type condition _ _ _ other => exact fun root => other (root ▸ stays condition)
  | spread type _ _ _ fragment _ other => exact fun root => other (root ▸ stays (some fragment.condition))
  | inField type nested _ name _ _ _ _ enters _ ih =>
      rintro rfl
      obtain ⟨composite, field, found, declared, leads⟩ := enters
      cases found
      have listed := (Composite.name_of_field?_eq_some declared).2
      simp only [List.mem_cons, List.not_mem_nil, or_false] at listed
      obtain rfl | rfl | rfl := listed
      · cases leads
      · cases leads
      · exact ih (Option.some.inj leads).symm
  | inInline type condition _ _ _ _ ih => exact fun root => ih (root ▸ stays condition)
  | inSpread type _ _ _ fragment _ _ ih => exact fun root => ih (root ▸ stays (some fragment.condition))
  | afterField _ _ _ _ _ _ _ _ ih => exact ih
  | afterInline _ _ _ _ _ _ ih => exact ih
  | afterSpread _ _ _ _ _ ih => exact ih

theorem folders_rearranged (first second names sizes : SelectionSet) (same : Rearranges first second) :
    Rearranged (Selection.foldersRequest first names sizes) (Selection.foldersRequest second names sizes) where
  roots := .inField none "folders" [] [] first second same
  fragments name := by
    cases found : (Selection.foldersRequest first names sizes).fragment? name with
    | none => exact found.symm ▸ .none
    | some fragment => exact found.symm ▸ .some ⟨rfl, .refl _⟩

def rearrangedRequest : Request :=
  Selection.foldersRequest (Selection.asking "parent" (Selection.spreading "sizes" (Selection.spreading "names" .nil))
      (Selection.spreading "lost" (Selection.spreading "names" .nil)))
    (Selection.asking "name" .nil (Selection.spreading "sizes" .nil)) (Selection.asking "size" .nil .nil)

def rearrangedTree : SelectionTree :=
  .object Selection.parentField (.leaf Selection.sizeField (.leaf Selection.nameField .nil))
    (.leaf Selection.nameField (.leaf Selection.sizeField .nil))

theorem nested_request_rearranged :
    (Selection.nestedTree.merge rearrangedTree).merge Selection.nestedTree =
        Selection.nestedTree.merge (rearrangedTree.merge Selection.nestedTree) ∧
      Selection.nestedTree.merge Selection.nestedTree = Selection.nestedTree ∧
      ∃ after, Selection.tree Selection.folders ⟨0⟩ rearrangedRequest "folders" = .ok after ∧
        Similar Selection.nestedTree after ∧ ∀ path,
          path ∈ paths Field.isComputed ["name"] Selection.nestedTree ↔ path ∈ paths Field.isComputed ["name"] after := by
  have made : Selection.tree Selection.folders ⟨0⟩ Selection.nestedRequest "folders" = .ok Selection.nestedTree :=
    (except_option_ok _ _).mp (by decide +kernel)
  have again : Selection.tree Selection.folders ⟨0⟩ rearrangedRequest "folders" = .ok rearrangedTree :=
    (except_option_ok _ _).mp (by decide +kernel)
  obtain ⟨laws, rearranges⟩ := merging_absorbs Selection.folders ⟨0⟩
  obtain ⟨assoc, itself, _⟩ := laws _ _ _ ⟨_, _, made⟩ ⟨_, _, again⟩ ⟨_, _, made⟩
  have permuted : Rearranged Selection.nestedRequest rearrangedRequest :=
    folders_rearranged _ _ _ _ (.permuted (Selection.spreading "names" .nil) _)
  obtain ⟨after, ends, similar, same⟩ := rearranges _ _ _ _ Selection.nested_request_acyclic permuted made
  have keeps : Selection.KeepsTypes Selection.folders Selection.nestedRequest ⟨0⟩ "folders" :=
    fun selections _ changes => folders_keep_types _ _ selections changes rfl
  exact ⟨assoc, itself, after, ends, similar, fun path => (same keeps Field.isComputed ["name"] path).2⟩

def foldersInCycle (selections : SelectionSet) : Request :=
  Selection.foldersRequest selections (Selection.asking "name" .nil (Selection.spreading "sizes" .nil))
    (Selection.asking "size" .nil (Selection.spreading "names" .nil))

def cyclicRequest : Request :=
  foldersInCycle (Selection.spreading "names" (Selection.asking "parent" (Selection.spreading "sizes" .nil) .nil))

def permutedRequest : Request :=
  foldersInCycle (Selection.asking "parent" (Selection.spreading "sizes" .nil) (Selection.spreading "names" .nil))

-- Which fragment is met first decides what is left of the other where it is spread again.
theorem permuted_cycle_differs :
    Rearranged cyclicRequest permutedRequest ∧ Selection.KeepsTypes Selection.folders cyclicRequest ⟨0⟩ "folders" ∧
      ∃ tree after, Selection.tree Selection.folders ⟨0⟩ cyclicRequest "folders" = .ok tree ∧
        Selection.tree Selection.folders ⟨0⟩ permutedRequest "folders" = .ok after ∧
        tree.IsNode ["size"] ∧ ¬ after.IsNode ["size"] ∧
        "size" ∈ paths Field.isComputed [] tree ∧ "size" ∉ paths Field.isComputed [] after := by
  have made : Selection.tree Selection.folders ⟨0⟩ cyclicRequest "folders" = .ok (.leaf Selection.nameField
      (.leaf Selection.sizeField (.object Selection.parentField (.leaf Selection.sizeField .nil) .nil))) :=
    (except_option_ok _ _).mp (by decide +kernel)
  have again : Selection.tree Selection.folders ⟨0⟩ permutedRequest "folders" = .ok (.object Selection.parentField
      (.leaf Selection.sizeField (.leaf Selection.nameField .nil)) (.leaf Selection.nameField .nil)) :=
    (except_option_ok _ _).mp (by decide +kernel)
  refine ⟨folders_rearranged _ _ _ _ (.permuted (Selection.spreading "names" .nil) _), ?_, _, _, made, again, ?_, ?_, ?_, ?_⟩
  · exact fun selections _ changes => folders_keep_types _ _ selections changes rfl
  · simp [IsNode, IsLeaf, find?, Selection.nameField, Selection.sizeField]
  · simp [IsNode, IsLeaf, IsInner, find?, Selection.nameField, Selection.parentField]
  · decide
  · decide

end Projection

end DocGraph
