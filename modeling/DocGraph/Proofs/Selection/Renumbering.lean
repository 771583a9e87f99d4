import DocGraph.Proofs.Outcome
import DocGraph.Proofs.Schema.Renumbering
import DocGraph.Selection.Collect

set_option autoImplicit false

namespace DocGraph

variable (numbers : Renumbering)

namespace SelectionTree

def renumber : SelectionTree → SelectionTree
  | .nil => .nil
  | .leaf field rest => .leaf (field.renumber numbers) rest.renumber
  | .object field selection rest => .object (field.renumber numbers) selection.renumber rest.renumber

@[simp] theorem is_empty_renumber (tree : SelectionTree) : (tree.renumber numbers).isEmpty = tree.isEmpty := by
  cases tree <;> rfl

theorem put_leaf_renumber (field : Field) (tree : SelectionTree) :
    (tree.renumber numbers).putLeaf (field.renumber numbers) = (tree.putLeaf field).renumber numbers := by
  induction tree with
  | nil => rfl
  | leaf held rest ih =>
      by_cases same : held.name = field.name
      · simp [renumber, putLeaf, same]
      · simp [renumber, putLeaf, same, ih]
  | object held selection rest _ ih =>
      by_cases same : held.name = field.name
      · simp [renumber, putLeaf, same]
      · simp [renumber, putLeaf, same, ih]

theorem put_object_renumber (field : Field) (selection tree : SelectionTree)
    (before after : SelectionTree → SelectionTree)
    (same : ∀ inner, after (inner.renumber numbers) = (before inner).renumber numbers) :
    putObject (field.renumber numbers) (selection.renumber numbers) after (tree.renumber numbers) =
      (putObject field selection before tree).renumber numbers := by
  induction tree with
  | nil => rfl
  | leaf held rest ih =>
      by_cases hit : held.name = field.name
      · simp [renumber, putObject, hit]
      · simp [renumber, putObject, hit, ih]
  | object held inner rest _ ih =>
      by_cases hit : held.name = field.name
      · simp [renumber, putObject, hit, same]
      · simp [renumber, putObject, hit, ih]

theorem merge_renumber (tree added : SelectionTree) :
    (tree.renumber numbers).merge (added.renumber numbers) = (tree.merge added).renumber numbers := by
  induction added generalizing tree with
  | nil => rfl
  | leaf field rest ih =>
      rw [renumber, merge, merge, put_leaf_renumber, ih]
  | object field selection rest inner ih =>
      rw [renumber, merge, merge, put_object_renumber numbers field selection tree (fun held => held.merge selection)
        (fun held => held.merge (selection.renumber numbers)) (fun held => inner held), ih]

end SelectionTree

namespace Selection

open GraphQL

def Collected.renumber (known : Collected) : Collected :=
  known.map (fun entry => ((entry.1.1, numbers.composite entry.1.2), entry.2.renumber numbers))

theorem collected_renumber (known : Collected) (fragment : String) (type : CompositeIndex) :
    collected? (Collected.renumber numbers known) fragment (numbers.composite type) =
      (collected? known fragment type).map (SelectionTree.renumber numbers) := by
  have hits (entry : (String × CompositeIndex) × SelectionTree) :
      ((entry.1.1, numbers.composite entry.1.2) == (fragment, numbers.composite type)) = (entry.1 == (fragment, type)) := by
    rw [Bool.eq_iff_iff, beq_iff_eq, beq_iff_eq, Prod.ext_iff, Prod.ext_iff]
    simp only [numbers.composite_inj]
  unfold collected? Collected.renumber
  rw [List.find?_map, Option.map_map, Option.map_map]
  simp only [Function.comp_def, hits]

def renumberBoth (result : SelectionTree × Collected) : SelectionTree × Collected :=
  (result.1.renumber numbers, Collected.renumber numbers result.2)

def Follows (before after : Spread) : Prop :=
  ∀ name type known, after name (numbers.composite type) (Collected.renumber numbers known) =
    (before name type known).map (renumberBoth numbers)

variable (schema other : Schema) (renumbers : Schema.Renumbers numbers schema other) (apart : other.NamesApart)

include renumbers apart

theorem target_renumbered (type : CompositeIndex) (condition : Option String) :
    target other (numbers.composite type) condition = numbers.composite (target schema type condition) := by
  unfold target
  cases condition with
  | none => rfl
  | some name =>
      rw [Option.bind_some, Option.bind_some, Schema.renumbered_composite_named numbers schema other renumbers apart name]
      cases schema.compositeNamed? name <;> rfl

theorem collect_renumbered (before after : Spread) (follows : Follows numbers before after) (selections : SelectionSet) :
    ∀ type tree known, collect other after (numbers.composite type) selections (tree.renumber numbers)
        (Collected.renumber numbers known) =
      (collect schema before type selections tree known).map (renumberBoth numbers) := by
  induction selections with
  | nil => exact fun _ _ _ => rfl
  | field responseKey name arguments directives selections rest inner ih =>
      intro type tree known
      by_cases introspects : isIntrospective name = true
      · simpa only [collect, if_pos introspects] using ih type tree known
      · simp only [collect, if_neg introspects, Schema.renumbered_composite numbers schema other renumbers type]
        cases schema.composite type with
        | error error => rfl
        | ok composite =>
            simp only [bind, Except.bind, Except.map, Composite.field_renumber]
            cases composite.field name with
            | error error => rfl
            | ok field =>
                simp only [Field.type_renumber, FieldType.composite_renumber]
                cases field.type.composite? with
                | none =>
                    simp only [Option.map_none, SelectionTree.put_leaf_renumber]
                    exact ih type _ known
                | some nested =>
                    simp only [Option.map_some, SelectionTree.put_leaf_renumber]
                    by_cases leaf : selections.isEmpty = true
                    · rw [if_pos leaf, if_pos leaf]
                      exact ih type _ known
                    · rw [if_neg leaf, if_neg leaf, Schema.renumbered_composite numbers schema other renumbers nested]
                      cases schema.composite nested with
                      | error error => rfl
                      | ok target =>
                          have deeper := inner nested .nil known
                          simp only [SelectionTree.renumber] at deeper
                          simp only [Except.map] at deeper ⊢
                          rw [deeper]
                          cases collect schema before nested selections .nil known with
                          | error error => rfl
                          | ok result =>
                              obtain ⟨found, known⟩ := result
                              have joined := SelectionTree.put_object_renumber numbers field found tree
                                (fun held => held.merge found) (fun held => held.merge (found.renumber numbers))
                                (fun held => SelectionTree.merge_renumber numbers held found)
                              simp only [renumberBoth, joined]
                              exact ih type _ known
  | inline condition directives selections rest inner ih =>
      intro type tree known
      simp only [collect, target_renumbered numbers schema other renumbers apart,
        Schema.renumbered_composite numbers schema other renumbers]
      cases schema.composite (target schema type condition) with
      | error error => rfl
      | ok applied =>
          have deeper := inner (target schema type condition) .nil known
          simp only [SelectionTree.renumber] at deeper
          simp only [bind, Except.bind, Except.map] at deeper ⊢
          rw [deeper]
          cases collect schema before (target schema type condition) selections .nil known with
          | error error => rfl
          | ok result =>
              obtain ⟨found, known⟩ := result
              simp only [renumberBoth, SelectionTree.merge_renumber]
              exact ih type _ known
  | spread fragment directives rest ih =>
      intro type tree known
      simp only [collect, follows fragment type known]
      cases before fragment type known with
      | error error => rfl
      | ok result =>
          obtain ⟨found, known⟩ := result
          simp only [bind, Except.bind, Except.map, renumberBoth, SelectionTree.merge_renumber]
          exact ih type _ known

theorem fragment_renumbered (request : Request) (bound : Nat) : ∀ active,
    Follows numbers (collectFragment schema request bound active) (collectFragment other request bound active) := by
  induction bound with
  | zero =>
      intro active name type known
      rw [collectFragment, collectFragment]
      cases request.fragment? name with
      | none => rfl
      | some fragment =>
          simp only [target_renumbered numbers schema other renumbers apart, collected_renumber]
          cases collected? known name (target schema type (some fragment.condition)) with
          | some tree => rfl
          | none => cases active.contains name <;> rfl
  | succ bound ih =>
      intro active name type known
      rw [collectFragment, collectFragment]
      cases request.fragment? name with
      | none => rfl
      | some fragment =>
          simp only [target_renumbered numbers schema other renumbers apart, collected_renumber]
          cases collected? known name (target schema type (some fragment.condition)) with
          | some tree => rfl
          | none =>
              cases active.contains name with
              | true => rfl
              | false =>
                  have inside := collect_renumbered numbers schema other renumbers apart _ _ (ih (name :: active))
                    fragment.selections (target schema type (some fragment.condition)) .nil known
                  simp only [Bool.false_eq_true, if_false, Option.map_none,
                    Schema.renumbered_composite numbers schema other renumbers]
                  cases schema.composite (target schema type (some fragment.condition)) with
                  | error error => rfl
                  | ok applied =>
                      simp only [SelectionTree.renumber] at inside
                      simp only [bind, Except.bind, Except.map] at inside ⊢
                      rw [inside]
                      cases collect schema (collectFragment schema request bound (name :: active))
                          (target schema type (some fragment.condition)) fragment.selections .nil known with
                      | error error => rfl
                      | ok result => simp [renumberBoth, Collected.renumber, pure, Except.pure]

theorem collect_all_renumbered (before after : Spread) (follows : Follows numbers before after) (type : CompositeIndex)
    (sets : List SelectionSet) : ∀ tree known,
      collectAll other after (numbers.composite type) sets (tree.renumber numbers) (Collected.renumber numbers known) =
        (collectAll schema before type sets tree known).map (SelectionTree.renumber numbers) := by
  induction sets with
  | nil => exact fun _ _ => rfl
  | cons selections rest ih =>
      intro tree known
      simp only [collectAll, Schema.renumbered_composite numbers schema other renumbers]
      cases schema.composite type with
      | error error => rfl
      | ok composite =>
          have first := collect_renumbered numbers schema other renumbers apart before after follows selections type .nil known
          simp only [SelectionTree.renumber] at first
          simp only [bind, Except.bind, Except.map] at first ⊢
          rw [first]
          cases collect schema before type selections .nil known with
          | error error => rfl
          | ok result =>
              obtain ⟨found, known⟩ := result
              simp only [renumberBoth, SelectionTree.merge_renumber]
              exact ih _ known

theorem tree_renumbered (type : CompositeIndex) (request : Request) (key : String) :
    tree other (numbers.composite type) request key =
      (tree schema type request key).map (SelectionTree.renumber numbers) :=
  collect_all_renumbered numbers schema other renumbers apart _ _
    (fragment_renumbered numbers schema other renumbers apart request request.fragments.length []) type
    (request.answering key) .nil []

end Selection

end DocGraph
