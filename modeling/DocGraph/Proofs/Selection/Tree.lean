import DocGraph.Selection.Tree

set_option autoImplicit false

namespace DocGraph

/-- A field that is asked for, the fields that lead to it, and whether all of it is asked for. -/
structure Node where
  above : List Field
  field : Field
  whole : Bool

namespace Node

def chain (node : Node) : List Field := node.above ++ [node.field]

def root (node : Node) : Field := node.above.headD node.field

def within (field : Field) (node : Node) : Node := { node with above := field :: node.above }

def names (node : Node) : List String := node.chain.map Field.name

end Node

def SelectionTree.nodes : SelectionTree → List Node
  | .nil => []
  | .leaf field rest => ⟨[], field, true⟩ :: rest.nodes
  | .object field selection rest =>
      ⟨[], field, selection.isEmpty⟩ :: (selection.nodes.map (Node.within field) ++ rest.nodes)
termination_by structural tree => tree

namespace SelectionTree

inductive Answers : SelectionTree → List String → Prop where
  | leaf (field : Field) (rest : SelectionTree) (deeper : List String) : Answers (.leaf field rest) (field.name :: deeper)
  | object (field : Field) (selection rest : SelectionTree) : Answers (.object field selection rest) [field.name]
  | nested (field : Field) (selection rest : SelectionTree) (names : List String) (inside : Answers selection names) :
      Answers (.object field selection rest) (field.name :: names)
  | afterLeaf (field : Field) (rest : SelectionTree) (names : List String) (later : Answers rest names) :
      Answers (.leaf field rest) names
  | afterObject (field : Field) (selection rest : SelectionTree) (names : List String) (later : Answers rest names) :
      Answers (.object field selection rest) names

theorem answers_put_leaf (field : Field) (tree : SelectionTree) (deeper : List String) :
    Answers (tree.putLeaf field) (field.name :: deeper) := by
  induction tree with
  | nil => exact .leaf field .nil deeper
  | leaf held rest ih =>
      by_cases same : held.name = field.name
      · rw [putLeaf, if_pos same, ← same]
        exact .leaf held rest deeper
      · rw [putLeaf, if_neg same]
        exact .afterLeaf held _ _ ih
  | object held selection rest _ ih =>
      by_cases same : held.name = field.name
      · rw [putLeaf, if_pos same, ← same]
        exact .leaf held rest deeper
      · rw [putLeaf, if_neg same]
        exact .afterObject held selection _ _ ih

theorem put_leaf_answers (field : Field) (tree : SelectionTree) (names : List String) (answers : Answers tree names) :
    Answers (tree.putLeaf field) names := by
  induction answers with
  | leaf held rest deeper =>
      rw [putLeaf]
      split
      · exact .leaf held rest deeper
      · exact .leaf held _ deeper
  | object held selection rest =>
      rw [putLeaf]
      split
      · exact .leaf held rest []
      · exact .object held selection _
  | nested held selection rest names inside =>
      rw [putLeaf]
      split
      · exact .leaf held rest names
      · exact .nested held selection _ names inside
  | afterLeaf held rest names later ih =>
      rw [putLeaf]
      split
      · exact .afterLeaf held rest names later
      · exact .afterLeaf held _ names ih
  | afterObject held selection rest names later ih =>
      rw [putLeaf]
      split
      · exact .afterLeaf held rest names later
      · exact .afterObject held selection _ names ih

section

variable (field : Field) (selection : SelectionTree) (join : SelectionTree → SelectionTree)

theorem put_object_answers (keeps : ∀ inner names, Answers inner names → Answers (join inner) names)
    (tree : SelectionTree) (names : List String) (answers : Answers tree names) :
    Answers (putObject field selection join tree) names := by
  induction answers with
  | leaf held rest deeper =>
      rw [putObject]
      split
      · exact .leaf held rest deeper
      · exact .leaf held _ deeper
  | object held inner rest =>
      rw [putObject]
      split
      · exact .object held (join inner) rest
      · exact .object held inner _
  | nested held inner rest names inside =>
      rw [putObject]
      split
      · exact .nested held (join inner) rest names (keeps inner names inside)
      · exact .nested held inner _ names inside
  | afterLeaf held rest names later ih =>
      rw [putObject]
      split
      · exact .afterLeaf held rest names later
      · exact .afterLeaf held _ names ih
  | afterObject held inner rest names later ih =>
      rw [putObject]
      split
      · exact .afterObject held (join inner) rest names later
      · exact .afterObject held inner _ names ih

theorem answers_put_object (names : List String) (inside : names = [] ∨ Answers selection names ∧
    ∀ inner, Answers (join inner) names) (tree : SelectionTree) :
    Answers (putObject field selection join tree) (field.name :: names) := by
  have here (held : Field) (inner rest : SelectionTree) (within : names = [] ∨ Answers inner names) :
      Answers (.object held inner rest) (held.name :: names) := by
    rcases within with rfl | below
    · exact .object held inner rest
    · exact .nested held inner rest names below
  induction tree with
  | nil => exact here field selection .nil (inside.imp_right And.left)
  | leaf held rest ih =>
      by_cases same : held.name = field.name
      · rw [putObject, if_pos same, ← same]
        exact .leaf held rest names
      · rw [putObject, if_neg same]
        exact .afterLeaf held _ _ ih
  | object held inner rest _ ih =>
      by_cases same : held.name = field.name
      · rw [putObject, if_pos same, ← same]
        exact here held (join inner) rest (inside.imp_right (fun both => both.2 inner))
      · rw [putObject, if_neg same]
        exact .afterObject held inner _ _ ih

end

theorem merge_answers (other tree : SelectionTree) (names : List String) (answers : Answers tree names) :
    Answers (tree.merge other) names := by
  induction other generalizing tree names with
  | nil => exact answers
  | leaf field rest ih => exact ih _ names (put_leaf_answers field tree names answers)
  | object field selection rest inner ih =>
      exact ih _ names (put_object_answers field selection _ inner tree names answers)

theorem answers_merge (other tree : SelectionTree) (names : List String) (answers : Answers other names) :
    Answers (tree.merge other) names := by
  induction answers generalizing tree with
  | leaf field rest deeper => exact merge_answers rest _ _ (answers_put_leaf field tree deeper)
  | object field selection rest =>
      exact merge_answers rest _ _ (answers_put_object field selection _ [] (.inl rfl) tree)
  | nested field selection rest names inside ih =>
      exact merge_answers rest _ _ (answers_put_object field selection _ names (.inr ⟨inside, ih⟩) tree)
  | afterLeaf field rest names later ih => exact ih _
  | afterObject field selection rest names later ih => exact ih _

abbrev Asked := List String → Field → Bool → Prop

def Asked.under (asked : Asked) (name : String) : Asked := fun names => asked (name :: names)

def Traced (asked : Asked) : SelectionTree → Prop
  | .nil => True
  | .leaf field rest =>
      (∃ whole, asked [] field whole) ∧ (∃ other, other.name = field.name ∧ asked [] other true) ∧ rest.Traced asked
  | .object field selection rest =>
      (∃ whole, asked [] field whole) ∧ selection.Traced (asked.under field.name) ∧ rest.Traced asked
termination_by structural tree => tree

theorem traced_put_leaf (asked : Asked) (field : Field) (tree : SelectionTree) (traced : tree.Traced asked)
    (mine : ∃ whole, asked [] field whole) (leaf : ∃ other : Field, other.name = field.name ∧ asked [] other true) :
    (tree.putLeaf field).Traced asked := by
  induction tree with
  | nil => exact ⟨mine, leaf, trivial⟩
  | leaf held rest ih =>
      by_cases same : held.name = field.name
      · rw [putLeaf, if_pos same]
        exact traced
      · rw [putLeaf, if_neg same]
        exact ⟨traced.1, traced.2.1, ih traced.2.2⟩
  | object held selection rest _ ih =>
      by_cases same : held.name = field.name
      · rw [putLeaf, if_pos same]
        exact ⟨traced.1, same ▸ leaf, traced.2.2⟩
      · rw [putLeaf, if_neg same]
        exact ⟨traced.1, traced.2.1, ih traced.2.2⟩

theorem traced_put_object (asked : Asked) (field : Field) (selection : SelectionTree)
    (join : SelectionTree → SelectionTree) (tree : SelectionTree) (traced : tree.Traced asked)
    (mine : ∃ whole, asked [] field whole) (inside : selection.Traced (asked.under field.name))
    (joins : ∀ inner, inner.Traced (asked.under field.name) → (join inner).Traced (asked.under field.name)) :
    (putObject field selection join tree).Traced asked := by
  induction tree with
  | nil => exact ⟨mine, inside, trivial⟩
  | leaf held rest ih =>
      by_cases same : held.name = field.name
      · rw [putObject, if_pos same]
        exact traced
      · rw [putObject, if_neg same]
        exact ⟨traced.1, traced.2.1, ih traced.2.2⟩
  | object held inner rest _ ih =>
      by_cases same : held.name = field.name
      · rw [putObject, if_pos same]
        exact ⟨traced.1, same ▸ joins inner (same ▸ traced.2.1), traced.2.2⟩
      · rw [putObject, if_neg same]
        exact ⟨traced.1, traced.2.1, ih traced.2.2⟩

theorem traced_merge (other : SelectionTree) : ∀ (asked : Asked) (tree : SelectionTree), tree.Traced asked →
    other.Traced asked → (tree.merge other).Traced asked := by
  induction other with
  | nil => exact fun _ _ traced _ => traced
  | leaf field rest ih =>
      intro asked tree traced ⟨mine, wholly, later⟩
      exact ih asked _ (traced_put_leaf asked field tree traced mine wholly) later
  | object field selection rest inner ih =>
      intro asked tree traced ⟨mine, inside, later⟩
      refine ih asked _ (traced_put_object asked field selection _ tree traced mine inside ?_) later
      exact fun held before => inner _ held before inside

def Asked.of (occurs : Node → Prop) : Asked :=
  fun names field whole => ∃ above, above.map Field.name = names ∧ occurs ⟨above, field, whole⟩

def Asked.Covers (asked : Asked) (occurs : Node → Prop) : Prop :=
  ∀ node, occurs node → asked (node.above.map Field.name) node.field node.whole

-- A tree grows by nodes: it answers them besides what it answered before, and gets no other fields than theirs.
structure Extends (occurs : Node → Prop) (tree after : SelectionTree) : Prop where
  keeps : ∀ names, tree.Answers names → after.Answers names
  answers : ∀ node, occurs node → after.Answers node.names
  traced : ∀ asked : Asked, tree.Traced asked → asked.Covers occurs → after.Traced asked

theorem extends_congr (occurs others : Node → Prop) (tree after : SelectionTree)
    (same : ∀ node, others node ↔ occurs node) (grows : Extends occurs tree after) : Extends others tree after where
  keeps := grows.keeps
  answers node other := grows.answers node ((same node).mp other)
  traced asked before covers := grows.traced asked before (fun node occurs => covers node ((same node).mpr occurs))

theorem extends_trans (first second : Node → Prop) (tree middle after : SelectionTree)
    (earlier : Extends first tree middle) (later : Extends second middle after) :
    Extends (fun node => first node ∨ second node) tree after where
  keeps names held := later.keeps names (earlier.keeps names held)
  answers node either := either.elim (fun mine => later.keeps _ (earlier.answers node mine)) (later.answers node)
  traced asked before covers :=
    later.traced asked (earlier.traced asked before (fun node mine => covers node (.inl mine)))
      (fun node theirs => covers node (.inr theirs))

theorem extends_merge (occurs : Node → Prop) (tree other : SelectionTree) (grown : Extends occurs .nil other) :
    Extends occurs tree (tree.merge other) where
  keeps names held := merge_answers other tree names held
  answers node inside := answers_merge other tree _ (grown.answers node inside)
  traced asked before covers := traced_merge other asked tree before (grown.traced asked trivial covers)

theorem extends_leaf (field : Field) (tree : SelectionTree) :
    Extends (fun node => node = ⟨[], field, true⟩) tree (tree.putLeaf field) where
  keeps names held := put_leaf_answers field tree names held
  answers := by
    rintro node rfl
    exact answers_put_leaf field tree []
  traced asked before covers :=
    have mine := covers _ rfl
    traced_put_leaf asked field tree before ⟨true, mine⟩ ⟨field, rfl, mine⟩

theorem extends_object (occurs : Node → Prop) (field : Field) (selection tree : SelectionTree)
    (grown : Extends occurs .nil selection) :
    Extends (fun node => node = ⟨[], field, false⟩ ∨ ∃ inner, occurs inner ∧ node = inner.within field) tree
      (putObject field selection (fun held => held.merge selection) tree) where
  keeps names held :=
    put_object_answers field selection _ (fun inner below => merge_answers selection inner below) tree names held
  answers := by
    rintro node (rfl | ⟨inner, inside, rfl⟩)
    · exact answers_put_object field selection _ [] (.inl rfl) tree
    · have below := grown.answers inner inside
      exact answers_put_object field selection _ inner.names
        (.inr ⟨below, fun held => answers_merge selection held _ below⟩) tree
  traced asked before covers := by
    have inside : selection.Traced (asked.under field.name) :=
      grown.traced _ trivial (fun inner occurs => covers (inner.within field) (.inr ⟨inner, occurs, rfl⟩))
    exact traced_put_object asked field selection _ tree before ⟨false, covers _ (.inl rfl)⟩ inside
      (fun held traced => traced_merge selection _ held traced inside)

end SelectionTree

end DocGraph
