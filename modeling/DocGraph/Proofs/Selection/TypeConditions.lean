import DocGraph.Proofs.Selection.Rearrangement

set_option autoImplicit false

namespace DocGraph

open GraphQL

namespace Selection

section

variable (schema : Schema)

def Enters (type : CompositeIndex) (name : String) (nested : CompositeIndex) : Prop :=
  ∃ composite field, schema.composite type = .ok composite ∧ composite.field? name = some field ∧
    field.type.composite? = some nested

theorem enters_unique (type : CompositeIndex) (name : String) (nested other : CompositeIndex)
    (here : Enters schema type name nested) (there : Enters schema type name other) : nested = other := by
  obtain ⟨composite, field, found, declared, leads⟩ := here
  obtain ⟨second, held, again, same, last⟩ := there
  cases found.symm.trans again
  cases declared.symm.trans same
  exact Option.some.inj (leads.symm.trans last)

def Leads : CompositeIndex → List String → Field → Prop
  | type, [], field => ∃ composite, schema.composite type = .ok composite ∧ composite.field? field.name = some field
  | type, name :: rest, field => ∃ nested, Enters schema type name nested ∧ Leads nested rest field
termination_by structural _ names => names

theorem leads_unique (field other : Field) (same : field.name = other.name) (names : List String) : ∀ type,
    Leads schema type names field → Leads schema type names other → field = other := by
  induction names with
  | nil =>
      rintro type ⟨composite, found, declared⟩ ⟨second, again, listed⟩
      cases found.symm.trans again
      rw [← same] at listed
      exact Option.some.inj (declared.symm.trans listed)
  | cons name rest ih =>
      rintro type ⟨nested, enters, below⟩ ⟨second, again, beside⟩
      cases enters_unique schema type name nested second enters again
      exact ih nested below beside

section

variable (request : Request)

inductive Changes : CompositeIndex → SelectionSet → Prop where
  | inline (type : CompositeIndex) (condition : Option String) (directives : List Directive) (selections rest : SelectionSet)
      (other : target schema type condition ≠ type) : Changes type (.inline condition directives selections rest)
  | spread (type : CompositeIndex) (name : String) (directives : List Directive) (rest : SelectionSet) (fragment : Fragment)
      (found : request.fragment? name = some fragment) (other : target schema type (some fragment.condition) ≠ type) :
      Changes type (.spread name directives rest)
  | inField (type nested : CompositeIndex) (alias? : Option String) (name : String) (arguments : List Argument)
      (directives : List Directive) (selections rest : SelectionSet) (enters : Enters schema type name nested)
      (inside : Changes nested selections) : Changes type (.field alias? name arguments directives selections rest)
  | inInline (type : CompositeIndex) (condition : Option String) (directives : List Directive) (selections rest : SelectionSet)
      (inside : Changes (target schema type condition) selections) : Changes type (.inline condition directives selections rest)
  | inSpread (type : CompositeIndex) (name : String) (directives : List Directive) (rest : SelectionSet) (fragment : Fragment)
      (found : request.fragment? name = some fragment)
      (inside : Changes (target schema type (some fragment.condition)) fragment.selections) :
      Changes type (.spread name directives rest)
  | afterField (type : CompositeIndex) (alias? : Option String) (name : String) (arguments : List Argument)
      (directives : List Directive) (selections rest : SelectionSet) (later : Changes type rest) :
      Changes type (.field alias? name arguments directives selections rest)
  | afterInline (type : CompositeIndex) (condition : Option String) (directives : List Directive)
      (selections rest : SelectionSet) (later : Changes type rest) : Changes type (.inline condition directives selections rest)
  | afterSpread (type : CompositeIndex) (name : String) (directives : List Directive) (rest : SelectionSet)
      (later : Changes type rest) : Changes type (.spread name directives rest)

theorem changes_nil (type : CompositeIndex) : ¬ Changes schema request type .nil := nofun

theorem changes_field (type : CompositeIndex) (alias? : Option String) (name : String) (arguments : List Argument)
    (directives : List Directive) (selections rest : SelectionSet) :
    Changes schema request type (.field alias? name arguments directives selections rest) ↔
      (∃ nested, Enters schema type name nested ∧ Changes schema request nested selections) ∨
        Changes schema request type rest := by
  constructor
  · intro changes
    cases changes with
    | inField _ nested _ _ _ _ _ _ enters inside => exact .inl ⟨nested, enters, inside⟩
    | afterField _ _ _ _ _ _ _ later => exact .inr later
  · rintro (⟨nested, enters, inside⟩ | later)
    · exact .inField type nested alias? name arguments directives selections rest enters inside
    · exact .afterField type alias? name arguments directives selections rest later

theorem changes_inline (type : CompositeIndex) (condition : Option String) (directives : List Directive)
    (selections rest : SelectionSet) : Changes schema request type (.inline condition directives selections rest) ↔
      (target schema type condition ≠ type ∨ Changes schema request (target schema type condition) selections) ∨
        Changes schema request type rest := by
  constructor
  · intro changes
    cases changes with
    | inline _ _ _ _ _ other => exact .inl (.inl other)
    | inInline _ _ _ _ _ inside => exact .inl (.inr inside)
    | afterInline _ _ _ _ _ later => exact .inr later
  · rintro ((other | inside) | later)
    · exact .inline type condition directives selections rest other
    · exact .inInline type condition directives selections rest inside
    · exact .afterInline type condition directives selections rest later

theorem changes_spread (type : CompositeIndex) (name : String) (directives : List Directive) (rest : SelectionSet) :
    Changes schema request type (.spread name directives rest) ↔ (∃ fragment, request.fragment? name = some fragment ∧
      (target schema type (some fragment.condition) ≠ type ∨
        Changes schema request (target schema type (some fragment.condition)) fragment.selections)) ∨
          Changes schema request type rest := by
  constructor
  · intro changes
    cases changes with
    | spread _ _ _ _ fragment found other => exact .inl ⟨fragment, found, .inl other⟩
    | inSpread _ _ _ _ fragment found inside => exact .inl ⟨fragment, found, .inr inside⟩
    | afterSpread _ _ _ _ later => exact .inr later
  · rintro (⟨fragment, found, other | inside⟩ | later)
    · exact .spread type name directives rest fragment found other
    · exact .inSpread type name directives rest fragment found inside
    · exact .afterSpread type name directives rest later

theorem changes_append (type : CompositeIndex) (back front : SelectionSet) : Changes schema request type (front.append back) ↔
    Changes schema request type front ∨ Changes schema request type back := by
  induction front with
  | nil => exact (or_iff_right (changes_nil schema request type)).symm
  | field _ _ _ _ _ _ _ ih => rw [SelectionSet.append, changes_field, changes_field, ih, ← or_assoc]
  | inline _ _ _ _ _ ih => rw [SelectionSet.append, changes_inline, changes_inline, ih, ← or_assoc]
  | spread _ _ _ ih => rw [SelectionSet.append, changes_spread, changes_spread, ih, ← or_assoc]

theorem changes_nodes (type : CompositeIndex) (sets : List SelectionSet) : Changes schema request type (nodesOf sets) ↔
    ∃ selections ∈ sets, Changes schema request type selections := by
  induction sets with
  | nil => exact iff_of_false (changes_nil schema request type) (fun ⟨_, listed, _⟩ => nomatch listed)
  | cons selections rest ih =>
      have stays : target schema type none = type := rfl
      have split := changes_inline schema request type none [] selections (nodesOf rest)
      rw [stays, ih] at split
      exact split.trans (by simp)

theorem rearranged_changes (first second : SelectionSet) (same : Rearranges first second) :
    ∀ type, Changes schema request type first ↔ Changes schema request type second := by
  induction same with
  | refl => exact fun _ => Iff.rfl
  | symm _ _ _ ih => exact fun type => (ih type).symm
  | trans _ _ _ _ _ ih later => exact fun type => (ih type).trans (later type)
  | beside _ _ _ _ _ _ left right => exact fun type => by simp only [changes_append, left, right]
  | permuted => exact fun type => by simp only [changes_append, or_comm]
  | repeated => exact fun type => by simp only [changes_append, or_self]
  | splitField _ _ name _ _ _ _ first second =>
      intro type
      simp only [changes_field, changes_append, changes_nil, or_false, and_or_left, exists_or]
  | splitInline condition _ first second =>
      intro type
      simp only [changes_inline, changes_append, changes_nil, or_false]
      tauto
  | inField _ _ _ _ _ _ _ ih => exact fun type => by simp only [changes_field, ih]
  | inInline _ _ _ _ _ ih => exact fun type => by simp only [changes_inline, ih]

theorem occurs_leads (type : CompositeIndex) (selections : SelectionSet) (node : Node)
    (occurs : Occurs schema request type selections node) :
    ¬ Changes schema request type selections → Leads schema type (node.above.map Field.name) node.field := by
  induction occurs with
  | field type _ name _ _ _ _ composite field _ found declared =>
      intro _
      have named := (Composite.name_of_field?_eq_some declared).1
      exact ⟨composite, found, named.symm ▸ declared⟩
  | within type nested alias? name arguments directives selections rest composite field node _ found declared leads _ ih =>
      intro kept
      have named := (Composite.name_of_field?_eq_some declared).1
      have enters : Enters schema type name nested := ⟨composite, field, found, declared, leads⟩
      refine ⟨nested, named.symm ▸ enters, ih (fun inside => kept ?_)⟩
      exact .inField type nested alias? name arguments directives selections rest enters inside
  | inline type condition directives selections rest node _ ih =>
      intro kept
      rw [changes_inline, not_or, not_or, not_not] at kept
      have below := ih kept.1.2
      rwa [kept.1.1] at below
  | spread type name directives rest fragment node defined _ ih =>
      intro kept
      rw [changes_spread, not_or, not_exists] at kept
      have both := kept.1 fragment
      rw [not_and, not_or, not_not] at both
      have below := ih (both defined).2
      rwa [(both defined).1] at below
  | afterField type alias? name arguments directives selections rest node _ ih =>
      exact fun kept => ih (fun later => kept (.afterField type alias? name arguments directives selections rest later))
  | afterInline type condition directives selections rest node _ ih =>
      exact fun kept => ih (fun later => kept (.afterInline type condition directives selections rest later))
  | afterSpread type name directives rest node _ ih =>
      exact fun kept => ih (fun later => kept (.afterSpread type name directives rest later))

def KeepsTypes (type : CompositeIndex) (key : String) : Prop :=
  ∀ selections ∈ request.answering key, ¬ Changes schema request type selections

theorem tree_leads (acyclic : request.Acyclic) (type : CompositeIndex) (key : String)
    (keeps : KeepsTypes schema request type key) (built : SelectionTree) (made : tree schema type request key = .ok built) :
    built.Traced (fun names field _ => Leads schema type names field) := by
  refine (tree_extends schema request acyclic type key built made).traced _ trivial (fun node requested => ?_)
  obtain ⟨selections, listed, occurs⟩ := requested
  exact occurs_leads schema request type selections node occurs (keeps selections listed)

end

section

variable (request other : Request) (same : Rearranged request other)

include same

theorem changes_kept (type : CompositeIndex) (selections : SelectionSet) (changes : Changes schema request type selections) :
    Changes schema other type selections := by
  induction changes with
  | inline type condition directives selections rest changed =>
      exact .inline type condition directives selections rest changed
  | spread type name directives rest fragment found changed =>
      obtain ⟨second, defined, condition, _⟩ := rearranged_fragment request other same name fragment found
      exact .spread type name directives rest second defined (condition ▸ changed)
  | inField type nested alias? name arguments directives selections rest enters _ ih =>
      exact .inField type nested alias? name arguments directives selections rest enters ih
  | inInline type condition directives selections rest _ ih =>
      exact .inInline type condition directives selections rest ih
  | inSpread type name directives rest fragment found _ ih =>
      obtain ⟨second, defined, condition, within⟩ := rearranged_fragment request other same name fragment found
      refine .inSpread type name directives rest second defined ?_
      exact condition ▸ (rearranged_changes schema other _ _ within _).mp ih
  | afterField type alias? name arguments directives selections rest _ ih =>
      exact .afterField type alias? name arguments directives selections rest ih
  | afterInline type condition directives selections rest _ ih =>
      exact .afterInline type condition directives selections rest ih
  | afterSpread type name directives rest _ ih => exact .afterSpread type name directives rest ih

theorem rearranged_keeps (type : CompositeIndex) (key : String) (keeps : KeepsTypes schema request type key) :
    KeepsTypes schema other type key := by
  intro selections listed changes
  have nodes := (changes_nodes schema other type _).mpr ⟨selections, listed, changes⟩
  have back := changes_kept schema other request (rearranged_symm request other same) type _ nodes
  rw [answering_roots, ← rearranged_changes schema request _ _ (rearranged_answering key _ _ same.roots), ← answering_roots,
    changes_nodes] at back
  obtain ⟨before, held, changed⟩ := back
  exact keeps before held changed

end

end

end Selection

end DocGraph
