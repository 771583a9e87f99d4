import DocGraph.Proofs.Outcome
import DocGraph.Proofs.Schema.Lookup
import DocGraph.Proofs.Selection.Tree
import DocGraph.Selection.Collect

set_option autoImplicit false

namespace DocGraph

open GraphQL

def GraphQL.SelectionSet.spreads : SelectionSet → List String
  | .nil => []
  | .field _ _ _ _ selections rest => selections.spreads ++ rest.spreads
  | .inline _ _ selections rest => selections.spreads ++ rest.spreads
  | .spread fragment _ rest => fragment :: rest.spreads

namespace GraphQL.Request

def Spreads (request : Request) (name inner : String) : Prop :=
  ∃ fragment, request.fragment? name = some fragment ∧ inner ∈ fragment.selections.spreads

def Acyclic (request : Request) : Prop := ∀ name, ¬ Relation.TransGen request.Spreads name name

theorem acyclic_of_rank (request : Request) (rank : String → Nat)
    (falls : ∀ name inner, request.Spreads name inner → rank inner < rank name) : request.Acyclic := by
  have lower : ∀ name inner, Relation.TransGen request.Spreads name inner → rank inner < rank name := by
    intro name inner leads
    induction leads with
    | single step => exact falls _ _ step
    | tail _ step ih => exact Nat.lt_trans (falls _ _ step) ih
  exact fun name loop => absurd (lower name name loop) (Nat.lt_irrefl _)

end GraphQL.Request

namespace Selection

section

variable (schema : Schema) (request : Request)

-- The fields that a selection set asks for on a type, each looked up on the type that its fragment applies to.
inductive Occurs : CompositeIndex → SelectionSet → Node → Prop where
  | field (type : CompositeIndex) (alias? : Option String) (name : String) (arguments : List Argument)
      (directives : List Directive) (selections rest : SelectionSet) (composite : Composite) (field : Field)
      (ordinary : isIntrospective name = false) (found : schema.composite type = .ok composite)
      (declared : composite.field? name = some field) :
      Occurs type (.field alias? name arguments directives selections rest)
        ⟨[], field, field.type.isLeaf || selections.isEmpty⟩
  | within (type nested : CompositeIndex) (alias? : Option String) (name : String) (arguments : List Argument)
      (directives : List Directive) (selections rest : SelectionSet) (composite : Composite) (field : Field) (node : Node)
      (ordinary : isIntrospective name = false) (found : schema.composite type = .ok composite)
      (declared : composite.field? name = some field) (leads : field.type.composite? = some nested)
      (inside : Occurs nested selections node) :
      Occurs type (.field alias? name arguments directives selections rest) (node.within field)
  | inline (type : CompositeIndex) (condition : Option String) (directives : List Directive)
      (selections rest : SelectionSet) (node : Node)
      (inside : Occurs (target schema type condition) selections node) :
      Occurs type (.inline condition directives selections rest) node
  | spread (type : CompositeIndex) (name : String) (directives : List Directive) (rest : SelectionSet) (fragment : Fragment)
      (node : Node) (defined : request.fragment? name = some fragment)
      (inside : Occurs (target schema type (some fragment.condition)) fragment.selections node) :
      Occurs type (.spread name directives rest) node
  | afterField (type : CompositeIndex) (alias? : Option String) (name : String) (arguments : List Argument)
      (directives : List Directive) (selections rest : SelectionSet) (node : Node) (later : Occurs type rest node) :
      Occurs type (.field alias? name arguments directives selections rest) node
  | afterInline (type : CompositeIndex) (condition : Option String) (directives : List Directive)
      (selections rest : SelectionSet) (node : Node) (later : Occurs type rest node) :
      Occurs type (.inline condition directives selections rest) node
  | afterSpread (type : CompositeIndex) (name : String) (directives : List Directive) (rest : SelectionSet) (node : Node)
      (later : Occurs type rest node) : Occurs type (.spread name directives rest) node

def Collects (type : CompositeIndex) (selections : SelectionSet) (tree : SelectionTree) : Prop :=
  SelectionTree.Extends (Occurs schema request type selections) .nil tree

def Knows (known : Collected) : Prop :=
  ∀ name type tree fragment, collected? known name type = some tree → request.fragment? name = some fragment →
    Collects schema request type fragment.selections tree

def SpreadOccurs (type : CompositeIndex) (name : String) (node : Node) : Prop :=
  ∃ fragment, request.fragment? name = some fragment ∧
    Occurs schema request (target schema type (some fragment.condition)) fragment.selections node

def Resolves (spread : Spread) (name : String) : Prop :=
  ∀ type known tree after, Knows schema request known → spread name type known = .ok (tree, after) →
    Knows schema request after ∧ SelectionTree.Extends (SpreadOccurs schema request type name) .nil tree

variable (spread : Spread)

theorem occurs_field (type : CompositeIndex) (alias? : Option String) (name : String) (arguments : List Argument)
    (directives : List Directive) (selections rest : SelectionSet) (composite : Composite) (field : Field)
    (ordinary : isIntrospective name = false) (found : schema.composite type = .ok composite)
    (declared : composite.field? name = some field) (node : Node) :
    Occurs schema request type (.field alias? name arguments directives selections rest) node ↔
      (node = ⟨[], field, field.type.isLeaf || selections.isEmpty⟩ ∨
        ∃ nested inner, field.type.composite? = some nested ∧ Occurs schema request nested selections inner ∧
          node = inner.within field) ∨ Occurs schema request type rest node := by
  constructor
  · intro occurs
    cases occurs with
    | field _ _ _ _ _ _ _ other held _ again same =>
        cases again.symm.trans found
        cases same.symm.trans declared
        exact .inl (.inl rfl)
    | within _ nested _ _ _ _ _ _ other held inner _ again same leads inside =>
        cases again.symm.trans found
        cases same.symm.trans declared
        exact .inl (.inr ⟨nested, inner, leads, inside, rfl⟩)
    | afterField _ _ _ _ _ _ _ _ later => exact .inr later
  · rintro ((rfl | ⟨nested, inner, leads, inside, rfl⟩) | later)
    · exact .field type alias? name arguments directives selections rest composite field ordinary found declared
    · exact .within type nested alias? name arguments directives selections rest composite field inner ordinary found
        declared leads inside
    · exact .afterField type alias? name arguments directives selections rest node later

theorem occurs_introspective (type : CompositeIndex) (alias? : Option String) (name : String) (arguments : List Argument)
    (directives : List Directive) (selections rest : SelectionSet) (introspective : isIntrospective name = true)
    (node : Node) : Occurs schema request type (.field alias? name arguments directives selections rest) node ↔
      Occurs schema request type rest node := by
  constructor
  · intro occurs
    cases occurs with
    | field _ _ _ _ _ _ _ _ _ ordinary => cases ordinary.symm.trans introspective
    | within _ _ _ _ _ _ _ _ _ _ _ ordinary => cases ordinary.symm.trans introspective
    | afterField _ _ _ _ _ _ _ _ later => exact later
  · exact .afterField type alias? name arguments directives selections rest node

theorem occurs_inline (type : CompositeIndex) (condition : Option String) (directives : List Directive)
    (selections rest : SelectionSet) (node : Node) :
    Occurs schema request type (.inline condition directives selections rest) node ↔
      Occurs schema request (target schema type condition) selections node ∨ Occurs schema request type rest node := by
  constructor
  · intro occurs
    cases occurs with
    | inline _ _ _ _ _ _ inside => exact .inl inside
    | afterInline _ _ _ _ _ _ later => exact .inr later
  · rintro (inside | later)
    · exact .inline type condition directives selections rest node inside
    · exact .afterInline type condition directives selections rest node later

theorem occurs_spread (type : CompositeIndex) (name : String) (directives : List Directive) (rest : SelectionSet)
    (node : Node) : Occurs schema request type (.spread name directives rest) node ↔
      SpreadOccurs schema request type name node ∨ Occurs schema request type rest node := by
  constructor
  · intro occurs
    cases occurs with
    | spread _ _ _ _ fragment _ defined inside => exact .inl ⟨fragment, defined, inside⟩
    | afterSpread _ _ _ _ _ later => exact .inr later
  · rintro (⟨fragment, defined, inside⟩ | later)
    · exact .spread type name directives rest fragment node defined inside
    · exact .afterSpread type name directives rest node later

theorem occurs_nil (type : CompositeIndex) (tree : SelectionTree) :
    SelectionTree.Extends (Occurs schema request type .nil) tree tree :=
  ⟨fun _ held => held, fun _ none => (nomatch none), fun _ before _ => before⟩

theorem occurs_leaf (type : CompositeIndex) (alias? : Option String) (name : String) (arguments : List Argument)
    (directives : List Directive) (selections rest : SelectionSet) (composite : Composite) (field : Field)
    (ordinary : isIntrospective name = false) (found : schema.composite type = .ok composite)
    (declared : composite.field? name = some field) (ends : field.type.composite? = none ∨ selections.isEmpty = true)
    (node : Node) : Occurs schema request type (.field alias? name arguments directives selections rest) node ↔
      node = ⟨[], field, true⟩ ∨ Occurs schema request type rest node := by
  have whole : (field.type.isLeaf || selections.isEmpty) = true := by
    rcases ends with plain | empty
    · rw [FieldType.isLeaf, plain]
      rfl
    · rw [empty, Bool.or_true]
  rw [occurs_field schema request type alias? name arguments directives selections rest composite field ordinary found
    declared, whole]
  refine or_congr_left (or_iff_left ?_)
  rintro ⟨nested, inner, leads, inside, _⟩
  rcases ends with plain | empty
  · cases leads.symm.trans plain
  · cases selections with
    | nil => cases inside
    | _ => cases empty

theorem occurs_object (type nested : CompositeIndex) (alias? : Option String) (name : String) (arguments : List Argument)
    (directives : List Directive) (selections rest : SelectionSet) (composite : Composite) (field : Field)
    (ordinary : isIntrospective name = false) (found : schema.composite type = .ok composite)
    (declared : composite.field? name = some field) (leads : field.type.composite? = some nested)
    (filled : selections.isEmpty = false) (node : Node) :
    Occurs schema request type (.field alias? name arguments directives selections rest) node ↔
      (node = ⟨[], field, false⟩ ∨ ∃ inner, Occurs schema request nested selections inner ∧ node = inner.within field) ∨
        Occurs schema request type rest node := by
  have partly : (field.type.isLeaf || selections.isEmpty) = false := by
    rw [FieldType.isLeaf, leads, filled]
    rfl
  rw [occurs_field schema request type alias? name arguments directives selections rest composite field ordinary found
    declared, partly]
  refine or_congr_left (or_congr_right ?_)
  constructor
  · rintro ⟨other, inner, same, inside, below⟩
    cases same.symm.trans leads
    exact ⟨inner, inside, below⟩
  · rintro ⟨inner, inside, below⟩
    exact ⟨nested, inner, leads, inside, below⟩

def Faithful (selections : SelectionSet) : Prop :=
  ∀ type tree after known later, Knows schema request known →
    collect schema spread type selections tree known = .ok (after, later) →
      Knows schema request later ∧ SelectionTree.Extends (Occurs schema request type selections) tree after

theorem nil_faithful : Faithful schema request spread .nil := by
  intro type tree after known later knows collected
  cases Except.ok.inj collected
  exact ⟨knows, occurs_nil schema request type tree⟩

theorem then_rest (type : CompositeIndex) (selections rest : SelectionSet) (mine : Node → Prop)
    (tree middle after : SelectionTree) (known later : Collected) (others : Faithful schema request spread rest)
    (splits : ∀ node, Occurs schema request type selections node ↔ mine node ∨ Occurs schema request type rest node)
    (grows : SelectionTree.Extends mine tree middle) (knows : Knows schema request known)
    (collected : collect schema spread type rest middle known = .ok (after, later)) :
    Knows schema request later ∧ SelectionTree.Extends (Occurs schema request type selections) tree after := by
  obtain ⟨knows', remaining⟩ := others type middle after known later knows collected
  exact ⟨knows', SelectionTree.extends_congr _ _ tree after splits
    (SelectionTree.extends_trans _ _ tree middle after grows remaining)⟩

theorem field_faithful (alias? : Option String) (name : String) (arguments : List Argument) (directives : List Directive)
    (selections rest : SelectionSet) (inner : Faithful schema request spread selections)
    (others : Faithful schema request spread rest) :
    Faithful schema request spread (.field alias? name arguments directives selections rest) := by
  intro type tree after known later knows collected
  rw [collect] at collected
  by_cases introspective : isIntrospective name = true
  · rw [if_pos introspective] at collected
    obtain ⟨knows', grows⟩ := others type tree after known later knows collected
    refine ⟨knows', SelectionTree.extends_congr _ _ tree after ?_ grows⟩
    exact occurs_introspective schema request type alias? name arguments directives selections rest introspective
  · have ordinary : isIntrospective name = false := Bool.eq_false_iff.mpr introspective
    rw [if_neg introspective] at collected
    obtain ⟨composite, found, collected⟩ := (except_bind_ok _ _ _).mp collected
    obtain ⟨field, here, collected⟩ := (except_bind_ok _ _ _).mp collected
    have declared := (Composite.field_ok composite name field).mp here
    have leaf (ends : field.type.composite? = none ∨ selections.isEmpty = true) :=
      then_rest schema request spread type _ rest _ tree _ after known later others
        (occurs_leaf schema request type alias? name arguments directives selections rest composite field ordinary found
          declared ends)
        (SelectionTree.extends_leaf field tree) knows
    cases leads : field.type.composite? with
    | none =>
        rw [leads] at collected
        exact leaf (.inl leads) collected
    | some nested =>
        rw [leads] at collected
        simp only at collected
        by_cases empty : selections.isEmpty = true
        · rw [if_pos empty] at collected
          exact leaf (.inr empty) collected
        · rw [if_neg empty] at collected
          obtain ⟨_, _, collected⟩ := (except_bind_ok _ _ _).mp collected
          obtain ⟨⟨held, between⟩, below, collected⟩ := (except_bind_ok _ _ _).mp collected
          obtain ⟨knows', mine⟩ := inner nested .nil held known between knows below
          exact then_rest schema request spread type _ rest _ tree _ after between later others
            (occurs_object schema request type nested alias? name arguments directives selections rest composite field
              ordinary found declared leads (Bool.eq_false_iff.mpr empty))
            (SelectionTree.extends_object _ field held tree mine) knows' collected

theorem inline_faithful (condition : Option String) (directives : List Directive) (selections rest : SelectionSet)
    (inner : Faithful schema request spread selections) (others : Faithful schema request spread rest) :
    Faithful schema request spread (.inline condition directives selections rest) := by
  intro type tree after known later knows collected
  rw [collect] at collected
  obtain ⟨_, _, collected⟩ := (except_bind_ok _ _ _).mp collected
  obtain ⟨⟨held, between⟩, here, collected⟩ := (except_bind_ok _ _ _).mp collected
  obtain ⟨knows', mine⟩ := inner _ .nil held known between knows here
  exact then_rest schema request spread type _ rest _ tree _ after between later others
    (occurs_inline schema request type condition directives selections rest)
    (SelectionTree.extends_merge _ tree held mine) knows' collected

theorem spread_faithful (name : String) (directives : List Directive) (rest : SelectionSet)
    (resolves : Resolves schema request spread name) (others : Faithful schema request spread rest) :
    Faithful schema request spread (.spread name directives rest) := by
  intro type tree after known later knows collected
  rw [collect] at collected
  obtain ⟨⟨held, between⟩, here, collected⟩ := (except_bind_ok _ _ _).mp collected
  obtain ⟨knows', mine⟩ := resolves type known held between knows here
  exact then_rest schema request spread type _ rest _ tree _ after between later others
    (occurs_spread schema request type name directives rest) (SelectionTree.extends_merge _ tree held mine) knows' collected

theorem collect_faithful (selections : SelectionSet)
    (resolves : ∀ name ∈ selections.spreads, Resolves schema request spread name) :
    Faithful schema request spread selections := by
  induction selections with
  | nil => exact nil_faithful schema request spread
  | field alias? name arguments directives selections rest inner ih =>
      exact field_faithful schema request spread alias? name arguments directives selections rest
        (inner (fun other member => resolves other (List.mem_append.mpr (.inl member))))
        (ih (fun other member => resolves other (List.mem_append.mpr (.inr member))))
  | inline condition directives selections rest inner ih =>
      exact inline_faithful schema request spread condition directives selections rest
        (inner (fun other member => resolves other (List.mem_append.mpr (.inl member))))
        (ih (fun other member => resolves other (List.mem_append.mpr (.inr member))))
  | spread name directives rest ih =>
      exact spread_faithful schema request spread name directives rest (resolves name (List.mem_cons_self ..))
        (ih (fun other member => resolves other (List.mem_cons_of_mem name member)))

theorem collected_append (known : Collected) (name : String) (type : CompositeIndex) (tree : SelectionTree) (other : String)
    (place : CompositeIndex) (stored : SelectionTree)
    (listed : collected? (known ++ [((name, type), tree)]) other place = some stored) :
    collected? known other place = some stored ∨ other = name ∧ place = type ∧ stored = tree := by
  rw [collected?, List.find?_append] at listed
  obtain ⟨entry, hit, rfl⟩ := Option.map_eq_some_iff.mp listed
  rcases Option.or_eq_some_iff.mp hit with before | ⟨_, new⟩
  · exact .inl (by rw [collected?, before]; rfl)
  · have same := List.find?_some new
    cases List.mem_singleton.mp (List.mem_of_find?_eq_some new)
    obtain ⟨rfl, rfl⟩ : name = other ∧ type = place := by simpa using same
    exact .inr ⟨rfl, rfl, rfl⟩

theorem knows_append (known : Collected) (name : String) (type : CompositeIndex) (tree : SelectionTree)
    (knows : Knows schema request known)
    (collects : ∀ fragment, request.fragment? name = some fragment →
      Collects schema request type fragment.selections tree) :
    Knows schema request (known ++ [((name, type), tree)]) := by
  intro other place stored fragment listed defined
  rcases collected_append known name type tree other place stored listed with before | ⟨rfl, rfl, rfl⟩
  · exact knows other place stored fragment before defined
  · exact collects fragment defined

theorem fragment_named (name : String) (fragment : Fragment) (found : request.fragment? name = some fragment) :
    name ∈ request.fragments.map Fragment.name := by
  have same : fragment.name = name := by simpa using List.find?_some found
  exact List.mem_map.mpr ⟨fragment, List.mem_of_find?_eq_some found, same⟩

theorem active_length (active : List String) (name : String) (fragment : Fragment) (distinct : active.Nodup)
    (defined : ∀ held ∈ active, held ∈ request.fragments.map Fragment.name) (fresh : name ∉ active)
    (found : request.fragment? name = some fragment) : active.length < request.fragments.length := by
  have bounded := (List.nodup_cons.mpr ⟨fresh, distinct⟩).length_le_of_subset
    (List.cons_subset.mpr ⟨fragment_named request name fragment found, defined⟩)
  rw [List.length_map] at bounded
  exact bounded

theorem spread_undefined (type : CompositeIndex) (name : String) (missing : request.fragment? name = none) :
    SelectionTree.Extends (SpreadOccurs schema request type name) .nil .nil where
  keeps _ held := held
  answers _ := fun ⟨_, defined, _⟩ => nomatch missing.symm.trans defined
  traced _ before _ := before

theorem spread_defined (type : CompositeIndex) (name : String) (fragment : Fragment) (tree : SelectionTree)
    (found : request.fragment? name = some fragment)
    (collects : Collects schema request (target schema type (some fragment.condition)) fragment.selections tree) :
    SelectionTree.Extends (SpreadOccurs schema request type name) .nil tree := by
  refine SelectionTree.extends_congr _ _ .nil tree (fun node => ⟨?_, fun inside => ⟨fragment, found, inside⟩⟩) collects
  rintro ⟨other, defined, inside⟩
  cases defined.symm.trans found
  exact inside

theorem undefined_resolves (bound : Nat) (active : List String) (name : String)
    (missing : request.fragment? name = none) : Resolves schema request (collectFragment schema request bound active) name := by
  intro type known tree after knows collected
  have nothing : collectFragment schema request bound active name type known = .ok (.nil, known) := by
    cases bound <;> rw [collectFragment, missing]
  cases nothing.symm.trans collected
  exact ⟨knows, spread_undefined schema request type name missing⟩

theorem defined_resolves (bound : Nat) (active : List String) (name : String) (fragment : Fragment)
    (found : request.fragment? name = some fragment) (fresh : name ∉ active)
    (inner : ∀ other ∈ fragment.selections.spreads,
      Resolves schema request (collectFragment schema request bound (name :: active)) other) :
    Resolves schema request (collectFragment schema request (bound + 1) active) name := by
  intro type known tree after knows collected
  rw [collectFragment, found] at collected
  simp only at collected
  cases held : collected? known name (target schema type (some fragment.condition)) with
  | some stored =>
      rw [held] at collected
      cases Except.ok.inj collected
      exact ⟨knows, spread_defined schema request type name fragment _ found (knows name _ _ fragment held found)⟩
  | none =>
      rw [held] at collected
      simp only [List.contains_eq_mem, fresh, decide_false, Bool.false_eq_true, if_false] at collected
      obtain ⟨_, _, collected⟩ := (except_bind_ok _ _ _).mp collected
      obtain ⟨⟨made, between⟩, here, collected⟩ := (except_bind_ok _ _ _).mp collected
      cases Except.ok.inj collected
      obtain ⟨knows', collects⟩ := collect_faithful schema request _ fragment.selections inner _ .nil made known between
        knows here
      refine ⟨knows_append schema request between name _ made knows' ?_,
        spread_defined schema request type name fragment made found collects⟩
      intro other again
      cases again.symm.trans found
      exact collects

-- A property of the fragments of a request without cycles, with those under way and a bound on how many may follow. A
-- fragment that all fragments under way lead to is not under way itself, or fragments would not be acyclic.
theorem fragment_induction (acyclic : request.Acyclic) (motive : Nat → List String → String → Prop)
    (undefined : ∀ bound active name, request.fragment? name = none → motive bound active name)
    (defined : ∀ bound active name fragment, request.fragment? name = some fragment → name ∉ active →
      (∀ other ∈ fragment.selections.spreads, motive bound (name :: active) other) → motive (bound + 1) active name)
    (bound : Nat) : ∀ (active : List String) (name : String),
    active.Nodup → (∀ held ∈ active, held ∈ request.fragments.map Fragment.name) →
    request.fragments.length ≤ active.length + bound →
    (∀ held ∈ active, Relation.TransGen request.Spreads held name) → motive bound active name := by
  induction bound with
  | zero =>
      intro active name distinct named enough leads
      have fresh : name ∉ active := fun member => acyclic name (leads name member)
      cases found : request.fragment? name with
      | none => exact undefined 0 active name found
      | some fragment =>
          have few := active_length request active name fragment distinct named fresh found
          omega
  | succ bound ih =>
      intro active name distinct named enough leads
      have fresh : name ∉ active := fun member => acyclic name (leads name member)
      cases found : request.fragment? name with
      | none => exact undefined (bound + 1) active name found
      | some fragment =>
          refine defined bound active name fragment found fresh (fun other listed => ?_)
          have step : request.Spreads name other := ⟨fragment, found, listed⟩
          refine ih (name :: active) other (List.nodup_cons.mpr ⟨fresh, distinct⟩)
            (List.forall_mem_cons.mpr ⟨fragment_named request name fragment found, named⟩) ?_
            (List.forall_mem_cons.mpr ⟨.single step, fun before member => .tail (leads before member) step⟩)
          rw [List.length_cons]
          omega

theorem every_fragment (acyclic : request.Acyclic) (motive : Nat → List String → String → Prop)
    (undefined : ∀ bound active name, request.fragment? name = none → motive bound active name)
    (defined : ∀ bound active name fragment, request.fragment? name = some fragment → name ∉ active →
      (∀ other ∈ fragment.selections.spreads, motive bound (name :: active) other) → motive (bound + 1) active name)
    (name : String) : motive request.fragments.length [] name :=
  fragment_induction request acyclic motive undefined defined _ [] name .nil (fun _ none => nomatch none)
    (Nat.le_of_eq (Nat.zero_add _).symm) (fun _ none => nomatch none)

theorem fragment_resolves (acyclic : request.Acyclic) (name : String) :
    Resolves schema request (collectFragment schema request request.fragments.length []) name :=
  every_fragment request acyclic (fun bound active => Resolves schema request (collectFragment schema request bound active))
    (undefined_resolves schema request) (defined_resolves schema request) name

def Requested (type : CompositeIndex) (key : String) (node : Node) : Prop :=
  ∃ selections ∈ request.answering key, Occurs schema request type selections node

theorem collect_all_extends (spread : Spread) (type : CompositeIndex) (resolves : ∀ name, Resolves schema request spread name)
    (sets : List SelectionSet) (tree after : SelectionTree) (known : Collected) (knows : Knows schema request known)
    (collected : collectAll schema spread type sets tree known = .ok after) :
    SelectionTree.Extends (fun node => ∃ selections ∈ sets, Occurs schema request type selections node) tree after := by
  induction sets generalizing tree known with
  | nil =>
      cases Except.ok.inj collected
      exact ⟨fun _ held => held, fun _ ⟨_, empty, _⟩ => (nomatch empty), fun _ before _ => before⟩
  | cons selections rest ih =>
      rw [collectAll] at collected
      obtain ⟨_, _, collected⟩ := (except_bind_ok _ _ _).mp collected
      obtain ⟨⟨held, between⟩, here, collected⟩ := (except_bind_ok _ _ _).mp collected
      obtain ⟨knows', mine⟩ := collect_faithful schema request spread selections (fun name _ => resolves name) type .nil
        held known between knows here
      refine SelectionTree.extends_congr _ _ tree after (fun node => by simp)
        (SelectionTree.extends_trans _ _ tree _ after (SelectionTree.extends_merge _ tree held mine)
          (ih _ between knows' collected))

theorem tree_extends (acyclic : request.Acyclic) (type : CompositeIndex) (key : String) (collected : SelectionTree)
    (made : tree schema type request key = .ok collected) :
    SelectionTree.Extends (Requested schema request type key) .nil collected := by
  exact collect_all_extends schema request _ type (fragment_resolves schema request acyclic) _ .nil collected []
    (fun _ _ _ _ none => nomatch none) made

end

end Selection

end DocGraph
