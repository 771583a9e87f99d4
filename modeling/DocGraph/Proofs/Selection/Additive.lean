import DocGraph.Proofs.Selection.Inlining
import DocGraph.Proofs.Selection.Merging

set_option autoImplicit false

namespace DocGraph

open GraphQL

namespace SelectionTree

theorem leaf_distinct (field : Field) : (leaf field .nil).Distinct := ⟨List.not_mem_nil, trivial⟩

theorem object_distinct (field : Field) (selection : SelectionTree) (inside : selection.Distinct) :
    (object field selection .nil).Distinct := ⟨List.not_mem_nil, inside, trivial⟩

end SelectionTree

def GraphQL.SelectionSet.append : SelectionSet → SelectionSet → SelectionSet
  | .nil, back => back
  | .field alias? name arguments directives selections rest, back =>
      .field alias? name arguments directives selections (rest.append back)
  | .inline condition directives selections rest, back => .inline condition directives selections (rest.append back)
  | .spread fragment directives rest, back => .spread fragment directives (rest.append back)

namespace Selection

structure Inherited (schema : Schema) (holds : SelectionTree → Prop) : Prop where
  nil : holds .nil
  leaf : ∀ composite ∈ schema.composites, ∀ field ∈ composite.fields, holds (.leaf field .nil)
  object : ∀ composite ∈ schema.composites, ∀ field ∈ composite.fields, ∀ selection, holds selection →
    holds (.object field selection .nil)
  merge : ∀ tree other : SelectionTree, holds tree → holds other → holds (tree.merge other)

section

variable (schema : Schema) (holds : SelectionTree → Prop)

def AllHold (known : Collected) : Prop := ∀ entry ∈ known, holds entry.2

def EndsIn (run : Except Error (SelectionTree × Collected)) : Prop :=
  ∀ grown, run = .ok grown → holds grown.1 ∧ AllHold holds grown.2

theorem ends_after {α : Type} (first : Except Error α) (next : α → Except Error (SelectionTree × Collected))
    (late : ∀ value, first = .ok value → EndsIn holds (next value)) : EndsIn holds (first >>= next) := by
  intro grown made
  obtain ⟨value, early, rest⟩ := (except_bind_ok _ _ _).mp made
  exact late value early grown rest

variable (inherited : Inherited schema holds)

include inherited

theorem collect_inherits (spread : Spread)
    (spreads : ∀ name type known, AllHold holds known → EndsIn holds (spread name type known)) (selections : SelectionSet) :
    ∀ type tree known, holds tree → AllHold holds known → EndsIn holds (collect schema spread type selections tree known) := by
  induction selections with
  | nil =>
      intro type tree known before kept grown made
      cases made
      exact ⟨before, kept⟩
  | field alias? name arguments directives selections rest inner ih =>
      intro type tree known before kept
      rw [collect]
      by_cases introspective : isIntrospective name = true
      · rw [if_pos introspective]
        exact ih type tree known before kept
      · rw [if_neg introspective]
        refine ends_after holds _ _ (fun composite found => ends_after holds _ _ (fun field declared => ?_))
        have listed := Schema.composite_mem schema type composite found
        have member := (Composite.name_of_field?_eq_some ((Composite.field_ok composite name field).mp declared)).2
        have leaf := ih type (tree.putLeaf field) known
          (inherited.merge tree (.leaf field .nil) before (inherited.leaf composite listed field member)) kept
        cases field.type.composite? with
        | none => exact leaf
        | some nested =>
            dsimp only
            by_cases empty : selections.isEmpty = true
            · rw [if_pos empty]
              exact leaf
            · rw [if_neg empty]
              refine ends_after holds _ _ (fun _ _ => ends_after holds _ _ (fun grown made => ?_))
              obtain ⟨inside, later⟩ := inner nested .nil known inherited.nil kept grown made
              exact ih type _ grown.2 (inherited.merge tree (.object field grown.1 .nil) before
                (inherited.object composite listed field member grown.1 inside)) later
  | inline condition directives selections rest inner ih =>
      intro type tree known before kept
      rw [collect]
      refine ends_after holds _ _ (fun _ _ => ends_after holds _ _ (fun grown made => ?_))
      obtain ⟨inside, later⟩ := inner _ .nil known inherited.nil kept grown made
      exact ih type _ grown.2 (inherited.merge tree grown.1 before inside) later
  | spread name directives rest ih =>
      intro type tree known before kept
      rw [collect]
      refine ends_after holds _ _ (fun grown made => ?_)
      obtain ⟨inside, later⟩ := spreads name type known kept grown made
      exact ih type _ grown.2 (inherited.merge tree grown.1 before inside) later

theorem collect_fragment_inherits (request : Request) (bound : Nat) : ∀ active name type known, AllHold holds known →
    EndsIn holds (collectFragment schema request bound active name type known) := by
  induction bound using Nat.strongRecOn with
  | ind bound ih =>
      intro active name type known kept
      have nothing : EndsIn holds (.ok (.nil, known)) := by
        intro grown made
        cases made
        exact ⟨inherited.nil, kept⟩
      fun_cases collectFragment schema request bound active name type known with
      | case1 => exact nothing
      | case2 =>
          rename_i tree _ _ found
          intro grown made
          cases made
          obtain ⟨entry, hit, same⟩ := Option.map_eq_some_iff.mp found
          exact ⟨same ▸ kept entry (List.mem_of_find?_eq_some hit), kept⟩
      | case3 => exact nothing
      | case4 => exact nothing
      | case5 =>
          rename_i fragment deeper _ _ _ _
          refine ends_after holds _ _ (fun _ _ => ends_after holds _ _ (fun grown made => ?_))
          obtain ⟨mine, later⟩ := collect_inherits schema holds inherited _
            (ih deeper (Nat.lt_succ_self deeper) (name :: active)) fragment.selections _ .nil known inherited.nil kept grown made
          intro after same
          cases same
          exact ⟨mine, List.forall_mem_append.mpr ⟨later, List.forall_mem_singleton.mpr mine⟩⟩

theorem collect_all_inherits (spread : Spread)
    (spreads : ∀ name type known, AllHold holds known → EndsIn holds (spread name type known)) (type : CompositeIndex)
    (sets : List SelectionSet) : ∀ tree known after, holds tree → AllHold holds known →
      collectAll schema spread type sets tree known = .ok after → holds after := by
  induction sets with
  | nil =>
      intro tree known after before _ made
      exact Except.ok.inj made ▸ before
  | cons selections rest ih =>
      intro tree known after before kept made
      obtain ⟨_, _, made⟩ := (except_bind_ok _ _ _).mp made
      obtain ⟨grown, here, made⟩ := (except_bind_ok _ _ _).mp made
      obtain ⟨inside, later⟩ :=
        collect_inherits schema holds inherited spread spreads selections type .nil known inherited.nil kept grown here
      exact ih _ grown.2 after (inherited.merge tree grown.1 before inside) later made

theorem tree_inherits (type : CompositeIndex) (request : Request) (key : String) (built : SelectionTree)
    (made : tree schema type request key = .ok built) : holds built :=
  collect_all_inherits schema holds inherited _ (collect_fragment_inherits schema holds inherited request _ []) type _ .nil []
    built inherited.nil (fun _ none => nomatch none) made

end

theorem distinct_inherited (schema : Schema) : Inherited schema SelectionTree.Distinct where
  nil := trivial
  leaf _ _ field _ := SelectionTree.leaf_distinct field
  object _ _ field _ selection inside := SelectionTree.object_distinct field selection inside
  merge := SelectionTree.distinct_merge

theorem traced_inherited (schema : Schema) (holds : Field → Prop)
    (declared : ∀ composite ∈ schema.composites, ∀ field ∈ composite.fields, holds field) :
    Inherited schema (fun tree => tree.Traced (fun _ field _ => holds field)) where
  nil := trivial
  leaf composite listed field member :=
    have mine := declared composite listed field member
    ⟨⟨true, mine⟩, ⟨field, rfl, mine⟩, trivial⟩
  object composite listed field member _ inside := ⟨⟨true, declared composite listed field member⟩, inside, trivial⟩
  merge tree other left right := SelectionTree.traced_merge other _ tree left right

theorem tree_distinct (schema : Schema) (type : CompositeIndex) (request : Request) (key : String) (built : SelectionTree)
    (made : tree schema type request key = .ok built) : built.Distinct :=
  tree_inherits schema _ (distinct_inherited schema) type request key built made

def joined (first second : Except Error SelectionTree) : Except Error SelectionTree := do
  let tree ← first
  let other ← second
  return tree.merge other

def MakesDistinct (computed : Except Error SelectionTree) : Prop := ∀ tree, computed = .ok tree → tree.Distinct

theorem makes_distinct (tree : SelectionTree) (distinct : tree.Distinct) : MakesDistinct (.ok tree) :=
  fun _ same => Except.ok.inj same ▸ distinct

theorem joined_distinct (first second : Except Error SelectionTree) (left : MakesDistinct first)
    (right : MakesDistinct second) : MakesDistinct (joined first second) := by
  intro tree made
  obtain ⟨mine, early, made⟩ := (except_bind_ok _ _ _).mp made
  obtain ⟨theirs, late, same⟩ := (except_bind_ok _ _ _).mp made
  exact Except.ok.inj same ▸ SelectionTree.distinct_merge mine theirs (left mine early) (right theirs late)

theorem joined_assoc (first second third : Except Error SelectionTree) (one : MakesDistinct first)
    (two : MakesDistinct second) (three : MakesDistinct third) :
    joined (joined first second) third = joined first (joined second third) := by
  cases first with
  | error error => rfl
  | ok tree =>
      cases second with
      | error error => rfl
      | ok middle =>
          cases third with
          | error error => rfl
          | ok other =>
              exact congrArg Except.ok (SelectionTree.merge_assoc tree middle other (one _ rfl) (two _ rfl) (three _ rfl))

theorem nil_joined (computed : Except Error SelectionTree) (distinct : MakesDistinct computed) :
    joined (.ok .nil) computed = computed := by
  cases computed with
  | error error => rfl
  | ok tree => exact congrArg Except.ok (SelectionTree.nil_merge tree (distinct tree rfl))

theorem joined_nil (computed : Except Error SelectionTree) : joined computed (.ok .nil) = computed := by
  cases computed <;> rfl

theorem joined_self (computed : Except Error SelectionTree) (distinct : MakesDistinct computed) :
    joined computed computed = computed := by
  cases computed with
  | error error => rfl
  | ok tree => exact congrArg Except.ok (SelectionTree.merge_self tree (distinct tree rfl))

section

variable (schema : Schema) (request : Request) (collector : Collector)

def asked (type : CompositeIndex) (name : String) (selections : SelectionSet) : Except Error SelectionTree := do
  if isIntrospective name then return .nil
  else
    let field ← (← schema.composite type).field name
    match field.type.composite? with
    | some nested =>
        if selections.isEmpty then return .leaf field .nil
        else
          let _ ← schema.composite nested
          let inner ← collector nested selections
          return .object field inner .nil
    | none => return .leaf field .nil

def applied (type : CompositeIndex) (condition : Option String) (selections : SelectionSet) : Except Error SelectionTree := do
  let target := target schema type condition
  let _ ← schema.composite target
  collector target selections

theorem gather_field (type : CompositeIndex) (alias? : Option String) (name : String) (arguments : List Argument)
    (directives : List Directive) (selections rest : SelectionSet) (naive : IsNaive schema request collector)
    (tree : SelectionTree) :
    gather schema request collector type (.field alias? name arguments directives selections rest) tree =
      asked schema collector type name selections >>= fun inner =>
        gather schema request collector type rest (tree.merge inner) := by
  rw [gather, asked]
  by_cases introspective : isIntrospective name = true
  · rw [if_pos introspective, if_pos introspective]
    rfl
  · rw [if_neg introspective, if_neg introspective, bind_assoc]
    refine except_bind_congr _ _ _ (fun composite _ => ?_)
    rw [bind_assoc]
    refine except_bind_congr _ _ _ (fun field _ => ?_)
    cases field.type.composite? with
    | none => rfl
    | some nested =>
        dsimp only
        by_cases empty : selections.isEmpty = true
        · rw [if_pos empty, if_pos empty]
          rfl
        · rw [if_neg empty, if_neg empty, bind_assoc]
          refine except_bind_congr _ _ _ (fun _ _ => ?_)
          rw [bind_assoc, naive]
          rfl

theorem gather_inline (type : CompositeIndex) (condition : Option String) (directives : List Directive)
    (selections rest : SelectionSet) (naive : IsNaive schema request collector) (tree : SelectionTree) :
    gather schema request collector type (.inline condition directives selections rest) tree =
      applied schema collector type condition selections >>= fun inner =>
        gather schema request collector type rest (tree.merge inner) := by
  rw [gather, applied, bind_assoc, naive]

section

variable (acyclic : request.Acyclic) (naive : IsNaive schema request collector)

include acyclic naive

theorem collector_distinct (type : CompositeIndex) (selections : SelectionSet) : MakesDistinct (collector type selections) := by
  intro tree made
  have agrees := collect_agrees schema request collector (collectFragment schema request request.fragments.length [])
    selections (fun name _ => fragment_fetched schema request collector acyclic naive name) type .nil []
    (nothing_sound schema request collector)
  rw [← naive, made] at agrees
  cases run : collect schema (collectFragment schema request request.fragments.length []) type selections .nil [] with
  | error error =>
      rw [run] at agrees
      cases agrees
  | ok grown =>
      rw [run] at agrees
      cases agrees.1
      have inherited := distinct_inherited schema
      exact (collect_inherits schema _ inherited _ (collect_fragment_inherits schema _ inherited request _ []) selections type
        .nil [] trivial (fun _ none => nomatch none) grown run).1

theorem asked_distinct (type : CompositeIndex) (name : String) (selections : SelectionSet) :
    MakesDistinct (asked schema collector type name selections) := by
  intro tree made
  rw [asked] at made
  by_cases introspective : isIntrospective name = true
  · rw [if_pos introspective] at made
    cases made
    trivial
  · rw [if_neg introspective] at made
    obtain ⟨composite, _, made⟩ := (except_bind_ok _ _ _).mp made
    obtain ⟨field, _, made⟩ := (except_bind_ok _ _ _).mp made
    have leaf := SelectionTree.leaf_distinct field
    cases leads : field.type.composite? with
    | none =>
        rw [leads] at made
        exact Except.ok.inj made ▸ leaf
    | some nested =>
        rw [leads] at made
        dsimp only at made
        by_cases empty : selections.isEmpty = true
        · rw [if_pos empty] at made
          exact Except.ok.inj made ▸ leaf
        · rw [if_neg empty] at made
          obtain ⟨_, _, made⟩ := (except_bind_ok _ _ _).mp made
          obtain ⟨inner, inside, made⟩ := (except_bind_ok _ _ _).mp made
          have distinct := collector_distinct schema request collector acyclic naive nested selections inner inside
          exact Except.ok.inj made ▸ SelectionTree.object_distinct field inner distinct

theorem applied_distinct (type : CompositeIndex) (condition : Option String) (selections : SelectionSet) :
    MakesDistinct (applied schema collector type condition selections) := by
  intro tree made
  obtain ⟨_, _, made⟩ := (except_bind_ok _ _ _).mp made
  exact collector_distinct schema request collector acyclic naive _ selections tree made

theorem fetched_distinct (type : CompositeIndex) (name : String) :
    MakesDistinct (fetched schema request collector name type) := by
  intro tree made
  rw [fetched] at made
  cases found : request.fragment? name with
  | none =>
      rw [found] at made
      exact Except.ok.inj made ▸ trivial
  | some fragment =>
      rw [found] at made
      exact applied_distinct schema request collector acyclic naive type (some fragment.condition) fragment.selections tree made

theorem gather_step (type : CompositeIndex) (selections rest : SelectionSet) (first : Except Error SelectionTree)
    (distinct : MakesDistinct first) (splits : ∀ tree, gather schema request collector type selections tree =
      first >>= fun inner => gather schema request collector type rest (tree.merge inner))
    (follows : ∀ tree : SelectionTree, tree.Distinct →
      gather schema request collector type rest tree = joined (.ok tree) (collector type rest)) :
    collector type selections = joined first (collector type rest) ∧
      ∀ tree : SelectionTree, tree.Distinct →
        gather schema request collector type selections tree = joined (.ok tree) (collector type selections) := by
  have added (tree : SelectionTree) (before : tree.Distinct) : gather schema request collector type selections tree =
      joined (.ok tree) (joined first (collector type rest)) := by
    calc gather schema request collector type selections tree
        = first >>= fun inner => gather schema request collector type rest (tree.merge inner) := splits tree
      _ = first >>= fun inner => joined (.ok (tree.merge inner)) (collector type rest) :=
          except_bind_congr _ _ _ (fun inner made =>
            follows _ (SelectionTree.distinct_merge tree inner before (distinct inner made)))
      _ = joined (joined (.ok tree) first) (collector type rest) := by cases first <;> rfl
      _ = joined (.ok tree) (joined first (collector type rest)) :=
          joined_assoc _ _ _ (makes_distinct tree before) distinct
            (collector_distinct schema request collector acyclic naive type rest)
  have whole : collector type selections = joined first (collector type rest) := by
    rw [naive, added .nil trivial, nil_joined]
    exact joined_distinct _ _ distinct (collector_distinct schema request collector acyclic naive type rest)
  exact ⟨whole, fun tree before => whole ▸ added tree before⟩

theorem gather_onto (type : CompositeIndex) (selections : SelectionSet) : ∀ tree : SelectionTree, tree.Distinct →
    gather schema request collector type selections tree = joined (.ok tree) (collector type selections) := by
  induction selections with
  | nil =>
      intro tree _
      rw [naive]
      rfl
  | field alias? name arguments directives selections rest _ ih =>
      exact (gather_step schema request collector acyclic naive type _ rest _
        (asked_distinct schema request collector acyclic naive type name selections)
        (gather_field schema request collector type alias? name arguments directives selections rest naive) ih).2
  | inline condition directives selections rest _ ih =>
      exact (gather_step schema request collector acyclic naive type _ rest _
        (applied_distinct schema request collector acyclic naive type condition selections)
        (gather_inline schema request collector type condition directives selections rest naive) ih).2
  | spread name directives rest ih =>
      exact (gather_step schema request collector acyclic naive type _ rest _
        (fetched_distinct schema request collector acyclic naive type name)
        (gather_spread schema request collector type name directives rest) ih).2

theorem collector_splits (type : CompositeIndex) (selections rest : SelectionSet) (first : Except Error SelectionTree)
    (distinct : MakesDistinct first) (splits : ∀ tree, gather schema request collector type selections tree =
      first >>= fun inner => gather schema request collector type rest (tree.merge inner)) :
    collector type selections = joined first (collector type rest) :=
  (gather_step schema request collector acyclic naive type selections rest first distinct splits
    (gather_onto schema request collector acyclic naive type rest)).1

theorem collector_field (type : CompositeIndex) (alias? : Option String) (name : String) (arguments : List Argument)
    (directives : List Directive) (selections rest : SelectionSet) :
    collector type (.field alias? name arguments directives selections rest) =
      joined (asked schema collector type name selections) (collector type rest) :=
  collector_splits schema request collector acyclic naive type _ rest _
    (asked_distinct schema request collector acyclic naive type name selections)
    (gather_field schema request collector type alias? name arguments directives selections rest naive)

theorem collector_inline (type : CompositeIndex) (condition : Option String) (directives : List Directive)
    (selections rest : SelectionSet) : collector type (.inline condition directives selections rest) =
      joined (applied schema collector type condition selections) (collector type rest) :=
  collector_splits schema request collector acyclic naive type _ rest _
    (applied_distinct schema request collector acyclic naive type condition selections)
    (gather_inline schema request collector type condition directives selections rest naive)

theorem collector_spread (type : CompositeIndex) (name : String) (directives : List Directive) (rest : SelectionSet) :
    collector type (.spread name directives rest) =
      joined (fetched schema request collector name type) (collector type rest) :=
  collector_splits schema request collector acyclic naive type _ rest _
    (fetched_distinct schema request collector acyclic naive type name)
    (gather_spread schema request collector type name directives rest)

theorem collector_append (type : CompositeIndex) (back : SelectionSet) (front : SelectionSet) :
    collector type (front.append back) = joined (collector type front) (collector type back) := by
  have distinct := collector_distinct schema request collector acyclic naive type
  induction front with
  | nil =>
      have nothing : collector type .nil = .ok .nil := naive type .nil
      rw [SelectionSet.append, nothing, nil_joined _ (distinct back)]
  | field alias? name arguments directives selections rest _ ih =>
      rw [SelectionSet.append, collector_field schema request collector acyclic naive,
        collector_field schema request collector acyclic naive, ih, joined_assoc _ _ _ _ (distinct rest) (distinct back)]
      exact asked_distinct schema request collector acyclic naive type name selections
  | inline condition directives selections rest _ ih =>
      rw [SelectionSet.append, collector_inline schema request collector acyclic naive,
        collector_inline schema request collector acyclic naive, ih, joined_assoc _ _ _ _ (distinct rest) (distinct back)]
      exact applied_distinct schema request collector acyclic naive type condition selections
  | spread name directives rest ih =>
      rw [SelectionSet.append, collector_spread schema request collector acyclic naive,
        collector_spread schema request collector acyclic naive, ih, joined_assoc _ _ _ _ (distinct rest) (distinct back)]
      exact fetched_distinct schema request collector acyclic naive type name

end

end

end Selection

end DocGraph
