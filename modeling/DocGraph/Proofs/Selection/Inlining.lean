import DocGraph.Proofs.Selection.Occurrences

set_option autoImplicit false

namespace DocGraph

open GraphQL

namespace Selection

section

variable (schema : Schema) (request : Request)

-- The spread of a fragment on a type, while those named in `active` are being collected: what it asks for and what is
-- known of fragments then. A fragment is entered once all calls that its selections make are answered.
inductive Fetches : List String → String → CompositeIndex → Collected → Except Error (SelectionTree × Collected) → Prop where
  | undefined (active : List String) (name : String) (type : CompositeIndex) (known : Collected)
      (missing : request.fragment? name = none) : Fetches active name type known (.ok (.nil, known))
  | remembered (active : List String) (name : String) (type : CompositeIndex) (known : Collected) (fragment : Fragment)
      (tree : SelectionTree) (found : request.fragment? name = some fragment)
      (held : collected? known name (target schema type (some fragment.condition)) = some tree) :
      Fetches active name type known (.ok (tree, known))
  | underWay (active : List String) (name : String) (type : CompositeIndex) (known : Collected) (fragment : Fragment)
      (found : request.fragment? name = some fragment)
      (unknown : collected? known name (target schema type (some fragment.condition)) = none) (again : name ∈ active) :
      Fetches active name type known (.ok (.nil, known))
  | entered (active : List String) (name : String) (type : CompositeIndex) (known : Collected) (fragment : Fragment)
      (spread : Spread) (found : request.fragment? name = some fragment)
      (unknown : collected? known name (target schema type (some fragment.condition)) = none) (fresh : name ∉ active)
      (inside : ∀ inner ∈ fragment.selections.spreads, ∀ place before,
        Fetches (name :: active) inner place before (spread inner place before)) :
      Fetches active name type known (do
        let applied := target schema type (some fragment.condition)
        let _ ← schema.composite applied
        let (tree, after) ← collect schema spread applied fragment.selections .nil known
        return (tree, after ++ [((name, applied), tree)]))

theorem collect_congr (spread other : Spread) (selections : SelectionSet)
    (same : ∀ name ∈ selections.spreads, ∀ type known, spread name type known = other name type known) :
    ∀ type tree known, collect schema spread type selections tree known = collect schema other type selections tree known := by
  induction selections with
  | nil => exact fun _ _ _ => rfl
  | field alias? name arguments directives selections rest inner ih =>
      intro type tree known
      simp only [collect, inner (fun name member => same name (List.mem_append.mpr (.inl member))),
        ih (fun name member => same name (List.mem_append.mpr (.inr member)))]
  | inline condition directives selections rest inner ih =>
      intro type tree known
      simp only [collect, inner (fun name member => same name (List.mem_append.mpr (.inl member))),
        ih (fun name member => same name (List.mem_append.mpr (.inr member)))]
  | spread name directives rest ih =>
      intro type tree known
      simp only [collect, same name (List.mem_cons_self ..),
        ih (fun inner member => same inner (List.mem_cons_of_mem name member))]

theorem fetches_unique (active : List String) (name : String) (type : CompositeIndex) (known : Collected)
    (result : Except Error (SelectionTree × Collected)) (fetches : Fetches schema request active name type known result) :
    ∀ other, Fetches schema request active name type known other → result = other := by
  induction fetches with
  | undefined active name type known missing =>
      intro other again
      cases again with
      | undefined => rfl
      | remembered _ _ _ _ _ _ found => cases missing.symm.trans found
      | underWay _ _ _ _ _ found => cases missing.symm.trans found
      | entered _ _ _ _ _ _ found => cases missing.symm.trans found
  | remembered active name type known fragment tree found held =>
      intro other again
      cases again with
      | undefined _ _ _ _ missing => cases missing.symm.trans found
      | remembered _ _ _ _ second stored defined listed =>
          cases found.symm.trans defined
          cases held.symm.trans listed
          rfl
      | underWay _ _ _ _ second defined unknown =>
          cases found.symm.trans defined
          cases unknown.symm.trans held
      | entered _ _ _ _ second spread defined unknown =>
          cases found.symm.trans defined
          cases unknown.symm.trans held
  | underWay active name type known fragment found unknown again =>
      intro other result
      cases result with
      | undefined => rfl
      | remembered _ _ _ _ second stored defined listed =>
          cases found.symm.trans defined
          cases unknown.symm.trans listed
      | underWay => rfl
      | entered _ _ _ _ second spread defined _ fresh => exact absurd again fresh
  | entered active name type known fragment spread found unknown fresh inside ih =>
      intro other again
      cases again with
      | undefined _ _ _ _ missing => cases missing.symm.trans found
      | remembered _ _ _ _ second stored defined listed =>
          cases found.symm.trans defined
          cases unknown.symm.trans listed
      | underWay _ _ _ _ second defined _ member => exact absurd member fresh
      | entered _ _ _ _ second beside defined _ _ within =>
          cases found.symm.trans defined
          have same := collect_congr schema spread beside fragment.selections
            (fun inner listed place before => ih inner listed place before _ (within inner listed place before))
          simp only [same]

-- Each fragment under way is entered once, so the fragments of the request bound how deep fragments nest.
theorem fragment_fetches (bound : Nat) : ∀ (active : List String) (name : String) (type : CompositeIndex) (known : Collected),
    active.Nodup → (∀ held ∈ active, held ∈ request.fragments.map Fragment.name) →
    request.fragments.length ≤ active.length + bound →
    Fetches schema request active name type known (collectFragment schema request bound active name type known) := by
  induction bound with
  | zero =>
      intro active name type known distinct named enough
      rw [collectFragment]
      cases found : request.fragment? name with
      | none => exact .undefined active name type known found
      | some fragment =>
          dsimp only
          cases held : collected? known name (target schema type (some fragment.condition)) with
          | some tree => exact .remembered active name type known fragment tree found held
          | none =>
              by_cases again : name ∈ active
              · rw [if_pos (List.contains_iff_mem.mpr again)]
                exact .underWay active name type known fragment found held again
              · have few := active_length request active name fragment distinct named again found
                omega
  | succ bound ih =>
      intro active name type known distinct named enough
      rw [collectFragment]
      cases found : request.fragment? name with
      | none => exact .undefined active name type known found
      | some fragment =>
          dsimp only
          cases held : collected? known name (target schema type (some fragment.condition)) with
          | some tree => exact .remembered active name type known fragment tree found held
          | none =>
              by_cases again : name ∈ active
              · rw [if_pos (List.contains_iff_mem.mpr again)]
                exact .underWay active name type known fragment found held again
              · rw [if_neg (fun member => again (List.contains_iff_mem.mp member))]
                refine .entered active name type known fragment _ found held again (fun inner _ place before => ?_)
                refine ih (name :: active) inner place before (List.nodup_cons.mpr ⟨again, distinct⟩)
                  (List.forall_mem_cons.mpr ⟨fragment_named request name fragment found, named⟩) ?_
                rw [List.length_cons]
                omega

abbrev Collector := CompositeIndex → SelectionSet → Except Error SelectionTree

-- Adds the fields of a selection set on `type` to `tree`, fragments being collected anew wherever they are spread.
def gather (collector : Collector) (type : CompositeIndex) : SelectionSet → SelectionTree → Except Error SelectionTree
  | .nil, tree => .ok tree
  | .field _ name _ _ selections rest, tree => do
      if isIntrospective name then gather collector type rest tree
      else
        let field ← (← schema.composite type).field name
        match field.type.composite? with
        | some nested =>
            if selections.isEmpty then gather collector type rest (tree.putLeaf field)
            else
              let _ ← schema.composite nested
              let inner ← gather collector nested selections .nil
              gather collector type rest (tree.merge (.object field inner .nil))
        | none => gather collector type rest (tree.putLeaf field)
  | .inline condition _ selections rest, tree => do
      let applied := target schema type condition
      let _ ← schema.composite applied
      let inner ← gather collector applied selections .nil
      gather collector type rest (tree.merge inner)
  | .spread name _ rest, tree =>
      match request.fragment? name with
      | none => gather collector type rest tree
      | some fragment => do
          let applied := target schema type (some fragment.condition)
          let _ ← schema.composite applied
          let inner ← collector applied fragment.selections
          gather collector type rest (tree.merge inner)
termination_by structural selections => selections

def IsNaive (collector : Collector) : Prop :=
  ∀ type selections, collector type selections = gather schema request collector type selections .nil

def gatherAll (collector : Collector) (type : CompositeIndex) : List SelectionSet → SelectionTree → Except Error SelectionTree
  | [], tree => .ok tree
  | selections :: rest, tree => do
      let _ ← schema.composite type
      let inner ← collector type selections
      gatherAll collector type rest (tree.merge inner)

theorem gather_congr (collector other : Collector) (selections : SelectionSet)
    (same : ∀ name ∈ selections.spreads, ∀ fragment, request.fragment? name = some fragment →
      ∀ type, collector type fragment.selections = other type fragment.selections) :
    ∀ type tree, gather schema request collector type selections tree = gather schema request other type selections tree := by
  induction selections with
  | nil => exact fun _ _ => rfl
  | field alias? name arguments directives selections rest inner ih =>
      intro type tree
      simp only [gather, inner (fun name member => same name (List.mem_append.mpr (.inl member))),
        ih (fun name member => same name (List.mem_append.mpr (.inr member)))]
  | inline condition directives selections rest inner ih =>
      intro type tree
      simp only [gather, inner (fun name member => same name (List.mem_append.mpr (.inl member))),
        ih (fun name member => same name (List.mem_append.mpr (.inr member)))]
  | spread name directives rest ih =>
      intro type tree
      rw [gather, gather]
      cases found : request.fragment? name with
      | none => exact ih (fun inner member => same inner (List.mem_cons_of_mem name member)) type tree
      | some fragment =>
          simp only [same name (List.mem_cons_self ..) fragment found,
            ih (fun inner member => same inner (List.mem_cons_of_mem name member))]

-- The naive collection, cut off where fragments nest deeper than `depth`.
def gatherTo : Nat → Collector
  | 0 => fun _ _ => .ok .nil
  | depth + 1 => fun type selections => gather schema request (gatherTo depth) type selections .nil

theorem gather_to_stable (acyclic : request.Acyclic) (name : String) (fragment : Fragment)
    (found : request.fragment? name = some fragment) (depth : Nat) (deep : request.fragments.length ≤ depth)
    (type : CompositeIndex) : gatherTo schema request depth type fragment.selections =
      gatherTo schema request request.fragments.length type fragment.selections := by
  refine every_fragment request acyclic (fun bound _ name => ∀ fragment, request.fragment? name = some fragment →
    ∀ depth, bound ≤ depth → ∀ type, gatherTo schema request depth type fragment.selections =
      gatherTo schema request bound type fragment.selections) ?_ ?_ name fragment found depth deep type
  · intro _ _ name missing fragment found
    cases missing.symm.trans found
  · intro bound active name fragment found _ inner other defined depth deep type
    cases found.symm.trans defined
    obtain ⟨depth, rfl⟩ := Nat.exists_eq_add_of_le' (Nat.le_trans (Nat.le_add_left 1 bound) deep)
    exact gather_congr schema request _ _ fragment.selections (fun name listed fragment found type =>
      inner name listed fragment found depth (Nat.le_of_succ_le_succ deep) type) type .nil

theorem naive_exists (acyclic : request.Acyclic) :
    IsNaive schema request (gatherTo schema request (request.fragments.length + 1)) := by
  intro type selections
  refine gather_congr schema request _ _ selections (fun name _ fragment found type => ?_) type .nil
  exact (gather_to_stable schema request acyclic name fragment found _ (Nat.le_succ _) type).symm

section

variable (collector : Collector)

def IsSound (known : Collected) : Prop :=
  ∀ name type tree fragment, collected? known name type = some tree → request.fragment? name = some fragment →
    (do let _ ← schema.composite type; collector type fragment.selections) = .ok tree

theorem nothing_sound : IsSound schema request collector [] := fun _ _ _ _ known => nomatch known

def Agrees : Except Error (SelectionTree × Collected) → Except Error SelectionTree → Prop
  | .error error, plain => plain = .error error
  | .ok (tree, known), plain => plain = .ok tree ∧ IsSound schema request collector known

theorem agrees_bind (run : Except Error (SelectionTree × Collected)) (plain : Except Error SelectionTree)
    (next : SelectionTree × Collected → Except Error (SelectionTree × Collected))
    (after : SelectionTree → Except Error SelectionTree)
    (early : Agrees schema request collector run plain)
    (late : ∀ tree known, plain = .ok tree → IsSound schema request collector known →
      Agrees schema request collector (next (tree, known)) (after tree)) :
    Agrees schema request collector (run >>= next) (plain >>= after) := by
  cases run with
  | error error => exact early ▸ rfl
  | ok grown =>
      obtain ⟨same, sound⟩ := early
      rw [same]
      exact late grown.1 grown.2 same sound

theorem agrees_after {α : Type} (first : Except Error α) (next : α → Except Error (SelectionTree × Collected))
    (after : α → Except Error SelectionTree)
    (late : ∀ value, first = .ok value → Agrees schema request collector (next value) (after value)) :
    Agrees schema request collector (first >>= next) (first >>= after) := by
  cases first with
  | error error => rfl
  | ok value => exact late value rfl

def fetched (name : String) (type : CompositeIndex) : Except Error SelectionTree :=
  match request.fragment? name with
  | none => .ok .nil
  | some fragment => do
      let applied := target schema type (some fragment.condition)
      let _ ← schema.composite applied
      collector applied fragment.selections

def Fetched (spread : Spread) (name : String) : Prop :=
  ∀ type known, IsSound schema request collector known →
    Agrees schema request collector (spread name type known) (fetched schema request collector name type)

theorem gather_spread (type : CompositeIndex) (name : String) (directives : List Directive) (rest : SelectionSet)
    (tree : SelectionTree) : gather schema request collector type (.spread name directives rest) tree =
      fetched schema request collector name type >>= fun inner =>
        gather schema request collector type rest (tree.merge inner) := by
  rw [gather, fetched]
  cases request.fragment? name with
  | none => rfl
  | some fragment =>
      dsimp only
      cases schema.composite (target schema type (some fragment.condition)) <;> rfl

theorem collect_agrees (spread : Spread) (selections : SelectionSet)
    (fetched : ∀ name ∈ selections.spreads, Fetched schema request collector spread name) :
    ∀ type tree known, IsSound schema request collector known →
      Agrees schema request collector (collect schema spread type selections tree known)
        (gather schema request collector type selections tree) := by
  induction selections with
  | nil => exact fun _ _ _ sound => ⟨rfl, sound⟩
  | field alias? name arguments directives selections rest inner ih =>
      intro type tree known sound
      have inner := inner (fun name member => fetched name (List.mem_append.mpr (.inl member)))
      have ih := ih (fun name member => fetched name (List.mem_append.mpr (.inr member)))
      rw [collect, gather]
      by_cases introspective : isIntrospective name = true
      · rw [if_pos introspective, if_pos introspective]
        exact ih type tree known sound
      · rw [if_neg introspective, if_neg introspective]
        refine agrees_after schema request collector _ _ _ (fun composite _ => ?_)
        refine agrees_after schema request collector _ _ _ (fun field _ => ?_)
        cases field.type.composite? with
        | none => exact ih type _ known sound
        | some nested =>
            dsimp only
            by_cases empty : selections.isEmpty = true
            · rw [if_pos empty, if_pos empty]
              exact ih type _ known sound
            · rw [if_neg empty, if_neg empty]
              refine agrees_after schema request collector _ _ _ (fun _ _ => ?_)
              refine agrees_bind schema request collector _ _ _ _ (inner nested .nil known sound) (fun held later _ kept => ?_)
              exact ih type _ later kept
  | inline condition directives selections rest inner ih =>
      intro type tree known sound
      rw [collect, gather]
      refine agrees_after schema request collector _ _ _ (fun _ _ => ?_)
      refine agrees_bind schema request collector _ _ _ _
        (inner (fun name member => fetched name (List.mem_append.mpr (.inl member))) _ .nil known sound)
        (fun held later _ kept => ?_)
      exact ih (fun name member => fetched name (List.mem_append.mpr (.inr member))) type _ later kept
  | spread name directives rest ih =>
      intro type tree known sound
      rw [collect, gather_spread]
      refine agrees_bind schema request collector _ _ _ _ (fetched name (List.mem_cons_self ..) type known sound)
        (fun held later _ kept => ?_)
      exact ih (fun inner member => fetched inner (List.mem_cons_of_mem name member)) type _ later kept

theorem undefined_fetched (bound : Nat) (active : List String) (name : String) (missing : request.fragment? name = none) :
    Fetched schema request collector (collectFragment schema request bound active) name := by
  intro type known sound
  have nothing : collectFragment schema request bound active name type known = .ok (.nil, known) := by
    cases bound <;> rw [collectFragment, missing]
  rw [nothing, fetched, missing]
  exact ⟨rfl, sound⟩

theorem defined_fetched (naive : IsNaive schema request collector) (bound : Nat) (active : List String) (name : String)
    (fragment : Fragment) (found : request.fragment? name = some fragment) (fresh : name ∉ active)
    (inner : ∀ other ∈ fragment.selections.spreads,
      Fetched schema request collector (collectFragment schema request bound (name :: active)) other) :
    Fetched schema request collector (collectFragment schema request (bound + 1) active) name := by
  intro type known sound
  rw [collectFragment, fetched, found]
  dsimp only
  cases held : collected? known name (target schema type (some fragment.condition)) with
  | some tree => exact ⟨sound name _ tree fragment held found, sound⟩
  | none =>
      rw [if_neg (fun member => fresh (List.contains_iff_mem.mp member))]
      refine agrees_after schema request collector _ _ _ (fun composite declared => ?_)
      have collects := collect_agrees schema request collector _ fragment.selections inner
        (target schema type (some fragment.condition)) .nil known sound
      rw [← naive] at collects
      rw [← bind_pure (collector _ _)]
      refine agrees_bind schema request collector _ _ _ _ collects (fun tree later made kept => ⟨rfl, ?_⟩)
      intro other place stored second listed defined
      rcases collected_append later name _ tree other place stored listed with before | ⟨rfl, rfl, rfl⟩
      · exact kept other place stored second before defined
      · cases found.symm.trans defined
        rw [declared]
        exact made

theorem fragment_fetched (acyclic : request.Acyclic) (naive : IsNaive schema request collector) (name : String) :
    Fetched schema request collector (collectFragment schema request request.fragments.length []) name :=
  every_fragment request acyclic
    (fun bound active => Fetched schema request collector (collectFragment schema request bound active))
    (undefined_fetched schema request collector) (defined_fetched schema request collector naive) name

theorem collect_all_gathers (acyclic : request.Acyclic) (naive : IsNaive schema request collector) (type : CompositeIndex)
    (sets : List SelectionSet) : ∀ tree known, IsSound schema request collector known →
      collectAll schema (collectFragment schema request request.fragments.length []) type sets tree known =
        gatherAll schema collector type sets tree := by
  induction sets with
  | nil => exact fun _ _ _ => rfl
  | cons selections rest ih =>
      intro tree known sound
      have here := collect_agrees schema request collector _ selections
        (fun name _ => fragment_fetched schema request collector acyclic naive name) type .nil known sound
      rw [← naive] at here
      rw [collectAll, gatherAll]
      cases schema.composite type with
      | error error => rfl
      | ok composite =>
          change (collect schema _ type selections .nil known >>= _) = (collector type selections >>= _)
          cases run : collect schema _ type selections .nil known with
          | error error =>
              rw [run] at here
              exact here ▸ rfl
          | ok grown =>
              rw [run] at here
              rw [here.1]
              exact ih _ grown.2 here.2

end

-- For every schema and request. The field nodes are `sets`, of which `tree` takes those that answer to a key.
theorem collection_inlines :
    (∀ name type known result, Fetches schema request [] name type known result ↔
      result = collectFragment schema request request.fragments.length [] name type known) ∧
    (request.Acyclic → (∃ collector, IsNaive schema request collector) ∧
      ∀ collector, IsNaive schema request collector → ∀ type sets,
        collectAll schema (collectFragment schema request request.fragments.length []) type sets .nil [] =
          gatherAll schema collector type sets .nil) := by
  have ends (name : String) (type : CompositeIndex) (known : Collected) :=
    fragment_fetches schema request request.fragments.length [] name type known .nil (fun _ none => nomatch none)
      (Nat.le_of_eq (Nat.zero_add _).symm)
  constructor
  · intro name type known result
    constructor
    · exact fun fetches => fetches_unique schema request [] name type known result fetches _ (ends name type known)
    · rintro rfl
      exact ends name type known
  · intro acyclic
    refine ⟨⟨_, naive_exists schema request acyclic⟩, fun collector naive type sets => ?_⟩
    exact collect_all_gathers schema request collector acyclic naive type sets .nil [] (nothing_sound schema request collector)

end

def nameField : Field := { name := "name", type := .scalar .string }

def sizeField : Field := { name := "size", type := .scalar .int }

def parentField : Field := { name := "parent", type := .named (.composite .object ⟨0⟩) }

def folders : Schema where
  composites := [{ name := "Folder", kind := .object, fields := [nameField, sizeField, parentField] }]

def asking (name : String) (selections rest : SelectionSet) : SelectionSet := .field none name [] [] selections rest

def spreading (name : String) (rest : SelectionSet) : SelectionSet := .spread name [] rest

def foldersRequest (selections names sizes : SelectionSet) : Request where
  operations := [{
    kind := .query
    name := none
    variableDefinitions := []
    directives := []
    selections := asking "folders" selections .nil }]
  fragments := [
    { name := "names", condition := "Folder", directives := [], selections := names },
    { name := "sizes", condition := "Folder", directives := [], selections := sizes }]

def nestedRequest : Request :=
  foldersRequest (spreading "names" (asking "parent" (spreading "sizes" (spreading "names" .nil)) (spreading "lost" .nil)))
    (asking "name" .nil (spreading "sizes" .nil)) (asking "size" .nil .nil)

theorem nested_request_acyclic : nestedRequest.Acyclic := by
  refine nestedRequest.acyclic_of_rank (fun name => if name = "names" then 1 else 0) (fun name inner spreads => ?_)
  obtain ⟨fragment, found, listed⟩ := spreads
  have named : fragment.name = name := by simpa using List.find?_some found
  have member := List.mem_of_find?_eq_some found
  simp only [nestedRequest, foldersRequest, List.mem_cons, List.not_mem_nil, or_false] at member
  obtain rfl | rfl := member
  · cases named
    cases List.mem_singleton.mp listed
    decide
  · cases listed

def nestedTree : SelectionTree :=
  .leaf nameField (.leaf sizeField (.object parentField (.leaf sizeField (.leaf nameField .nil)) .nil))

theorem nested_request_inlined :
    nestedRequest.Acyclic ∧ (∃ collector, IsNaive folders nestedRequest collector) ∧
      ∀ collector, IsNaive folders nestedRequest collector →
        gatherAll folders collector ⟨0⟩ (nestedRequest.answering "folders") .nil = .ok nestedTree := by
  have collected : tree folders ⟨0⟩ nestedRequest "folders" = .ok nestedTree := (except_option_ok _ _).mp (by decide +kernel)
  obtain ⟨naive, gathers⟩ := (collection_inlines folders nestedRequest).2 nested_request_acyclic
  exact ⟨nested_request_acyclic, naive, fun collector is => (gathers collector is ⟨0⟩ _).symm.trans collected⟩

end Selection

end DocGraph
