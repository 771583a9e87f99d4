import DocGraph.Projection
import DocGraph.Proofs.Selection.Rearrangement

set_option autoImplicit false

namespace DocGraph

namespace GraphQL

theorem SelectionSet.append_assoc (middle back : SelectionSet) (front : SelectionSet) :
    (front.append middle).append back = front.append (middle.append back) := by
  induction front with
  | nil => rfl
  | field _ _ _ _ _ _ _ ih => rw [append, append, append, ih]
  | inline _ _ _ _ _ ih => rw [append, append, append, ih]
  | spread _ _ _ ih => rw [append, append, append, ih]

section

variable (request : Request)

-- The fields of a selection set, those in its fragments in place of these. The spread of an undefined fragment is dropped.
inductive Expands : SelectionSet → SelectionSet → Prop where
  | nil : Expands .nil .nil
  | field (alias? : Option String) (name : String) (arguments : List Argument) (directives : List Directive)
      (selections rest expanded : SelectionSet) (later : Expands rest expanded) :
      Expands (.field alias? name arguments directives selections rest)
        (.field alias? name arguments directives selections expanded)
  | inline (condition : Option String) (directives : List Directive) (selections rest inner expanded : SelectionSet)
      (inside : Expands selections inner) (later : Expands rest expanded) :
      Expands (.inline condition directives selections rest) (inner.append expanded)
  | spread (name : String) (directives : List Directive) (rest : SelectionSet) (fragment : Fragment)
      (inner expanded : SelectionSet) (found : request.fragment? name = some fragment)
      (inside : Expands fragment.selections inner) (later : Expands rest expanded) :
      Expands (.spread name directives rest) (inner.append expanded)
  | undefined (name : String) (directives : List Directive) (rest expanded : SelectionSet)
      (missing : request.fragment? name = none) (later : Expands rest expanded) :
      Expands (.spread name directives rest) expanded

theorem expands_unique (selections expanded : SelectionSet) (expands : Expands request selections expanded) :
    ∀ other, Expands request selections other → expanded = other := by
  induction expands with
  | nil =>
      intro other again
      cases again
      rfl
  | field alias? name arguments directives selections rest expanded _ ih =>
      intro other again
      cases again with
      | field _ _ _ _ _ _ second later => rw [ih second later]
  | inline condition directives selections rest inner expanded _ _ within ih =>
      intro other again
      cases again with
      | inline _ _ _ _ held second inside later => rw [within held inside, ih second later]
  | spread name directives rest fragment inner expanded found _ _ within ih =>
      intro other again
      cases again with
      | spread _ _ _ beside held second defined inside later =>
          cases found.symm.trans defined
          rw [within held inside, ih second later]
      | undefined _ _ _ _ missing => cases missing.symm.trans found
  | undefined name directives rest expanded missing _ ih =>
      intro other again
      cases again with
      | spread _ _ _ _ _ _ defined => cases missing.symm.trans defined
      | undefined _ _ _ _ _ later => exact ih other later

theorem expands_of_spreads (selections : SelectionSet) (fragments : ∀ name ∈ selections.spreads, ∀ fragment,
      request.fragment? name = some fragment → ∃ inner, Expands request fragment.selections inner) :
    ∃ expanded, Expands request selections expanded := by
  induction selections with
  | nil => exact ⟨.nil, .nil⟩
  | field alias? name arguments directives selections rest _ ih =>
      obtain ⟨expanded, later⟩ := ih (fun name member => fragments name (List.mem_append.mpr (.inr member)))
      exact ⟨_, .field alias? name arguments directives selections rest expanded later⟩
  | inline condition directives selections rest inside ih =>
      obtain ⟨inner, within⟩ := inside (fun name member => fragments name (List.mem_append.mpr (.inl member)))
      obtain ⟨expanded, later⟩ := ih (fun name member => fragments name (List.mem_append.mpr (.inr member)))
      exact ⟨_, .inline condition directives selections rest inner expanded within later⟩
  | spread name directives rest ih =>
      obtain ⟨expanded, later⟩ := ih (fun other member => fragments other (List.mem_cons_of_mem name member))
      cases found : request.fragment? name with
      | none => exact ⟨expanded, .undefined name directives rest expanded found later⟩
      | some fragment =>
          obtain ⟨inner, within⟩ := fragments name (List.mem_cons_self ..) fragment found
          exact ⟨_, .spread name directives rest fragment inner expanded found within later⟩

theorem expands_exists (acyclic : request.Acyclic) (selections : SelectionSet) :
    ∃ expanded, Expands request selections expanded := by
  refine expands_of_spreads request selections (fun name _ => ?_)
  refine Selection.every_fragment request acyclic (fun _ _ name => ∀ fragment, request.fragment? name = some fragment →
    ∃ inner, Expands request fragment.selections inner) ?_ ?_ name
  · intro _ _ name missing fragment found
    cases missing.symm.trans found
  · intro _ _ name fragment found _ inner other defined
    cases found.symm.trans defined
    exact expands_of_spreads request fragment.selections inner

theorem expands_append (front back first second : SelectionSet) (before : Expands request front first)
    (after : Expands request back second) : Expands request (front.append back) (first.append second) := by
  induction before with
  | nil => exact after
  | field alias? name arguments directives selections rest expanded _ ih =>
      exact .field alias? name arguments directives selections _ _ ih
  | inline condition directives selections rest inner expanded inside _ _ ih =>
      rw [SelectionSet.append_assoc]
      exact .inline condition directives selections _ inner _ inside ih
  | spread name directives rest fragment inner expanded found inside _ _ ih =>
      rw [SelectionSet.append_assoc]
      exact .spread name directives _ fragment inner _ found inside ih
  | undefined name directives rest expanded missing _ ih => exact .undefined name directives _ _ missing ih

variable (key : String)

inductive Reaches : SelectionSet → Prop where
  | field (alias? : Option String) (name : String) (arguments : List Argument) (directives : List Directive)
      (selections rest : SelectionSet) (answers : alias?.getD name = key) :
      Reaches (.field alias? name arguments directives selections rest)
  | inline (condition : Option String) (directives : List Directive) (selections rest : SelectionSet)
      (inside : Reaches selections) : Reaches (.inline condition directives selections rest)
  | spread (name : String) (directives : List Directive) (rest : SelectionSet) (fragment : Fragment)
      (found : request.fragment? name = some fragment) (inside : Reaches fragment.selections) :
      Reaches (.spread name directives rest)
  | afterField (alias? : Option String) (name : String) (arguments : List Argument) (directives : List Directive)
      (selections rest : SelectionSet) (later : Reaches rest) : Reaches (.field alias? name arguments directives selections rest)
  | afterInline (condition : Option String) (directives : List Directive) (selections rest : SelectionSet)
      (later : Reaches rest) : Reaches (.inline condition directives selections rest)
  | afterSpread (name : String) (directives : List Directive) (rest : SelectionSet) (later : Reaches rest) :
      Reaches (.spread name directives rest)

def Hides : SelectionSet → Prop
  | .nil => False
  | .field _ _ _ _ _ rest => Hides rest
  | .inline _ _ selections rest => Reaches request key selections ∨ Hides rest
  | .spread name _ rest =>
      (∃ fragment, request.fragment? name = some fragment ∧ Reaches request key fragment.selections) ∨ Hides rest

theorem hides_append (back front : SelectionSet) :
    Hides request key (front.append back) ↔ Hides request key front ∨ Hides request key back := by
  induction front with
  | nil => exact (or_iff_right id).symm
  | field _ _ _ _ _ _ _ ih => exact ih
  | inline _ _ _ _ _ ih => rw [SelectionSet.append, Hides, Hides, ih, or_assoc]
  | spread _ _ _ ih => rw [SelectionSet.append, Hides, Hides, ih, or_assoc]

theorem reaches_iff (selections expanded : SelectionSet) (expands : Expands request selections expanded) :
    Reaches request key selections ↔ expanded.answering key ≠ [] := by
  induction expands with
  | nil => exact iff_of_false nofun (fun some => some rfl)
  | field alias? name arguments directives selections rest expanded _ ih =>
      rw [SelectionSet.answering]
      by_cases answers : alias?.getD name = key
      · rw [if_pos answers]
        exact iff_of_true (.field alias? name arguments directives selections rest answers) (List.cons_ne_nil _ _)
      · rw [if_neg answers, ← ih]
        refine ⟨fun reaches => ?_, .afterField alias? name arguments directives selections rest⟩
        cases reaches with
        | field _ _ _ _ _ _ same => exact absurd same answers
        | afterField _ _ _ _ _ _ later => exact later
  | inline condition directives selections rest inner expanded _ _ within ih =>
      rw [SelectionSet.answering_append, Ne, List.append_eq_nil_iff, not_and_or, ← Ne, ← Ne, ← within, ← ih]
      constructor
      · intro reaches
        cases reaches with
        | inline _ _ _ _ inside => exact .inl inside
        | afterInline _ _ _ _ later => exact .inr later
      · rintro (inside | later)
        · exact .inline condition directives selections rest inside
        · exact .afterInline condition directives selections rest later
  | spread name directives rest fragment inner expanded found _ _ within ih =>
      rw [SelectionSet.answering_append, Ne, List.append_eq_nil_iff, not_and_or, ← Ne, ← Ne, ← within, ← ih]
      constructor
      · intro reaches
        cases reaches with
        | spread _ _ _ held defined inside =>
            cases found.symm.trans defined
            exact .inl inside
        | afterSpread _ _ _ later => exact .inr later
      · rintro (inside | later)
        · exact .spread name directives rest fragment found inside
        · exact .afterSpread name directives rest later
  | undefined name directives rest expanded missing _ ih =>
      rw [← ih]
      refine ⟨fun reaches => ?_, .afterSpread name directives rest⟩
      cases reaches with
      | spread _ _ _ _ defined => cases missing.symm.trans defined
      | afterSpread _ _ _ later => exact later

theorem answering_sublist (selections expanded : SelectionSet) (expands : Expands request selections expanded) :
    (selections.answering key).Sublist (expanded.answering key) := by
  induction expands with
  | nil => exact .slnil
  | field alias? name _ _ selections rest expanded _ ih =>
      rw [SelectionSet.answering, SelectionSet.answering]
      by_cases answers : alias?.getD name = key
      · rw [if_pos answers, if_pos answers]
        exact ih.cons_cons selections
      · rw [if_neg answers, if_neg answers]
        exact ih
  | inline _ _ _ _ inner expanded _ _ _ ih =>
      rw [SelectionSet.answering, SelectionSet.answering_append]
      exact ih.trans (List.sublist_append_right _ _)
  | spread _ _ _ _ inner expanded _ _ _ _ ih =>
      rw [SelectionSet.answering, SelectionSet.answering_append]
      exact ih.trans (List.sublist_append_right _ _)
  | undefined _ _ _ _ _ _ ih => exact ih

theorem fronted_eq_iff {α : Type} (front back part : List α) (within : part.Sublist back) :
    front ++ back = part ↔ front = [] ∧ back = part := by
  constructor
  · intro same
    have lengths := congrArg List.length same
    have bound := within.length_le
    rw [List.length_append] at lengths
    have empty : front = [] := List.eq_nil_of_length_eq_zero (by omega)
    subst empty
    exact ⟨rfl, same⟩
  · rintro ⟨rfl, same⟩
    exact same

theorem answering_same (selections expanded : SelectionSet) (expands : Expands request selections expanded) :
    expanded.answering key = selections.answering key ↔ ¬ Hides request key selections := by
  induction expands with
  | nil => exact iff_of_true rfl id
  | field alias? name _ _ selections rest expanded _ ih =>
      rw [SelectionSet.answering, SelectionSet.answering, Hides, ← ih]
      by_cases answers : alias?.getD name = key
      · rw [if_pos answers, if_pos answers, List.cons_inj_right]
      · rw [if_neg answers, if_neg answers]
  | inline _ _ selections rest inner expanded inside later _ ih =>
      rw [SelectionSet.answering, SelectionSet.answering_append, Hides, not_or, ← ih, reaches_iff request key _ _ inside,
        not_not]
      exact fronted_eq_iff _ _ _ (answering_sublist request key _ _ later)
  | spread name _ rest fragment inner expanded found inside later _ ih =>
      have hidden : (∃ fragment, request.fragment? name = some fragment ∧ Reaches request key fragment.selections) ↔
          Reaches request key fragment.selections := by simp [found]
      rw [SelectionSet.answering, SelectionSet.answering_append, Hides, hidden, not_or, ← ih, reaches_iff request key _ _ inside,
        not_not]
      exact fronted_eq_iff _ _ _ (answering_sublist request key _ _ later)
  | undefined name _ rest expanded missing _ ih => simpa [SelectionSet.answering, Hides, missing] using ih

def ExpandsOperation (operation after : Operation) : Prop :=
  ∃ expanded, Expands request operation.selections expanded ∧ after = { operation with selections := expanded }

structure Expanded (other : Request) : Prop where
  fragments : other.fragments = request.fragments
  operations : List.Forall₂ (ExpandsOperation request) request.operations other.operations

theorem expanded_exists (acyclic : request.Acyclic) : ∃ other, Expanded request other := by
  have each (operations : List Operation) : ∃ after, List.Forall₂ (ExpandsOperation request) operations after := by
    induction operations with
    | nil => exact ⟨[], .nil⟩
    | cons operation rest ih =>
        obtain ⟨after, others⟩ := ih
        obtain ⟨expanded, expands⟩ := expands_exists request acyclic operation.selections
        exact ⟨_, .cons ⟨expanded, expands, rfl⟩ others⟩
  obtain ⟨after, all⟩ := each request.operations
  exact ⟨⟨after, request.fragments⟩, rfl, all⟩

theorem expanded_unique (other second : Request) (expanded : Expanded request other) (again : Expanded request second) :
    other = second := by
  have single : Relator.RightUnique (ExpandsOperation request) := by
    rintro operation _ _ ⟨first, expands, rfl⟩ ⟨last, beside, rfl⟩
    rw [expands_unique request _ first expands last beside]
  have operations := single.forall₂ expanded.operations again.operations
  rcases other with ⟨first, fragments⟩
  rcases second with ⟨last, others⟩
  cases operations
  cases expanded.fragments.trans again.fragments.symm
  rfl

theorem operations_roots (operations others : List Operation) (all : List.Forall₂ (ExpandsOperation request) operations others) :
    Expands request (operations.foldr (fun operation rest => operation.selections.append rest) .nil)
      (others.foldr (fun operation rest => operation.selections.append rest) .nil) := by
  induction all with
  | nil => exact .nil
  | cons here _ ih =>
      obtain ⟨expanded, expands, rfl⟩ := here
      exact expands_append request _ _ _ _ expands ih

theorem hides_roots : Hides request key request.roots ↔
    ∃ operation ∈ request.operations, Hides request key operation.selections := by
  rw [Request.roots]
  induction request.operations with
  | nil => exact iff_of_false id (by simp)
  | cons operation rest ih =>
      rw [List.foldr_cons, hides_append, ih]
      simp

end

end GraphQL

open GraphQL

namespace Selection

theorem collect_fragment_same (schema : Schema) (request other : Request) (same : other.fragments = request.fragments)
    (bound : Nat) : ∀ active name type known, collectFragment schema other bound active name type known =
      collectFragment schema request bound active name type known := by
  have found (name : String) : other.fragment? name = request.fragment? name := by
    rw [Request.fragment?, Request.fragment?, same]
  induction bound with
  | zero =>
      intro active name type known
      rw [collectFragment, collectFragment, found]
  | succ bound ih =>
      intro active name type known
      rw [collectFragment, collectFragment, found]
      have inside : collectFragment schema other bound (name :: active) =
          collectFragment schema request bound (name :: active) := by
        funext name type known
        exact ih _ name type known
      simp only [inside]

end Selection

namespace Projection

theorem root_fragments_ignored (request : Request) (key : String) :
    (request.Acyclic → ∃! other, Expanded request other) ∧
      ∀ other, Expanded request other →
        (request.answering key).Sublist (other.answering key) ∧
        (other.answering key = request.answering key ↔
          ∀ operation ∈ request.operations, ¬ Hides request key operation.selections) ∧
        ((∀ operation ∈ request.operations, ¬ Hides request key operation.selections) →
          ∀ schema type excluded computed, document schema type other key excluded computed =
            document schema type request key excluded computed) := by
  constructor
  · intro acyclic
    obtain ⟨other, expanded⟩ := expanded_exists request acyclic
    exact ⟨other, expanded, fun second again => expanded_unique request second other again expanded⟩
  intro other expanded
  have expands : Expands request request.roots other.roots := operations_roots request _ _ expanded.operations
  have same : other.answering key = request.answering key ↔
      ∀ operation ∈ request.operations, ¬ Hides request key operation.selections := by
    rw [answering_roots, answering_roots, answering_same request key _ _ expands, hides_roots]
    simp
  refine ⟨?_, same, fun shown schema type excluded computed => ?_⟩
  · rw [answering_roots, answering_roots]
    exact answering_sublist request key _ _ expands
  · have trees : Selection.tree schema type other key = Selection.tree schema type request key := by
      rw [Selection.tree, Selection.tree, same.mpr shown, expanded.fragments]
      congr 1
      funext name place known
      exact Selection.collect_fragment_same schema request other expanded.fragments _ [] name place known
    rw [document, document, trees]

def listing (root : SelectionSet) : Request where
  operations := [{ kind := .query, name := none, variableDefinitions := [], directives := [], selections := root }]
  fragments := [{
    name := "rest"
    condition := "Query"
    directives := []
    selections := Selection.asking "files" (Selection.asking "size" .nil .nil) .nil }]

def listingRequest : Request :=
  listing (Selection.asking "folders" (Selection.asking "name" .nil .nil) (Selection.spreading "rest" .nil))

def expandedListing : Request :=
  listing (Selection.asking "folders" (Selection.asking "name" .nil .nil)
    (Selection.asking "files" (Selection.asking "size" .nil .nil) .nil))

theorem listing_expanded : Expanded listingRequest expandedListing where
  fragments := rfl
  operations := .cons ⟨_, .field none "folders" [] [] _ _ _ (.spread "rest" [] .nil _ _ _ rfl
    (.field none "files" [] [] _ _ _ .nil) .nil), rfl⟩ .nil

theorem listing_acyclic : listingRequest.Acyclic := by
  refine listingRequest.acyclic_of_rank (fun _ => 0) (fun name inner spreads => ?_)
  obtain ⟨fragment, found, listed⟩ := spreads
  cases List.mem_singleton.mp (List.mem_of_find?_eq_some found)
  cases listed

theorem folders_listed : listingRequest.Acyclic ∧ Expanded listingRequest expandedListing ∧
    document Selection.folders ⟨0⟩ expandedListing "folders" [] Field.isComputed =
      document Selection.folders ⟨0⟩ listingRequest "folders" [] Field.isComputed := by
  obtain ⟨expands, same⟩ := root_fragments_ignored listingRequest "folders"
  obtain ⟨other, expanded, only⟩ := expands listing_acyclic
  cases only _ listing_expanded
  refine ⟨listing_acyclic, expanded, (same _ expanded).2.2 ?_ Selection.folders ⟨0⟩ [] Field.isComputed⟩
  intro operation member
  cases List.mem_singleton.mp member
  rintro (⟨fragment, found, reaches⟩ | none)
  · cases found
    cases reaches with
    | field _ _ _ _ _ _ answers => exact absurd answers (by decide)
    | afterField _ _ _ _ _ _ later => cases later
  · exact none

theorem files_hidden : listingRequest.Acyclic ∧ Expanded listingRequest expandedListing ∧
    (document Selection.folders ⟨0⟩ listingRequest "files" [] Field.isComputed).result = .ok [] ∧
    (document Selection.folders ⟨0⟩ expandedListing "files" [] Field.isComputed).result = .ok [("size", .int 1)] :=
  ⟨listing_acyclic, listing_expanded, rfl, rfl⟩

end Projection

end DocGraph
