import DocGraph.Filter.Document
import DocGraph.Projection
import DocGraph.Proofs.Derivation.Definitions
import DocGraph.Proofs.Filter.Leaf
import DocGraph.Proofs.Outcome
import DocGraph.Proofs.Schema.Declarations
import DocGraph.Proofs.Schema.Sound
import DocGraph.Proofs.Selection.Tree
import DocGraph.Update.Completeness

set_option autoImplicit false

namespace DocGraph

def Error.isUnknownType : Error → Bool
  | .unknownComposite _ | .unknownEnum _ => true
  | _ => false

variable {α β : Type}

def FindsTypes (holds : α → Prop) : Except Error α → Prop
  | .ok value => holds value
  | .error error => error.isUnknownType = false

abbrev KnowsTypes : Except Error α → Prop := FindsTypes (fun _ => True)

theorem knows_of_fails (errors : Error → Prop) (computed : Except Error α) (fails : FailsWith errors computed)
    (known : ∀ error, errors error → error.isUnknownType = false) : KnowsTypes computed := by
  cases computed with
  | error error => exact known error (fails error rfl)
  | ok value => exact trivial

theorem finds_bind (a : α → Prop) (b : β → Prop) (first : Except Error α) (next : α → Except Error β)
    (early : FindsTypes a first) (late : ∀ value, a value → FindsTypes b (next value)) :
    FindsTypes b (first >>= next) := by
  cases first with
  | error error => exact early
  | ok value => exact late value early

theorem knows_bind (first : Except Error α) (next : α → Except Error β) (early : KnowsTypes first)
    (late : ∀ value, KnowsTypes (next value)) : KnowsTypes (first >>= next) :=
  finds_bind _ _ first next early (fun value _ => late value)

theorem knows_return (first : Except Error α) (f : α → β) (early : KnowsTypes first) :
    KnowsTypes (first >>= fun value => pure (f value)) := knows_bind first _ early (fun _ => trivial)

theorem knows_map_list (items : List α) (act : α → Except Error β) (each : ∀ item ∈ items, KnowsTypes (act item)) :
    KnowsTypes (items.mapM act) := by
  induction items with
  | nil => exact trivial
  | cons head rest ih =>
      have others := ih (fun item member => each item (List.mem_cons_of_mem head member))
      rw [List.mapM_cons]
      exact knows_bind _ _ (each head (List.mem_cons_self ..)) (fun _ => knows_return _ _ others)

theorem Outcome.finds_bind (a : α → Prop) (b : β → Prop) (first : Outcome α) (next : α → Outcome β)
    (early : FindsTypes a first.result) (late : ∀ value, a value → FindsTypes b (next value).result) :
    FindsTypes b (first >>= next).result := by
  rw [bind_result]
  exact DocGraph.finds_bind a b first.result _ early late

theorem Outcome.knows_bind (first : Outcome α) (next : α → Outcome β) (early : KnowsTypes first.result)
    (late : ∀ value, KnowsTypes (next value).result) : KnowsTypes (first >>= next).result :=
  finds_bind _ _ first next early (fun value _ => late value)

theorem Outcome.knows_return (first : Outcome α) (f : α → β) (early : KnowsTypes first.result) :
    KnowsTypes (first >>= fun value => pure (f value)).result := knows_bind first _ early (fun _ => trivial)

theorem Schema.composite_finds (schema : Schema) (id : CompositeIndex) (within : id.index < schema.composites.length) :
    FindsTypes (fun composite => composite ∈ schema.composites) (schema.composite id) := by
  obtain ⟨composite, found⟩ := Derivation.composite_found schema id within
  rw [found]
  exact composite_mem schema id composite found

theorem Composite.field_finds (composite : Composite) (name : String) :
    FindsTypes (fun field => field ∈ composite.fields) (composite.field name) := by
  unfold field
  split
  · rename_i found
    exact (name_of_field?_eq_some found).2
  · exact rfl

namespace LeafFilter

theorem requested_operator_knows (path : String) (filter : Members) : KnowsTypes (requestedOperator path filter) := by
  unfold requestedOperator
  split
  · exact trivial
  · split
    · exact trivial
    · exact rfl
  · exact rfl

theorem modern_document_knows (filter : Members) (path : String) : KnowsTypes (modernDocument filter path) :=
  knows_of_fails _ _ (modern_document_fails path filter) (fun _ refused => by cases refused <;> rfl)

theorem document_knows (filter : Members) (path : String) : KnowsTypes (document filter path).result := by
  unfold document modern
  refine Outcome.knows_bind _ _ ?_ (fun current => ?_)
  · split
    · refine Outcome.knows_bind _ _ trivial (fun _ => ?_)
      exact Outcome.knows_return _ _ (requested_operator_knows path filter)
    · exact trivial
  · exact modern_document_knows current path

end LeafFilter

namespace Filter

theorem presence_knows (filter : Members) (path : String) : KnowsTypes (presence filter path) := by
  unfold presence
  split
  · exact trivial
  · split
    · exact trivial
    · exact rfl
  · exact rfl

mutual
theorem field_entries_know (schema : Schema) (sound : schema.Sound) (field : Field) (refers : field.type.Refers schema)
    (path : String) (filter : Json) : KnowsTypes (fieldEntries schema field path filter).result := by
  cases filter with
  | null => exact trivial
  | obj filter =>
      rw [fieldEntries]
      split
      · exact Outcome.knows_return _ _ (LeafFilter.document_knows filter path)
      · rename_i id leads
        have within := Derivation.refers_composite schema field.type id refers leads
        refine Outcome.knows_bind _ _ (presence_knows filter path) (fun required => ?_)
        refine Outcome.finds_bind _ _ _ _ (schema.composite_finds id within) (fun composite declared => ?_)
        split
        · exact Outcome.knows_return _ _ (object_entries_know schema sound composite declared .nested "" filter)
        · exact Outcome.knows_return _ _ (object_entries_know schema sound composite declared .nested path filter)
  | _ => exact rfl
theorem object_entries_know (schema : Schema) (sound : schema.Sound) (composite : Composite)
    (declared : composite ∈ schema.composites) (level : Level) (path : String) (members : Members) :
    KnowsTypes (objectEntries schema composite level path members).result := by
  cases members with
  | nil => exact trivial
  | cons entry rest =>
      rcases entry with ⟨key, filter⟩
      have later (first : Members) :
          KnowsTypes (objectEntries schema composite level path rest >>= fun others => pure (first ++ others)).result :=
        Outcome.knows_return _ _ (object_entries_know schema sound composite declared level path rest)
      rw [objectEntries]
      split
      · exact later []
      · refine Outcome.finds_bind _ _ _ _ (composite.field_finds key) (fun field member => ?_)
        have refers := sound.refers composite declared field member
        exact Outcome.knows_bind _ _ (field_entries_know schema sound field refers _ filter) later
end

theorem assembled_knows (schema : Schema) (sound : schema.Sound) (type : CompositeIndex)
    (within : type.index < schema.composites.length) (filter : Members) (combined : Combinator → Outcome Members)
    (inner : ∀ combinator, KnowsTypes (combined combinator).result) :
    KnowsTypes (assembled schema type filter combined).result := by
  unfold assembled
  refine Outcome.finds_bind _ _ _ _ (schema.composite_finds type within) (fun composite declared => ?_)
  refine Outcome.knows_bind _ _ (object_entries_know schema sound composite declared .root "" filter) (fun _ => ?_)
  refine Outcome.knows_bind _ _ (inner .or) (fun _ => ?_)
  refine Outcome.knows_bind _ _ (inner .and) (fun _ => ?_)
  exact Outcome.knows_return _ _ (inner .nor)

mutual
theorem combined_knows (schema : Schema) (sound : schema.Sound) (type : CompositeIndex)
    (within : type.index < schema.composites.length) (combinator : Combinator) (filter : Members) :
    KnowsTypes (combined schema type combinator filter).result := by
  cases filter with
  | nil => exact trivial
  | cons entry rest =>
      rcases entry with ⟨key, value⟩
      rw [combined]
      split
      · exact combined_entry_knows schema sound type within combinator value
      · exact combined_knows schema sound type within combinator rest
theorem combined_entry_knows (schema : Schema) (sound : schema.Sound) (type : CompositeIndex)
    (within : type.index < schema.composites.length) (combinator : Combinator) (value : Json) :
    KnowsTypes (combinedEntry schema type combinator value).result := by
  cases value with
  | null => exact trivial
  | arr filters =>
      rw [combinedEntry]
      exact Outcome.knows_return _ _ (combined_list_knows schema sound type within combinator filters)
  | _ => exact rfl
theorem combined_list_knows (schema : Schema) (sound : schema.Sound) (type : CompositeIndex)
    (within : type.index < schema.composites.length) (combinator : Combinator) (filters : List Json) :
    KnowsTypes (combinedList schema type combinator filters).result := by
  cases filters with
  | nil => exact trivial
  | cons filter rest =>
      rw [combinedList]
      refine Outcome.knows_bind _ _ (combined_item_knows schema sound type within combinator filter) (fun _ => ?_)
      exact Outcome.knows_return _ _ (combined_list_knows schema sound type within combinator rest)
theorem combined_item_knows (schema : Schema) (sound : schema.Sound) (type : CompositeIndex)
    (within : type.index < schema.composites.length) (combinator : Combinator) (filter : Json) :
    KnowsTypes (combinedItem schema type combinator filter).result := by
  cases filter with
  | obj filter =>
      rw [combinedItem]
      refine Outcome.knows_return _ _ (assembled_knows schema sound type within filter _ (fun inner => ?_))
      exact combined_knows schema sound type within inner filter
  | _ => exact rfl
end

theorem document_knows (schema : Schema) (sound : schema.Sound) (type : CompositeIndex)
    (within : type.index < schema.composites.length) (filter : Option Json) :
    KnowsTypes (document schema type filter).result := by
  unfold document
  split
  · exact trivial
  · exact assembled_knows schema sound type within _ _ (fun inner => combined_knows schema sound type within inner _)
  · exact rfl

end Filter

namespace Selection

open GraphQL

def RefersBelow (schema : Schema) (tree : SelectionTree) : Prop :=
  tree.Traced (fun _ field _ => field.type.Refers schema)

def KnownRefer (schema : Schema) (known : Collected) : Prop := ∀ entry ∈ known, RefersBelow schema entry.2

abbrev CollectsRefer (schema : Schema) : Except Error (SelectionTree × Collected) → Prop :=
  FindsTypes (fun grown => RefersBelow schema grown.1 ∧ KnownRefer schema grown.2)

def SpreadsRefer (schema : Schema) (spread : Spread) : Prop :=
  ∀ name type known, type.index < schema.composites.length → KnownRefer schema known →
    CollectsRefer schema (spread name type known)

theorem target_within (schema : Schema) (type : CompositeIndex) (within : type.index < schema.composites.length)
    (condition : Option String) : (target schema type condition).index < schema.composites.length := by
  unfold target
  cases applied : condition.bind schema.compositeNamed? with
  | none => exact within
  | some id =>
      obtain ⟨name, _, named⟩ := Option.bind_eq_some_iff.mp applied
      obtain ⟨_, found, _⟩ := Schema.composite_named_found schema name id named
      exact (List.getElem?_eq_some_iff.mp found).1

theorem merge_refers (schema : Schema) (tree other : SelectionTree) (left : RefersBelow schema tree)
    (right : RefersBelow schema other) : RefersBelow schema (tree.merge other) :=
  SelectionTree.traced_merge other _ tree left right

theorem put_leaf_refers (schema : Schema) (field : Field) (tree : SelectionTree) (refers : field.type.Refers schema)
    (below : RefersBelow schema tree) : RefersBelow schema (tree.putLeaf field) :=
  SelectionTree.traced_put_leaf _ field tree below ⟨true, refers⟩ ⟨field, rfl, refers⟩

theorem put_object_refers (schema : Schema) (field : Field) (selection tree : SelectionTree)
    (refers : field.type.Refers schema) (inside : RefersBelow schema selection) (below : RefersBelow schema tree) :
    RefersBelow schema (SelectionTree.putObject field selection (fun held => held.merge selection) tree) :=
  SelectionTree.traced_put_object _ field selection _ tree below ⟨false, refers⟩ inside
    (fun held traced => merge_refers schema held selection traced inside)

theorem collect_refers (schema : Schema) (sound : schema.Sound) (spread : Spread) (spreads : SpreadsRefer schema spread)
    (selections : SelectionSet) : ∀ (type : CompositeIndex) (tree : SelectionTree) (known : Collected),
    type.index < schema.composites.length → RefersBelow schema tree → KnownRefer schema known →
      CollectsRefer schema (collect schema spread type selections tree known) := by
  induction selections with
  | nil => exact fun _ _ _ _ below refer => ⟨below, refer⟩
  | field alias? name arguments directives selections rest inner ih =>
      intro type tree known within below refer
      rw [collect]
      split
      · exact ih type tree known within below refer
      · refine finds_bind _ _ _ _ (schema.composite_finds type within) (fun composite declared => ?_)
        refine finds_bind _ _ _ _ (composite.field_finds name) (fun field member => ?_)
        have refers := sound.refers composite declared field member
        have leaf := ih type (tree.putLeaf field) known within (put_leaf_refers schema field tree refers below) refer
        split
        · rename_i nested leads
          split
          · exact leaf
          · have inside := Derivation.refers_composite schema field.type nested refers leads
            refine finds_bind _ _ _ _ (schema.composite_finds nested inside) (fun _ _ => ?_)
            refine finds_bind _ _ _ _ (inner nested .nil known inside trivial refer) (fun grown held => ?_)
            exact ih type _ grown.2 within (put_object_refers schema field grown.1 tree refers held.1 below) held.2
        · exact leaf
  | inline condition directives selections rest inner ih =>
      intro type tree known within below refer
      have applied := target_within schema type within condition
      rw [collect]
      refine finds_bind _ _ _ _ (schema.composite_finds _ applied) (fun _ _ => ?_)
      refine finds_bind _ _ _ _ (inner _ .nil known applied trivial refer) (fun grown held => ?_)
      exact ih type _ grown.2 within (merge_refers schema tree grown.1 below held.1) held.2
  | spread fragment directives rest ih =>
      intro type tree known within below refer
      rw [collect]
      refine finds_bind _ _ _ _ (spreads fragment type known within refer) (fun grown held => ?_)
      exact ih type _ grown.2 within (merge_refers schema tree grown.1 below held.1) held.2

theorem collect_fragment_refers (schema : Schema) (sound : schema.Sound) (request : Request) (bound : Nat) :
    ∀ active, SpreadsRefer schema (collectFragment schema request bound active) := by
  induction bound using Nat.strongRecOn with
  | ind bound ih =>
      intro active name type known within refer
      fun_cases collectFragment schema request bound active name type known with
      | case1 => exact ⟨trivial, refer⟩
      | case2 =>
          rename_i tree _ _ found
          obtain ⟨entry, hit, same⟩ := Option.map_eq_some_iff.mp found
          exact ⟨same ▸ refer entry (List.mem_of_find?_eq_some hit), refer⟩
      | case3 => exact ⟨trivial, refer⟩
      | case4 => exact ⟨trivial, refer⟩
      | case5 =>
          rename_i fragment deeper _ _ _ _
          have inside := target_within schema type within (some fragment.condition)
          refine finds_bind _ _ _ _ (schema.composite_finds _ inside) (fun _ _ => ?_)
          refine finds_bind _ _ _ _ (collect_refers schema sound _ (ih deeper (Nat.lt_succ_self deeper) (name :: active))
            fragment.selections _ .nil known inside trivial refer) (fun grown held => ?_)
          exact ⟨held.1, List.forall_mem_append.mpr ⟨held.2, List.forall_mem_singleton.mpr held.1⟩⟩

theorem collect_all_refers (schema : Schema) (sound : schema.Sound) (spread : Spread) (spreads : SpreadsRefer schema spread)
    (type : CompositeIndex) (within : type.index < schema.composites.length) (sets : List SelectionSet)
    (tree : SelectionTree) (known : Collected) (below : RefersBelow schema tree) (refer : KnownRefer schema known) :
    FindsTypes (RefersBelow schema) (collectAll schema spread type sets tree known) := by
  induction sets generalizing tree known with
  | nil => exact below
  | cons selections rest ih =>
      rw [collectAll]
      refine finds_bind _ _ _ _ (schema.composite_finds type within) (fun _ _ => ?_)
      refine finds_bind _ _ _ _ (collect_refers schema sound spread spreads selections type .nil known within trivial refer)
        (fun grown held => ?_)
      exact ih _ grown.2 (merge_refers schema tree grown.1 below held.1) held.2

theorem tree_refers (schema : Schema) (sound : schema.Sound) (type : CompositeIndex)
    (within : type.index < schema.composites.length) (request : Request) (key : String) :
    FindsTypes (RefersBelow schema) (tree schema type request key) :=
  collect_all_refers schema sound _ (collect_fragment_refers schema sound request _ []) type within _ .nil [] trivial
    (fun _ none => nomatch none)

end Selection

namespace Projection

theorem notice_knows (schema : Schema) (computed : FieldTest) (type : CompositeIndex)
    (within : type.index < schema.composites.length) (tree : SelectionTree) :
    KnowsTypes (noticeFor schema computed type tree).result := by
  unfold noticeFor
  dsimp only
  split
  · exact trivial
  · exact Outcome.finds_bind _ _ _ _ (schema.composite_finds type within) (fun _ _ => trivial)

theorem notices_below_know (schema : Schema) (computed : FieldTest) (tree : SelectionTree)
    (below : Selection.RefersBelow schema tree) : KnowsTypes (noticesBelow schema computed tree).result := by
  induction tree with
  | nil => exact trivial
  | leaf field rest ih => exact ih below.2.2
  | object field selection rest inner ih =>
      obtain ⟨⟨_, refers⟩, inside, later⟩ := below
      have others := ih later
      rw [noticesBelow]
      split
      · rename_i type leads
        split
        · exact others
        · refine Outcome.knows_bind _ _ (notice_knows schema computed type
            (Derivation.refers_composite schema field.type type refers leads) selection) (fun _ => ?_)
          exact Outcome.knows_bind _ _ (inner inside) (fun _ => others)
      · exact others

theorem document_knows (schema : Schema) (sound : schema.Sound) (type : CompositeIndex)
    (within : type.index < schema.composites.length) (request : GraphQL.Request) (key : String) (excluded : List String)
    (computed : FieldTest) : KnowsTypes (document schema type request key excluded computed).result := by
  unfold document
  refine Outcome.finds_bind _ _ _ _ (Selection.tree_refers schema sound type within request key) (fun tree below => ?_)
  refine Outcome.knows_bind _ _ (notice_knows schema computed type within tree) (fun _ => ?_)
  exact Outcome.knows_bind _ _ (notices_below_know schema computed tree below) (fun _ => trivial)

end Projection

namespace Update

theorem first_explicit_knows (path : String) (objects : List Members) : KnowsTypes (Overwrite.firstExplicit path objects) := by
  induction objects with
  | nil => exact trivial
  | cons object rest ih =>
      rw [Overwrite.firstExplicit]
      refine knows_bind _ _ ?_ (fun explicit => ?_)
      · unfold Overwrite.explicit
        split
        · exact trivial
        · exact trivial
        · exact rfl
      · cases explicit with
        | none => exact ih
        | some value => exact trivial

theorem violations_know (schema : Schema) (sound : schema.Sound) (computed : FieldTest) (depth : Nat) :
    ∀ (objects : List Members) (type : CompositeIndex) (path : String) (mode : WriteMode),
      type.index < schema.composites.length → KnowsTypes (violationsAt schema computed depth objects type path mode) := by
  induction depth with
  | zero => exact fun _ _ _ _ _ => trivial
  | succ depth ih =>
      intro objects type path mode within
      rw [violationsAt]
      refine knows_bind _ _ (first_explicit_knows path objects) (fun explicit => ?_)
      refine finds_bind _ _ _ _ (schema.composite_finds type within) (fun composite declared => ?_)
      refine knows_return _ _ (knows_map_list _ _ (fun key _ => ?_))
      unfold violationsBelow
      refine finds_bind _ _ _ _ (composite.field_finds key) (fun field member => ?_)
      split
      · exact trivial
      · rename_i nested leads
        have inside := Derivation.refers_composite schema field.type nested (sound.refers composite declared field member) leads
        split
        · exact trivial
        · dsimp only
          split
          · exact knows_return _ _ (knows_map_list _ _ (fun element _ => ih [element] nested _ .replace inside))
          · exact ih _ nested _ _ inside

theorem check_knows (schema : Schema) (sound : schema.Sound) (type : CompositeIndex)
    (within : type.index < schema.composites.length) (update : Members) (overwrite : Bool) (computed : FieldTest) :
    KnowsTypes (check schema type update overwrite computed) := by
  unfold check
  refine knows_bind _ _ (violations_know schema sound computed _ _ type "" _ within) (fun found => ?_)
  split
  · exact trivial
  · exact rfl

end Update

end DocGraph
