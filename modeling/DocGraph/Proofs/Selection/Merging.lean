import DocGraph.Proofs.Selection.Tree
import Mathlib.Data.List.Nodup

set_option autoImplicit false

namespace DocGraph.SelectionTree

def cons (field : Field) : Option SelectionTree → SelectionTree → SelectionTree
  | none, rest => .leaf field rest
  | some selection, rest => .object field selection rest

@[elab_as_elim]
theorem cons_induction {motive : SelectionTree → Prop} (nil : motive .nil)
    (cons : ∀ field selection rest, (∀ inner, selection = some inner → motive inner) → motive rest →
      motive (cons field selection rest)) (tree : SelectionTree) : motive tree := by
  induction tree with
  | nil => exact nil
  | leaf field rest ih => exact cons field none rest (fun _ none => nomatch none) ih
  | object field selection rest inner ih =>
      exact cons field (some selection) rest (fun _ same => Option.some.inj same ▸ inner) ih

def names : SelectionTree → List String
  | .nil => []
  | .leaf field rest => field.name :: rest.names
  | .object field _ rest => field.name :: rest.names

def find? (name : String) : SelectionTree → Option (Field × Option SelectionTree)
  | .nil => none
  | .leaf field rest => if field.name = name then some (field, none) else rest.find? name
  | .object field selection rest => if field.name = name then some (field, some selection) else rest.find? name

def Distinct : SelectionTree → Prop
  | .nil => True
  | .leaf field rest => field.name ∉ rest.names ∧ rest.Distinct
  | .object field selection rest => field.name ∉ rest.names ∧ selection.Distinct ∧ rest.Distinct

def bothSelections : Option SelectionTree → Option SelectionTree → Option SelectionTree
  | some first, some second => some (first.merge second)
  | _, _ => none

def either : Option (Field × Option SelectionTree) → Option (Field × Option SelectionTree) →
    Option (Field × Option SelectionTree)
  | none, second => second
  | some first, none => some first
  | some (field, first), some (_, second) => some (field, bothSelections first second)

def put (field : Field) : Option SelectionTree → SelectionTree → SelectionTree
  | none, tree => tree.putLeaf field
  | some selection, tree => putObject field selection (fun held => held.merge selection) tree

section

variable (name : String) (field : Field) (selection : Option SelectionTree) (rest tree : SelectionTree)

theorem names_cons : (cons field selection rest).names = field.name :: rest.names := by
  cases selection <;> rfl

theorem find_cons : (cons field selection rest).find? name =
    if field.name = name then some (field, selection) else rest.find? name := by
  cases selection <;> rfl

theorem distinct_cons : (cons field selection rest).Distinct ↔
    field.name ∉ rest.names ∧ (∀ inner, selection = some inner → inner.Distinct) ∧ rest.Distinct := by
  cases selection with
  | none => exact and_congr_right (fun _ => (and_iff_right (fun _ none => nomatch none)).symm)
  | some selection => exact and_congr_right (fun _ => and_congr_left (fun _ => by simp))

theorem put_cons (held : Field) (inner : Option SelectionTree) : put field selection (cons held inner rest) =
    if held.name = field.name then cons held (bothSelections inner selection) rest
    else cons held inner (put field selection rest) := by
  cases inner <;> cases selection <;> rfl

theorem merge_cons : tree.merge (cons field selection rest) = (put field selection tree).merge rest := by
  cases selection <;> rfl

theorem put_nil : put field selection .nil = cons field selection .nil := by
  cases selection <;> rfl

end

theorem either_none (first : Option (Field × Option SelectionTree)) : either first none = first := by
  cases first <;> rfl

theorem find_none (name : String) (tree : SelectionTree) : tree.find? name = none ↔ name ∉ tree.names := by
  induction tree using cons_induction with
  | nil => exact iff_of_true rfl List.not_mem_nil
  | cons field selection rest _ ih =>
      rw [find_cons, names_cons, List.mem_cons, not_or, ← ih]
      by_cases same : field.name = name
      · simp [same]
      · simp [same, Ne.symm same]

theorem find_named (name : String) (tree : SelectionTree) (found : Field × Option SelectionTree)
    (held : tree.find? name = some found) : found.1.name = name := by
  induction tree using cons_induction with
  | nil => cases held
  | cons field selection rest _ ih =>
      rw [find_cons] at held
      by_cases same : field.name = name
      · rw [if_pos same] at held
        exact Option.some.inj held ▸ same
      · rw [if_neg same] at held
        exact ih held

theorem distinct_iff (tree : SelectionTree) : tree.Distinct ↔ tree.names.Nodup ∧
    ∀ name field inner, tree.find? name = some (field, some inner) → inner.Distinct := by
  induction tree using cons_induction with
  | nil => exact iff_of_true trivial ⟨List.nodup_nil, nofun⟩
  | cons held selection rest _ ih =>
      rw [distinct_cons, names_cons, List.nodup_cons, ih, and_assoc]
      refine and_congr_right (fun fresh => ?_)
      constructor
      · rintro ⟨inside, distinct, below⟩
        refine ⟨distinct, fun name field inner found => ?_⟩
        rw [find_cons] at found
        split at found
        · exact inside inner (Prod.mk.inj (Option.some.inj found)).2
        · exact below name field inner found
      · rintro ⟨distinct, below⟩
        refine ⟨fun inner same => below held.name held inner (by rw [find_cons, if_pos rfl, same]), distinct, ?_⟩
        intro name field inner found
        by_cases same : held.name = name
        · rw [← same, (find_none held.name rest).mpr fresh] at found
          cases found
        · exact below name field inner (by rw [find_cons, if_neg same, found])

theorem selection_induction (holds : SelectionTree → Prop) (step : ∀ tree : SelectionTree,
    (∀ name field inner, tree.find? name = some (field, some inner) → holds inner) → holds tree)
    (tree : SelectionTree) : holds tree := by
  suffices both : holds tree ∧ ∀ name field inner, tree.find? name = some (field, some inner) → holds inner from both.1
  induction tree using cons_induction with
  | nil => exact ⟨step .nil nofun, nofun⟩
  | cons held selection rest inside ih =>
      have below : ∀ name field inner, (cons held selection rest).find? name = some (field, some inner) → holds inner := by
        intro name field inner found
        rw [find_cons] at found
        split at found
        · exact (inside inner (Prod.mk.inj (Option.some.inj found)).2).1
        · exact ih.2 name field inner found
      exact ⟨step _ below, below⟩

theorem eq_of_finds (tree other : SelectionTree) (distinct : tree.names.Nodup) (order : tree.names = other.names)
    (finds : ∀ name, tree.find? name = other.find? name) : tree = other := by
  induction tree using cons_induction generalizing other with
  | nil =>
      cases other with
      | nil => rfl
      | _ => cases order
  | cons field selection rest _ ih =>
      induction other using cons_induction with
      | nil => cases (names_cons field selection rest).symm.trans order
      | cons held inner later _ _ =>
          rw [names_cons] at distinct
          rw [names_cons, names_cons] at order
          obtain ⟨fresh, distinct⟩ := List.nodup_cons.mp distinct
          obtain ⟨named, follow⟩ := List.cons.inj order
          have here := finds field.name
          rw [find_cons, find_cons, if_pos rfl, if_pos named.symm] at here
          cases here
          refine congrArg _ (ih later distinct follow (fun name => ?_))
          by_cases same : field.name = name
          · rw [← same, (find_none _ rest).mpr fresh, (find_none _ later).mpr (follow ▸ fresh)]
          · simpa only [find_cons, if_neg same] using finds name

theorem find_put (name : String) (field : Field) (selection : Option SelectionTree) (tree : SelectionTree) :
    (put field selection tree).find? name =
      if field.name = name then either (tree.find? name) (some (field, selection)) else tree.find? name := by
  induction tree using cons_induction with
  | nil =>
      rw [put_nil, find_cons]
      rfl
  | cons held inner rest _ ih =>
      rw [put_cons]
      by_cases same : held.name = field.name
      · rw [if_pos same, find_cons, find_cons, same]
        by_cases mine : field.name = name
        · simp only [if_pos mine, either]
        · simp only [if_neg mine]
      · rw [if_neg same, find_cons, find_cons, ih]
        by_cases theirs : held.name = name
        · have other : field.name ≠ name := fun mine => same (theirs.trans mine.symm)
          simp only [if_pos theirs, if_neg other]
        · simp only [if_neg theirs]

theorem names_put (field : Field) (selection : Option SelectionTree) (tree : SelectionTree) :
    (put field selection tree).names = if field.name ∈ tree.names then tree.names else tree.names ++ [field.name] := by
  induction tree using cons_induction with
  | nil =>
      rw [put_nil, names_cons]
      rfl
  | cons held inner rest _ ih =>
      rw [put_cons]
      by_cases same : held.name = field.name
      · rw [if_pos same, names_cons, names_cons, if_pos (List.mem_cons.mpr (.inl same.symm))]
      · rw [if_neg same, names_cons, names_cons, ih]
        by_cases member : field.name ∈ rest.names
        · rw [if_pos member, if_pos (List.mem_cons_of_mem _ member)]
        · rw [if_neg member, if_neg (fun listed => (List.mem_cons.mp listed).elim (Ne.symm same) member), List.cons_append]

theorem find_merge (name : String) (other : SelectionTree) (distinct : other.names.Nodup) : ∀ tree : SelectionTree,
    (tree.merge other).find? name = either (tree.find? name) (other.find? name) := by
  induction other using cons_induction with
  | nil => exact fun tree => (either_none _).symm
  | cons field selection rest _ ih =>
      intro tree
      rw [names_cons] at distinct
      obtain ⟨fresh, distinct⟩ := List.nodup_cons.mp distinct
      rw [merge_cons, ih distinct, find_put, find_cons]
      by_cases same : field.name = name
      · rw [if_pos same, if_pos same, ← same, (find_none _ rest).mpr fresh, either_none]
      · rw [if_neg same, if_neg same]

theorem names_merge (other : SelectionTree) (distinct : other.names.Nodup) : ∀ tree : SelectionTree,
    (tree.merge other).names = tree.names ++ other.names.filter (fun name => decide (name ∉ tree.names)) := by
  induction other using cons_induction with
  | nil => exact fun tree => (List.append_nil _).symm
  | cons field selection rest _ ih =>
      intro tree
      rw [names_cons] at distinct
      obtain ⟨fresh, distinct⟩ := List.nodup_cons.mp distinct
      rw [merge_cons, ih distinct, names_put, names_cons, List.filter_cons]
      by_cases member : field.name ∈ tree.names
      · rw [if_pos member, if_neg (by simp [member])]
      · rw [if_neg member, if_pos (decide_eq_true member), List.append_assoc, List.singleton_append]
        refine congrArg _ (congrArg _ (List.filter_congr (fun name listed => ?_)))
        have other : name ≠ field.name := fun same => fresh (same ▸ listed)
        simp [other]

theorem distinct_merge (tree : SelectionTree) : ∀ other : SelectionTree, tree.Distinct → other.Distinct →
    (tree.merge other).Distinct := by
  induction tree using selection_induction with
  | step tree ih =>
      intro other here there
      obtain ⟨order, inside⟩ := (distinct_iff tree).mp here
      obtain ⟨theirs, within⟩ := (distinct_iff other).mp there
      refine (distinct_iff _).mpr ⟨?_, fun name field inner found => ?_⟩
      · rw [names_merge other theirs, List.nodup_append]
        refine ⟨order, theirs.filter _, ?_⟩
        intro name listed second kept same
        exact of_decide_eq_true (List.mem_filter.mp kept).2 (same ▸ listed)
      · rw [find_merge name other theirs] at found
        match mine : tree.find? name, beside : other.find? name with
        | none, _ =>
            rw [mine, beside] at found
            exact within name field inner (beside.trans found)
        | some held, none =>
            rw [mine, beside] at found
            exact inside name field inner (mine.trans found)
        | some (_, some a), some (second, some b) =>
            rw [mine, beside] at found
            cases found
            exact ih name field a mine b (inside name field a mine) (within name second b beside)
        | some (_, none), some (_, _) =>
            rw [mine, beside] at found
            cases found
        | some (_, some _), some (_, none) =>
            rw [mine, beside] at found
            cases found

theorem merge_assoc (tree : SelectionTree) : ∀ middle other : SelectionTree, tree.Distinct → middle.Distinct →
    other.Distinct → (tree.merge middle).merge other = tree.merge (middle.merge other) := by
  induction tree using selection_induction with
  | step tree ih =>
      intro middle other here between there
      obtain ⟨order, inside⟩ := (distinct_iff tree).mp here
      obtain ⟨second, within⟩ := (distinct_iff middle).mp between
      obtain ⟨third, beside⟩ := (distinct_iff other).mp there
      have joined := ((distinct_iff _).mp (distinct_merge middle other between there)).1
      have whole := ((distinct_iff _).mp (distinct_merge _ other (distinct_merge tree middle here between) there)).1
      refine eq_of_finds _ _ whole ?_ (fun name => ?_)
      · rw [names_merge other third, names_merge middle second, names_merge _ joined, names_merge other third,
          List.filter_append, List.filter_filter, List.append_assoc]
        refine congrArg _ (congrArg _ (List.filter_congr (fun name listed => ?_)))
        by_cases first : name ∈ tree.names <;> by_cases later : name ∈ middle.names <;> simp [first, later]
      · rw [find_merge name other third, find_merge name middle second, find_merge name _ joined, find_merge name other third]
        match mine : tree.find? name, next : middle.find? name, last : other.find? name with
        | none, _, _ => rfl
        | some _, none, _ => rfl
        | some _, some _, none => rw [either_none, either_none]
        | some (field, some a), some (_, some b), some (_, some c) =>
            have deeper := ih name field a mine b c (inside name field a mine) (within name _ b next) (beside name _ c last)
            simp only [either, bothSelections, deeper]
        | some (_, none), some (_, _), some (_, _) => rfl
        | some (_, some _), some (_, none), some (_, _) => rfl
        | some (_, some _), some (_, some _), some (_, none) => rfl

theorem merge_self (tree : SelectionTree) : tree.Distinct → tree.merge tree = tree := by
  induction tree using selection_induction with
  | step tree ih =>
      intro distinct
      obtain ⟨order, inside⟩ := (distinct_iff tree).mp distinct
      have none : tree.names.filter (fun name => decide (name ∉ tree.names)) = [] :=
        List.filter_eq_nil_iff.mpr (fun name member => by simp [member])
      refine eq_of_finds _ _ ?_ ?_ (fun name => ?_)
      · exact ((distinct_iff _).mp (distinct_merge tree tree distinct distinct)).1
      · rw [names_merge tree order, none, List.append_nil]
      · rw [find_merge name tree order]
        match found : tree.find? name with
        | .none => rfl
        | some (field, .none) => rfl
        | some (field, some inner) =>
            have deeper := ih name field inner found (inside name field inner found)
            simp only [either, bothSelections, deeper]

theorem nil_merge (tree : SelectionTree) (distinct : tree.Distinct) : merge .nil tree = tree := by
  have order := ((distinct_iff tree).mp distinct).1
  refine eq_of_finds _ _ ?_ ?_ (fun name => ?_)
  · exact ((distinct_iff _).mp (distinct_merge .nil tree trivial distinct)).1
  · rw [names_merge tree order]
    exact List.filter_eq_self.mpr (fun _ _ => rfl)
  · rw [find_merge name tree order]
    rfl

def IsLeaf : SelectionTree → List String → Prop
  | _, [] => False
  | tree, name :: rest =>
      match tree.find? name with
      | some (_, some selection) => selection.IsLeaf rest
      | some (_, none) => rest = []
      | none => False
termination_by structural _ path => path

def IsInner : SelectionTree → List String → Prop
  | _, [] => False
  | tree, name :: rest =>
      match tree.find? name with
      | some (_, some selection) => rest = [] ∨ selection.IsInner rest
      | _ => False
termination_by structural _ path => path

def IsNode (tree : SelectionTree) (path : List String) : Prop := tree.IsLeaf path ∨ tree.IsInner path

def Uncovered (tree : SelectionTree) (path : List String) : Prop :=
  ∀ above, above <+: path → above ≠ path → ¬ tree.IsLeaf above

theorem uncovered_nil (tree : SelectionTree) : tree.Uncovered [] :=
  fun _ before different => absurd (List.prefix_nil.mp before) different

theorem uncovered_cons (tree : SelectionTree) (name : String) (rest : List String) : tree.Uncovered (name :: rest) ↔
    match tree.find? name with
    | some (_, some selection) => selection.Uncovered rest
    | some (_, none) => rest = []
    | none => True := by
  have split : tree.Uncovered (name :: rest) ↔ ∀ above, above <+: rest → above ≠ rest → ¬ tree.IsLeaf (name :: above) := by
    constructor
    · intro open_ above before different
      exact open_ _ (List.cons_prefix_cons.mpr ⟨rfl, before⟩) (fun same => different (List.cons.inj same).2)
    · intro below above before different leaf
      cases above with
      | nil => exact leaf
      | cons first others =>
          obtain ⟨rfl, inside⟩ := List.cons_prefix_cons.mp before
          exact below others inside (fun same => different (congrArg _ same)) leaf
  rw [split]
  simp only [IsLeaf]
  match tree.find? name with
  | none => simp
  | some (_, some selection) => exact Iff.rfl
  | some (_, none) =>
      constructor
      · intro open_
        by_contra filled
        exact open_ [] List.nil_prefix (Ne.symm filled) rfl
      · rintro rfl above before different
        exact absurd (List.prefix_nil.mp before) different

theorem node_uncovered (path : List String) : ∀ tree : SelectionTree, tree.IsNode path → tree.Uncovered path := by
  induction path with
  | nil => exact fun tree _ => uncovered_nil tree
  | cons name rest ih =>
      intro tree node
      rw [uncovered_cons]
      simp only [IsNode, IsLeaf, IsInner] at node
      match found : tree.find? name with
      | none => trivial
      | some (_, none) => simpa [found] using node
      | some (_, some selection) =>
          rw [found] at node
          rcases node with leaf | rfl | inner
          · exact ih selection (.inl leaf)
          · exact uncovered_nil selection
          · exact ih selection (.inr inner)

theorem inner_not_leaf (path : List String) : ∀ tree : SelectionTree, tree.IsInner path → ¬ tree.IsLeaf path := by
  induction path with
  | nil => exact fun tree _ => id
  | cons name rest ih =>
      intro tree inner leaf
      simp only [IsInner, IsLeaf] at inner leaf
      match found : tree.find? name with
      | none => simp [found] at leaf
      | some (_, none) => simp [found] at inner
      | some (_, some selection) =>
          rw [found] at inner leaf
          rcases inner with rfl | inner
          · exact leaf
          · exact ih selection inner leaf

theorem inner_iff (path : List String) (tree : SelectionTree) :
    tree.IsInner path ↔ tree.IsNode path ∧ ¬ tree.IsLeaf path ∧ tree.Uncovered path := by
  constructor
  · exact fun inner => ⟨.inr inner, inner_not_leaf path tree inner, node_uncovered path tree (.inr inner)⟩
  · rintro ⟨leaf | inner, other, _⟩
    · exact absurd leaf other
    · exact inner

section

variable (path : List String)

theorem leaf_merge : ∀ tree other : SelectionTree, other.Distinct → ((tree.merge other).IsLeaf path ↔
    (tree.IsLeaf path ∨ other.IsLeaf path) ∧ tree.Uncovered path ∧ other.Uncovered path) := by
  induction path with
  | nil => exact fun tree other _ => by simp [IsLeaf]
  | cons name rest ih =>
      intro tree other distinct
      obtain ⟨order, within⟩ := (distinct_iff other).mp distinct
      rw [uncovered_cons, uncovered_cons]
      simp only [IsLeaf, find_merge name other order]
      match tree.find? name, beside : other.find? name with
      | some (_, some first), some (_, some second) => exact ih first second (within name _ second beside)
      | none, some (_, some second) =>
          simpa [either] using fun leaf => node_uncovered rest second (.inl leaf)
      | some (_, some first), none => simpa [either] using fun leaf => node_uncovered rest first (.inl leaf)
      | some (_, some first), some (_, none) =>
          by_cases last : rest = []
          · simp [either, bothSelections, last, uncovered_nil]
          · simp [either, bothSelections, last]
      | some (_, none), some (_, some second) =>
          by_cases last : rest = []
          · simp [either, bothSelections, last, uncovered_nil]
          · simp [either, bothSelections, last]
      | none, none => simp [either]
      | none, some (_, none) => simp [either]
      | some (_, none), none => simp [either]
      | some (_, none), some (_, none) => simp [either, bothSelections]

theorem inner_merge : ∀ tree other : SelectionTree, other.Distinct → ((tree.merge other).IsInner path ↔
    (tree.IsNode path ∨ other.IsNode path) ∧ ¬ tree.IsLeaf path ∧ ¬ other.IsLeaf path ∧
      tree.Uncovered path ∧ other.Uncovered path) := by
  induction path with
  | nil => exact fun tree other _ => by simp [IsNode, IsLeaf, IsInner]
  | cons name rest ih =>
      intro tree other distinct
      obtain ⟨order, within⟩ := (distinct_iff other).mp distinct
      rw [uncovered_cons, uncovered_cons]
      simp only [IsNode, IsLeaf, IsInner, find_merge name other order]
      by_cases last : rest = []
      · subst last
        match tree.find? name, other.find? name with
        | none, none | none, some (_, none) | none, some (_, some _) => simp [either, IsLeaf, uncovered_nil]
        | some (_, none), none | some (_, some _), none => simp [either, IsLeaf, uncovered_nil]
        | some (_, none), some (_, none) | some (_, none), some (_, some _) => simp [either, bothSelections]
        | some (_, some _), some (_, none) => simp [either, bothSelections]
        | some (_, some _), some (_, some _) => simp [either, bothSelections, IsLeaf, uncovered_nil]
      · match tree.find? name, beside : other.find? name with
        | some (_, some first), some (_, some second) =>
            simpa [either, bothSelections, last, IsNode] using ih first second (within name _ second beside)
        | none, some (_, some second) => simpa [either, last, IsNode] using inner_iff rest second
        | some (_, some first), none => simpa [either, last, IsNode] using inner_iff rest first
        | none, none | none, some (_, none) => simp [either]
        | some (_, none), none => simp [either]
        | some (_, none), some (_, none) | some (_, none), some (_, some _) => simp [either, bothSelections, last]
        | some (_, some _), some (_, none) => simp [either, bothSelections, last]

end

-- Trees with the same leaves and the same inner nodes.
def Similar (tree other : SelectionTree) : Prop :=
  ∀ path, (tree.IsLeaf path ↔ other.IsLeaf path) ∧ (tree.IsInner path ↔ other.IsInner path)

theorem similar_nodes (tree other : SelectionTree) (similar : Similar tree other) (path : List String) :
    (tree.IsNode path ↔ other.IsNode path) ∧ (tree.Uncovered path ↔ other.Uncovered path) := by
  refine ⟨or_congr (similar path).1 (similar path).2, ?_⟩
  exact forall₃_congr (fun above _ _ => not_congr (similar above).1)

theorem similar_merge (first second third fourth : SelectionTree) (two : second.Distinct) (four : fourth.Distinct)
    (left : Similar first third) (right : Similar second fourth) : Similar (first.merge second) (third.merge fourth) := by
  intro path
  obtain ⟨one, open_⟩ := similar_nodes first third left path
  obtain ⟨other, free⟩ := similar_nodes second fourth right path
  rw [leaf_merge path first second two, leaf_merge path third fourth four, inner_merge path first second two,
    inner_merge path third fourth four, (left path).1, (right path).1, one, other, open_, free]
  exact ⟨Iff.rfl, Iff.rfl⟩

theorem similar_swapped (tree other : SelectionTree) (here : tree.Distinct) (there : other.Distinct) :
    Similar (tree.merge other) (other.merge tree) := by
  intro path
  rw [leaf_merge path tree other there, leaf_merge path other tree here, inner_merge path tree other there,
    inner_merge path other tree here]
  constructor
  · rw [or_comm, and_comm (a := tree.Uncovered path)]
  · constructor
    · exact fun ⟨node, mine, theirs, open_, free⟩ => ⟨node.symm, theirs, mine, free, open_⟩
    · exact fun ⟨node, mine, theirs, open_, free⟩ => ⟨node.symm, theirs, mine, free, open_⟩

theorem similar_object (field : Field) (selection other : SelectionTree) (similar : Similar selection other) :
    Similar (.object field selection .nil) (.object field other .nil) := by
  intro path
  cases path with
  | nil => exact ⟨Iff.rfl, Iff.rfl⟩
  | cons name rest =>
      by_cases same : field.name = name
      · simp only [IsLeaf, IsInner, find?, if_pos same]
        exact ⟨(similar rest).1, or_congr_right (similar rest).2⟩
      · simp [IsLeaf, IsInner, find?, if_neg same]

end DocGraph.SelectionTree
