import DocGraph.Proofs.Selection.Additive
import Mathlib.Logic.Relation

set_option autoImplicit false

namespace DocGraph

open GraphQL

namespace GraphQL

inductive Rearranges : SelectionSet → SelectionSet → Prop where
  | refl (selections : SelectionSet) : Rearranges selections selections
  | symm (first second : SelectionSet) (same : Rearranges first second) : Rearranges second first
  | trans (first second third : SelectionSet) (before : Rearranges first second) (after : Rearranges second third) :
      Rearranges first third
  | beside (first second third fourth : SelectionSet) (left : Rearranges first third) (right : Rearranges second fourth) :
      Rearranges (first.append second) (third.append fourth)
  | permuted (first second : SelectionSet) : Rearranges (first.append second) (second.append first)
  | repeated (selections : SelectionSet) : Rearranges selections (selections.append selections)
  | splitField (alias? other? : Option String) (name : String) (arguments others : List Argument)
      (directives more : List Directive) (first second : SelectionSet) (same : alias?.getD name = other?.getD name)
      (left : first.isEmpty = false) (right : second.isEmpty = false) :
      Rearranges (.field alias? name arguments directives (first.append second) .nil)
        (.field alias? name arguments directives first (.field other? name others more second .nil))
  | splitInline (condition : Option String) (directives : List Directive) (first second : SelectionSet) :
      Rearranges (.inline condition directives (first.append second) .nil)
        (.inline condition directives first (.inline condition directives second .nil))
  | inField (alias? : Option String) (name : String) (arguments : List Argument) (directives : List Directive)
      (first second : SelectionSet) (inside : Rearranges first second) :
      Rearranges (.field alias? name arguments directives first .nil) (.field alias? name arguments directives second .nil)
  | inInline (condition : Option String) (directives : List Directive) (first second : SelectionSet)
      (inside : Rearranges first second) :
      Rearranges (.inline condition directives first .nil) (.inline condition directives second .nil)

theorem SelectionSet.spreads_append (back : SelectionSet) (front : SelectionSet) :
    (front.append back).spreads = front.spreads ++ back.spreads := by
  induction front with
  | nil => rfl
  | field _ _ _ _ _ _ _ ih => rw [append, spreads, spreads, ih, List.append_assoc]
  | inline _ _ _ _ _ ih => rw [append, spreads, spreads, ih, List.append_assoc]
  | spread _ _ _ ih => rw [append, spreads, spreads, ih, List.cons_append]

theorem SelectionSet.empty_append (front back : SelectionSet) :
    (front.append back).isEmpty = (front.isEmpty && back.isEmpty) := by
  cases front <;> rfl

theorem SelectionSet.answering_append (key : String) (back : SelectionSet) (front : SelectionSet) :
    (front.append back).answering key = front.answering key ++ back.answering key := by
  induction front with
  | nil => rfl
  | field alias? name _ _ selections rest _ ih =>
      rw [append, answering, answering, ih]
      by_cases answers : alias?.getD name = key
      · rw [if_pos answers, if_pos answers, List.cons_append]
      · rw [if_neg answers, if_neg answers]
  | inline _ _ _ _ _ ih => rw [append, answering, answering, ih]
  | spread _ _ _ ih => rw [append, answering, answering, ih]

theorem rearranged_empty (first second : SelectionSet) (same : Rearranges first second) : first.isEmpty = second.isEmpty := by
  induction same with
  | refl => rfl
  | symm _ _ _ ih => exact ih.symm
  | trans _ _ _ _ _ ih later => exact ih.trans later
  | beside _ _ _ _ _ _ left right => rw [SelectionSet.empty_append, SelectionSet.empty_append, left, right]
  | permuted => rw [SelectionSet.empty_append, SelectionSet.empty_append, Bool.and_comm]
  | repeated => rw [SelectionSet.empty_append, Bool.and_self]
  | splitField => rfl
  | splitInline => rfl
  | inField => rfl
  | inInline => rfl

theorem rearranged_spreads (first second : SelectionSet) (same : Rearranges first second) (name : String) :
    name ∈ first.spreads ↔ name ∈ second.spreads := by
  induction same with
  | refl => exact Iff.rfl
  | symm _ _ _ ih => exact ih.symm
  | trans _ _ _ _ _ ih later => exact ih.trans later
  | beside _ _ _ _ _ _ left right => simp [SelectionSet.spreads_append, left, right]
  | permuted => simp [SelectionSet.spreads_append, or_comm]
  | repeated => simp [SelectionSet.spreads_append]
  | splitField => simp [SelectionSet.spreads, SelectionSet.spreads_append]
  | splitInline => simp [SelectionSet.spreads, SelectionSet.spreads_append]
  | inField _ _ _ _ _ _ _ ih => simpa [SelectionSet.spreads] using ih
  | inInline _ _ _ _ _ ih => simpa [SelectionSet.spreads] using ih

def Request.roots (request : Request) : SelectionSet :=
  request.operations.foldr (fun operation rest => operation.selections.append rest) .nil

theorem answering_roots (request : Request) (key : String) : request.answering key = request.roots.answering key := by
  rw [Request.answering, Request.roots]
  induction request.operations with
  | nil => rfl
  | cons operation rest ih => rw [List.flatMap_cons, List.foldr_cons, SelectionSet.answering_append, ih]

def nodesOf (sets : List SelectionSet) : SelectionSet :=
  sets.foldr (fun selections rest => .inline none [] selections rest) .nil

theorem nodes_append (front back : List SelectionSet) : nodesOf (front ++ back) = (nodesOf front).append (nodesOf back) := by
  induction front with
  | nil => rfl
  | cons selections rest ih => exact congrArg _ ih

theorem rearranged_answering (key : String) (first second : SelectionSet) (same : Rearranges first second) :
    Rearranges (nodesOf (first.answering key)) (nodesOf (second.answering key)) := by
  have alone (alias? : Option String) (name : String) (arguments : List Argument) (directives : List Directive)
      (selections rest : SelectionSet) :
      nodesOf ((SelectionSet.field alias? name arguments directives selections rest).answering key) =
        if alias?.getD name = key then .inline none [] selections (nodesOf (rest.answering key))
        else nodesOf (rest.answering key) := by
    rw [SelectionSet.answering]
    split <;> rfl
  induction same with
  | refl => exact .refl _
  | symm _ _ _ ih => exact .symm _ _ ih
  | trans _ _ _ _ _ ih later => exact .trans _ _ _ ih later
  | beside _ _ _ _ _ _ left right =>
      rw [SelectionSet.answering_append, SelectionSet.answering_append, nodes_append, nodes_append]
      exact .beside _ _ _ _ left right
  | permuted first second =>
      rw [SelectionSet.answering_append, SelectionSet.answering_append, nodes_append, nodes_append]
      exact .permuted _ _
  | repeated =>
      rw [SelectionSet.answering_append, nodes_append]
      exact .repeated _
  | splitField alias? other? name arguments others directives more first second same =>
      rw [alone, alone, alone, ← same]
      split
      · exact .splitInline none [] first second
      · exact .refl _
  | splitInline => exact .refl _
  | inField alias? name arguments directives first second inside =>
      rw [alone, alone]
      split
      · exact .inInline none [] first second inside
      · exact .refl _
  | inInline => exact .refl _

structure Rearranged (request other : Request) : Prop where
  roots : Rearranges request.roots other.roots
  fragments : ∀ name, Option.Rel (fun fragment second => fragment.condition = second.condition ∧
    Rearranges fragment.selections second.selections) (request.fragment? name) (other.fragment? name)

theorem rearranged_fragment (request other : Request) (same : Rearranged request other) (name : String) (fragment : Fragment)
    (found : request.fragment? name = some fragment) : ∃ second, other.fragment? name = some second ∧
      fragment.condition = second.condition ∧ Rearranges fragment.selections second.selections := by
  have both := same.fragments name
  rw [found] at both
  cases defined : other.fragment? name with
  | none =>
      rw [defined] at both
      cases both
  | some second =>
      rw [defined] at both
      cases both with
      | some kept => exact ⟨second, rfl, kept⟩

theorem rearranged_symm (request other : Request) (same : Rearranged request other) : Rearranged other request where
  roots := .symm _ _ same.roots
  fragments name := by
    have both := same.fragments name
    generalize request.fragment? name = mine at both
    generalize other.fragment? name = theirs at both
    cases both with
    | none => exact .none
    | some kept => exact .some ⟨kept.1.symm, .symm _ _ kept.2⟩

theorem rearranged_undefined (request other : Request) (same : Rearranged request other) (name : String)
    (missing : request.fragment? name = none) : other.fragment? name = none := by
  cases defined : other.fragment? name with
  | none => rfl
  | some second =>
      obtain ⟨fragment, found, _⟩ := rearranged_fragment other request (rearranged_symm request other same) name second defined
      cases missing.symm.trans found

theorem rearranged_acyclic (request other : Request) (same : Rearranged request other) (acyclic : request.Acyclic) :
    other.Acyclic := by
  have step (name inner : String) (spreads : other.Spreads name inner) : request.Spreads name inner := by
    obtain ⟨fragment, found, listed⟩ := spreads
    obtain ⟨second, defined, _, kept⟩ :=
      rearranged_fragment other request (rearranged_symm request other same) name fragment found
    exact ⟨second, defined, (rearranged_spreads _ _ kept inner).mp listed⟩
  exact fun name loop => acyclic name (Relation.TransGen.mono step name name loop)

end GraphQL

namespace Selection

inductive Alike : Except Error SelectionTree → Except Error SelectionTree → Prop where
  | fails (error other : Error) : Alike (.error error) (.error other)
  | makes (tree other : SelectionTree) (here : tree.Distinct) (there : other.Distinct)
      (similar : SelectionTree.Similar tree other) : Alike (.ok tree) (.ok other)

theorem alike_refl (computed : Except Error SelectionTree) (distinct : MakesDistinct computed) : Alike computed computed := by
  cases computed with
  | error error => exact .fails error error
  | ok tree => exact .makes tree tree (distinct tree rfl) (distinct tree rfl) (fun _ => ⟨Iff.rfl, Iff.rfl⟩)

theorem alike_symm (first second : Except Error SelectionTree) (alike : Alike first second) : Alike second first := by
  cases alike with
  | fails error other => exact .fails other error
  | makes tree other here there similar =>
      exact .makes other tree there here (fun path => ⟨(similar path).1.symm, (similar path).2.symm⟩)

theorem alike_trans (first second third : Except Error SelectionTree) (before : Alike first second)
    (after : Alike second third) : Alike first third := by
  cases before with
  | fails error other =>
      cases after with
      | fails _ last => exact .fails error last
  | makes tree middle here _ similar =>
      cases after with
      | makes _ other _ there same =>
          refine .makes tree other here there (fun path => ?_)
          exact ⟨(similar path).1.trans (same path).1, (similar path).2.trans (same path).2⟩

theorem joined_after {α : Type} (first : Except Error α) (next other : α → Except Error SelectionTree) :
    joined (first >>= next) (first >>= other) = first >>= fun value => joined (next value) (other value) := by
  cases first <;> rfl

theorem joined_objects (field : Field) (first second : Except Error SelectionTree) :
    joined (first >>= fun inner => return .object field inner .nil) (second >>= fun inner => return .object field inner .nil) =
      joined first second >>= fun inner => return .object field inner .nil := by
  cases first with
  | error error => rfl
  | ok tree =>
      cases second with
      | error error => rfl
      | ok other =>
          have merged : SelectionTree.merge (.object field tree .nil) (.object field other .nil) =
              .object field (tree.merge other) .nil := if_pos rfl
          exact congrArg Except.ok merged

theorem alike_after {α : Type} (first : Except Error α) (next other : α → Except Error SelectionTree)
    (late : ∀ value, first = .ok value → Alike (next value) (other value)) : Alike (first >>= next) (first >>= other) := by
  cases first with
  | error error => exact .fails error error
  | ok value => exact late value rfl

theorem alike_joined (first second third fourth : Except Error SelectionTree) (left : Alike first third)
    (right : Alike second fourth) : Alike (joined first second) (joined third fourth) := by
  cases left with
  | fails error other => exact .fails error other
  | makes tree other here there similar =>
      cases right with
      | fails error other => exact .fails error other
      | makes later last after behind same =>
          exact .makes _ _ (SelectionTree.distinct_merge tree later here after)
            (SelectionTree.distinct_merge other last there behind)
            (SelectionTree.similar_merge tree later other last after behind similar same)

theorem alike_swapped (first second : Except Error SelectionTree) (left : MakesDistinct first) (right : MakesDistinct second) :
    Alike (joined first second) (joined second first) := by
  cases first with
  | error error =>
      cases second with
      | error other => exact .fails error other
      | ok tree => exact .fails error error
  | ok tree =>
      cases second with
      | error other => exact .fails other other
      | ok other =>
          have here := left tree rfl
          have there := right other rfl
          exact .makes _ _ (SelectionTree.distinct_merge tree other here there)
            (SelectionTree.distinct_merge other tree there here)
            (SelectionTree.similar_swapped tree other here there)

theorem alike_object (field : Field) (first second : Except Error SelectionTree) (alike : Alike first second) :
    Alike (first >>= fun inner => return .object field inner .nil)
      (second >>= fun inner => return .object field inner .nil) := by
  cases alike with
  | fails error other => exact .fails error other
  | makes tree other here there similar =>
      exact .makes _ _ (SelectionTree.object_distinct field tree here) (SelectionTree.object_distinct field other there)
        (SelectionTree.similar_object field tree other similar)

section

variable (schema : Schema)

theorem alike_asked (collector other : Collector) (type : CompositeIndex) (name : String) (first second : SelectionSet)
    (empty : first.isEmpty = second.isEmpty) (alike : ∀ type, Alike (collector type first) (other type second)) :
    Alike (asked schema collector type name first) (asked schema other type name second) := by
  rw [asked, asked]
  by_cases introspective : isIntrospective name = true
  · rw [if_pos introspective, if_pos introspective]
    exact alike_refl _ (makes_distinct .nil trivial)
  · rw [if_neg introspective, if_neg introspective]
    refine alike_after _ _ _ (fun composite _ => alike_after _ _ _ (fun field _ => ?_))
    have leaf : Alike (.ok (.leaf field .nil)) (.ok (.leaf field .nil)) :=
      alike_refl _ (makes_distinct _ (SelectionTree.leaf_distinct field))
    cases field.type.composite? with
    | none => exact leaf
    | some nested =>
        dsimp only
        rw [← empty]
        by_cases none : first.isEmpty = true
        · rw [if_pos none, if_pos none]
          exact leaf
        · rw [if_neg none, if_neg none]
          exact alike_after _ _ _ (fun _ _ => alike_object field _ _ (alike nested))

theorem alike_applied (collector other : Collector) (type : CompositeIndex) (condition : Option String)
    (first second : SelectionSet) (alike : ∀ type, Alike (collector type first) (other type second)) :
    Alike (applied schema collector type condition first) (applied schema other type condition second) :=
  alike_after _ _ _ (fun _ _ => alike _)

section

variable (request : Request) (collector : Collector) (acyclic : request.Acyclic) (naive : IsNaive schema request collector)

include acyclic naive

theorem collector_field_alone (type : CompositeIndex) (alias? : Option String) (name : String) (arguments : List Argument)
    (directives : List Directive) (selections : SelectionSet) :
    collector type (.field alias? name arguments directives selections .nil) = asked schema collector type name selections := by
  have nothing : collector type .nil = .ok .nil := naive type .nil
  rw [collector_field schema request collector acyclic naive, nothing, joined_nil]

theorem collector_inline_alone (type : CompositeIndex) (condition : Option String) (directives : List Directive)
    (selections : SelectionSet) :
    collector type (.inline condition directives selections .nil) = applied schema collector type condition selections := by
  have nothing : collector type .nil = .ok .nil := naive type .nil
  rw [collector_inline schema request collector acyclic naive, nothing, joined_nil]

theorem asked_append (type : CompositeIndex) (name : String) (first second : SelectionSet) (left : first.isEmpty = false)
    (right : second.isEmpty = false) : asked schema collector type name (first.append second) =
      joined (asked schema collector type name first) (asked schema collector type name second) := by
  rw [asked, asked, asked]
  by_cases introspective : isIntrospective name = true
  · rw [if_pos introspective, if_pos introspective, if_pos introspective]
    rfl
  · rw [if_neg introspective, if_neg introspective, if_neg introspective, joined_after]
    refine except_bind_congr _ _ _ (fun composite _ => ?_)
    rw [joined_after]
    refine except_bind_congr _ _ _ (fun field _ => ?_)
    cases field.type.composite? with
    | none => exact (joined_self _ (makes_distinct _ (SelectionTree.leaf_distinct field))).symm
    | some nested =>
        simp only [SelectionSet.empty_append, left, right, Bool.and_self, Bool.false_eq_true, if_false]
        rw [joined_after]
        refine except_bind_congr _ _ _ (fun _ _ => ?_)
        rw [collector_append schema request collector acyclic naive, joined_objects]

theorem applied_append (type : CompositeIndex) (condition : Option String) (first second : SelectionSet) :
    applied schema collector type condition (first.append second) =
      joined (applied schema collector type condition first) (applied schema collector type condition second) := by
  rw [applied, applied, applied]
  cases schema.composite (target schema type condition) with
  | error error => rfl
  | ok composite => exact collector_append schema request collector acyclic naive _ second first

theorem rearranged_alike (first second : SelectionSet) (same : Rearranges first second) :
    ∀ type, Alike (collector type first) (collector type second) := by
  have distinct := collector_distinct schema request collector acyclic naive
  have append := collector_append schema request collector acyclic naive
  have field := collector_field_alone schema request collector acyclic naive
  have inline := collector_inline_alone schema request collector acyclic naive
  induction same with
  | refl selections => exact fun type => alike_refl _ (distinct type selections)
  | symm _ _ _ ih => exact fun type => alike_symm _ _ (ih type)
  | trans _ _ _ _ _ ih later => exact fun type => alike_trans _ _ _ (ih type) (later type)
  | beside first second third fourth _ _ left right =>
      intro type
      rw [append, append]
      exact alike_joined _ _ _ _ (left type) (right type)
  | permuted first second =>
      intro type
      rw [append, append]
      exact alike_swapped _ _ (distinct type first) (distinct type second)
  | repeated selections =>
      intro type
      rw [append, joined_self _ (distinct type selections)]
      exact alike_refl _ (distinct type selections)
  | splitField alias? other? name arguments others directives more first second _ left right =>
      intro type
      rw [collector_field schema request collector acyclic naive type _ _ _ _ first, field, field,
        ← asked_append schema request collector acyclic naive type name first second left right]
      exact alike_refl _ (asked_distinct schema request collector acyclic naive type name _)
  | splitInline condition directives first second =>
      intro type
      rw [collector_inline schema request collector acyclic naive type _ _ first, inline, inline,
        ← applied_append schema request collector acyclic naive type condition first second]
      exact alike_refl _ (applied_distinct schema request collector acyclic naive type condition _)
  | inField alias? name arguments directives first second inside ih =>
      intro type
      rw [field, field]
      exact alike_asked schema collector collector type name first second (rearranged_empty first second inside) ih
  | inInline condition directives first second inside ih =>
      intro type
      rw [inline, inline]
      exact alike_applied schema collector collector type condition first second ih

theorem tree_collects (type : CompositeIndex) (key : String) :
    tree schema type request key = collector type (nodesOf (request.answering key)) := by
  have gathers (sets : List SelectionSet) : ∀ held : SelectionTree,
      gather schema request collector type (nodesOf sets) held = gatherAll schema collector type sets held := by
    induction sets with
    | nil => exact fun _ => rfl
    | cons selections rest ih =>
        intro held
        change gather schema request collector type (.inline none [] selections (nodesOf rest)) held = _
        rw [gather_inline schema request collector type none [] selections _ naive, applied, gatherAll, bind_assoc]
        exact except_bind_congr _ _ _ (fun _ _ => except_bind_congr _ _ _ (fun inner _ => ih _))
  rw [naive, gathers]
  exact collect_all_gathers schema request collector acyclic naive type _ .nil [] (nothing_sound schema request collector)

end

section

variable (request other : Request) (collector second : Collector) (acyclic : request.Acyclic) (still : other.Acyclic)
  (naive : IsNaive schema request collector) (again : IsNaive schema other second)

include acyclic still naive again

theorem collectors_alike (selections : SelectionSet) (fragments : ∀ name ∈ selections.spreads, ∀ type,
      Alike (fetched schema request collector name type) (fetched schema other second name type)) :
    ∀ type, Alike (collector type selections) (second type selections) := by
  induction selections with
  | nil =>
      intro type
      have here : collector type .nil = .ok .nil := naive type .nil
      have there : second type .nil = .ok .nil := again type .nil
      rw [here, there]
      exact alike_refl _ (makes_distinct .nil trivial)
  | field alias? name arguments directives selections rest inner ih =>
      intro type
      rw [collector_field schema request collector acyclic naive, collector_field schema other second still again]
      refine alike_joined _ _ _ _ (alike_asked schema collector second type name selections selections rfl ?_) ?_
      · exact inner (fun name member => fragments name (List.mem_append.mpr (.inl member)))
      · exact ih (fun name member => fragments name (List.mem_append.mpr (.inr member))) type
  | inline condition directives selections rest inner ih =>
      intro type
      rw [collector_inline schema request collector acyclic naive, collector_inline schema other second still again]
      refine alike_joined _ _ _ _ (alike_applied schema collector second type condition selections selections ?_) ?_
      · exact inner (fun name member => fragments name (List.mem_append.mpr (.inl member)))
      · exact ih (fun name member => fragments name (List.mem_append.mpr (.inr member))) type
  | spread name directives rest ih =>
      intro type
      rw [collector_spread schema request collector acyclic naive, collector_spread schema other second still again]
      refine alike_joined _ _ _ _ (fragments name (List.mem_cons_self ..) type) ?_
      exact ih (fun inner member => fragments inner (List.mem_cons_of_mem name member)) type

theorem rearranged_collectors_alike (first last : SelectionSet) (same : Rearranges first last)
    (fragments : ∀ name ∈ first.spreads, ∀ type,
      Alike (fetched schema request collector name type) (fetched schema other second name type)) (type : CompositeIndex) :
    Alike (collector type first) (second type last) :=
  alike_trans _ _ _ (rearranged_alike schema request collector acyclic naive first last same type)
    (collectors_alike schema request other collector second acyclic still naive again last
      (fun name member => fragments name ((rearranged_spreads first last same name).mpr member)) type)

theorem fragments_alike (same : Rearranged request other) (name : String) :
    ∀ type, Alike (fetched schema request collector name type) (fetched schema other second name type) := by
  refine every_fragment request acyclic (fun _ _ name =>
    ∀ type, Alike (fetched schema request collector name type) (fetched schema other second name type)) ?_ ?_ name
  · intro _ _ name missing type
    rw [fetched, fetched, missing, rearranged_undefined request other same name missing]
    exact alike_refl _ (makes_distinct .nil trivial)
  · intro _ _ name fragment found _ inner type
    obtain ⟨kept, defined, condition, within⟩ := rearranged_fragment request other same name fragment found
    rw [fetched, fetched, found, defined]
    dsimp only
    rw [← condition]
    exact alike_applied schema collector second type (some fragment.condition) _ _
      (rearranged_collectors_alike schema request other collector second acyclic still naive again _ _ within inner)

end

theorem tree_alike (request other : Request) (acyclic : request.Acyclic) (same : Rearranged request other)
    (type : CompositeIndex) (key : String) : Alike (tree schema type request key) (tree schema type other key) := by
  have still := rearranged_acyclic request other same acyclic
  have naive := naive_exists schema request acyclic
  have again := naive_exists schema other still
  rw [tree_collects schema request _ acyclic naive, tree_collects schema other _ still again, answering_roots, answering_roots]
  refine rearranged_collectors_alike schema request other _ _ acyclic still naive again _ _
    (rearranged_answering key request.roots other.roots same.roots) ?_ type
  exact fun name _ => fragments_alike schema request other _ _ acyclic still naive again same name

end

end Selection

end DocGraph
