import DocGraph.Proofs.Projection.Dependencies
import DocGraph.Proofs.Selection.Additive
import DocGraph.Proofs.Selection.Nodes

set_option autoImplicit false

namespace DocGraph

namespace Node

def isStored (computed : FieldTest) (excluded : List String) (node : Node) : Bool :=
  node.chain.all (fun field => !computed field) && !excluded.contains node.root.name

-- Something of the document is asked for: all of a stored field, or what a computed field depends on.
def isAnswered (computed : FieldTest) (excluded : List String) (node : Node) : Bool :=
  node.isProjected computed excluded || (node.isResolved computed && !node.field.dependencies.isEmpty)

end Node

namespace Projection

open DotPath

section

variable (computed : FieldTest) (excluded : List String) (tree : SelectionTree)

theorem answered_demanded (node inner : Node) (member : inner ∈ tree.nodes) (inside : node.chain <+: inner.chain)
    (stored : node.isStored computed excluded = true) (named : node.field.name ≠ "")
    (answered : inner.isAnswered computed excluded = true) :
    ∃ path ∈ demanded computed excluded tree, segments (pathOf "" node.chain) <+: segments path := by
  rcases Bool.or_eq_true_iff.mp answered with projected | resolved
  · refine ⟨pathOf "" inner.chain, ?_, ?_⟩
    · exact List.mem_append.mpr (.inl (List.mem_map.mpr ⟨inner, List.mem_filter.mpr ⟨member, projected⟩, rfl⟩))
    · obtain ⟨more, chain⟩ := inside
      have path : pathOf "" inner.chain = (more.map Field.name).foldl under (pathOf "" node.chain) := by
        rw [← chain, pathOf, pathOf, List.map_append, List.foldl_append]
      rw [path]
      refine segments_fold _ _ ?_
      rw [pathOf, Node.chain, List.map_append, List.foldl_append]
      exact under_ne_empty _ _ named
  · obtain ⟨resolved, reads⟩ := Bool.and_eq_true_iff.mp resolved
    have above : node.chain <+: inner.above := by
      refine (List.prefix_concat_iff.mp inside).resolve_left (fun same => ?_)
      have mine := List.all_eq_true.mp (Bool.and_eq_true_iff.mp stored).1 inner.field
        (same ▸ List.mem_append_right _ (List.mem_singleton.mpr rfl))
      rw [(Bool.and_eq_true_iff.mp resolved).2] at mine
      cases mine
    obtain ⟨dependency, rest, declared⟩ : ∃ dependency rest, inner.field.dependencies = dependency :: rest :=
      List.exists_cons_of_ne_nil (by simpa using reads)
    have path : under (pathOf "" inner.above) dependency ∈ dependenciesAt (pathOf "" inner.above) inner.field :=
      List.mem_map.mpr ⟨dependency, declared ▸ List.mem_cons_self .., rfl⟩
    refine ⟨_, List.mem_append.mpr (.inr (List.mem_flatMap.mpr ⟨inner, List.mem_filter.mpr ⟨member, resolved⟩, path⟩)), ?_⟩
    exact segments_below _ _ (dependency_below node inner (above.map Field.name) named _ path)

theorem demanded_meets (path lower : String) (listed : lower ∈ demanded computed excluded tree)
    (along : Along (segments path) (segments lower)) : ∃ held ∈ minimal (demanded computed excluded tree), Meets held path := by
  obtain ⟨held, stays, same | inside⟩ := (covered_iff _ lower).mp (covered_of_mem _ lower listed)
  · exact ⟨held, stays, (meets_iff held path).mpr (same ▸ along.symm)⟩
  · refine ⟨held, stays, (meets_iff held path).mpr ?_⟩
    have above := segments_below lower held inside
    rcases along with leads | follows
    · exact List.prefix_or_prefix_of_prefix above leads
    · exact .inl (above.trans follows)

theorem requested_along (plain : ∀ node ∈ tree.nodes, ∀ field ∈ node.chain, IsPlainName field.name) (distinct : tree.Distinct)
    (node inner : Node) (member : node ∈ tree.nodes) (listed : inner ∈ tree.nodes) (whole : inner.whole = true)
    (meets : Meets (pathOf "" inner.chain) (pathOf "" node.chain)) : node.chain <+: inner.chain := by
  have cut (held : Node) (within : held ∈ tree.nodes) : segments (pathOf "" held.chain) = held.names := by
    have spells : Spells (pathOf "" held.chain) held.names := spells_of_keys held.names (fun key named => by
      obtain ⟨field, inside, rfl⟩ := List.mem_map.mp named
      exact (plain held within field inside).1)
    exact segments_spelled _ _ spells (by simp [Node.names, Node.chain])
  have along := (meets_iff _ _).mp meets
  rw [cut inner listed, cut node member] at along
  exact SelectionTree.nodes_along tree distinct node member inner listed whole along.symm

end

theorem stored_objects_kept (schema : Schema) (type : CompositeIndex) (request : GraphQL.Request) (key : String)
    (excluded : List String) (computed : FieldTest) (projection : Members)
    (made : (document schema type request key excluded computed).result = .ok projection) :
    ∃ tree, Selection.tree schema type request key = .ok tree ∧
      ∀ node ∈ tree.nodes, node.isStored computed excluded = true → node.field.name ≠ "" →
        ((∃ inner ∈ tree.nodes, node.chain <+: inner.chain ∧ inner.isAnswered computed excluded = true) ∨
            (∃ other ∈ declaredPaths computed tree, Meets other (pathOf "" node.chain)) →
          ∃ held ∈ projection.keys, Meets held (pathOf "" node.chain)) ∧
        (schema.HasPlainNames → (∃ held ∈ projection.keys, Meets held (pathOf "" node.chain)) →
          (∃ inner ∈ tree.nodes, node.chain <+: inner.chain ∧ inner.isAnswered computed excluded = true) ∨
            ∃ other ∈ declaredPaths computed tree, Meets other (pathOf "" node.chain)) := by
  obtain ⟨tree, read, keys⟩ := document_keys schema type request key excluded computed projection made
  refine ⟨tree, read, fun node member stored named => ?_⟩
  rw [keys]
  constructor
  · rintro (⟨inner, listed, inside, answered⟩ | ⟨other, declared, meets⟩)
    · obtain ⟨lower, asked, above⟩ := answered_demanded computed excluded tree node inner listed inside stored named answered
      exact demanded_meets computed excluded tree _ lower asked (.inl above)
    · exact demanded_meets computed excluded tree _ other (List.mem_append.mpr (.inr declared)) ((meets_iff _ _).mp meets).symm
  · rintro plain ⟨held, kept, meets⟩
    rcases List.mem_append.mp ((mem_minimal held _).mp kept).1 with requested | declared
    · obtain ⟨inner, listed, rfl⟩ := List.mem_map.mp requested
      obtain ⟨listed, projected⟩ := List.mem_filter.mp listed
      have traced := Selection.tree_inherits schema _ (Selection.traced_inherited schema _ plain) type request key tree read
      have whole : inner.whole = true := (Bool.and_eq_true_iff.mp (Bool.and_eq_true_iff.mp projected).1).1
      refine .inl ⟨inner, listed, ?_, Bool.or_eq_true_iff.mpr (.inl projected)⟩
      exact requested_along tree (SelectionTree.chain_traced _ tree traced)
        (Selection.tree_distinct schema type request key tree read) node inner member listed whole meets
    · exact .inr ⟨held, declared, meets⟩

def contactField : Field := { name := "contact", type := .named (.composite .object ⟨2⟩) }

def cardField : Field := { name := "card", type := .scalar .string, origin := .computed (some ["phone", "mail.home"]) }

def memberTree : SelectionTree :=
  .leaf { name := "_id", type := .scalar .id } (.leaf { name := "name", type := .scalar .string }
    (.object { name := "address", type := .named (.composite .object ⟨1⟩) }
      (.leaf { name := "city", type := .scalar .string } .nil)
      (.object contactField (.leaf cardField .nil)
        (.leaf { name := "label", type := .scalar .string, origin := .computed (some ["address", "name"]) } .nil))))

theorem contact_kept :
    (document memberSchema ⟨0⟩ memberRequest "members" ["_id"] Field.isComputed).result =
      .ok (["name", "contact.phone", "contact.mail.home", "address"].map (fun path => (path, Json.int 1))) ∧
    ∃ held ∈ ["name", "contact.phone", "contact.mail.home", "address"], Meets held (pathOf "" [contactField]) := by
  have made : (document memberSchema ⟨0⟩ memberRequest "members" ["_id"] Field.isComputed).result =
      .ok (["name", "contact.phone", "contact.mail.home", "address"].map (fun path => (path, Json.int 1))) := rfl
  have collected : Selection.tree memberSchema ⟨0⟩ memberRequest "members" = .ok memberTree := rfl
  obtain ⟨tree, read, kept⟩ := stored_objects_kept memberSchema ⟨0⟩ memberRequest "members" ["_id"] Field.isComputed _ made
  cases collected.symm.trans read
  have contact : (⟨[], contactField, false⟩ : Node) ∈ memberTree.nodes := by
    simp [memberTree, SelectionTree.nodes, SelectionTree.isEmpty]
  have card : (⟨[contactField], cardField, true⟩ : Node) ∈ memberTree.nodes := by
    simp [memberTree, SelectionTree.nodes, Node.within]
  exact ⟨made, (kept _ contact rfl (by decide)).1 (.inl ⟨_, card, ⟨[cardField], rfl⟩, rfl⟩)⟩

def reports : Schema where
  composites := [
    { name := "Report", kind := .object, fields := [
      { name := "title", type := .scalar .string },
      { name := "totals", type := .named (.composite .object ⟨1⟩) }] },
    { name := "Totals", kind := .object, fields := [
      { name := "year", type := .scalar .int },
      { name := "count", type := .scalar .int, origin := .computed (some []) }] }]

def reportsRequest : GraphQL.Request := querying "reports" (asking [("title", .nil), ("totals", asking [("count", .nil)])])

-- The totals are stored and asked for, but the answer leaves them out.
theorem totals_lost :
    (document reports ⟨0⟩ reportsRequest "reports" [] Field.isComputed).result = .ok [("title", .int 1)] ∧
      ∃ tree, Selection.tree reports ⟨0⟩ reportsRequest "reports" = .ok tree ∧
        ∃ node ∈ tree.nodes, node.isStored Field.isComputed [] = true ∧ pathOf "" node.chain = "totals" ∧
          ¬ ∃ held ∈ ["title"], Meets held (pathOf "" node.chain) := by
  refine ⟨rfl, _, rfl, ⟨[], { name := "totals", type := .named (.composite .object ⟨1⟩) }, false⟩, ?_, rfl, rfl, by decide⟩
  exact List.mem_cons_of_mem _ (List.mem_cons_self ..)

end Projection

end DocGraph
