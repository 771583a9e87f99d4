import DocGraph.Proofs.Projection.Paths
import DocGraph.Proofs.Schema.Names
import DocGraph.Proofs.Selection.Occurrences

set_option autoImplicit false

namespace DocGraph

open SelectionTree (Asked Answers Traced)

def Follows (asked : Asked) : List Field → Prop
  | [] => True
  | field :: rest => (∃ whole, asked [] field whole) ∧ Follows (asked.under field.name) rest

theorem follows_front (front back : List Field) : ∀ asked : Asked, Follows asked (front ++ back) → Follows asked front := by
  induction front with
  | nil => exact fun _ _ => trivial
  | cons field rest ih => exact fun asked ⟨mine, below⟩ => ⟨mine, ih _ below⟩

-- Fields of one name that are asked for in one place of a way come from the document alike.
def SelectionTree.Asked.Agrees (asked : Asked) (way : List String) : Prop :=
  ∀ names (a b : Field) (first second : Bool), asked names a first → asked names b second → a.name = b.name →
    names ++ [a.name] <+: way → a.origin = b.origin

theorem origins_agree (fields others : List Field) : ∀ asked : Asked, asked.Agrees (others.map Field.name) →
    Follows asked fields → Follows asked others → fields.map Field.name <+: others.map Field.name →
    fields.map Field.origin <+: others.map Field.origin := by
  induction fields generalizing others with
  | nil => exact fun _ _ _ _ _ => List.nil_prefix
  | cons field rest ih =>
      intro asked agrees ⟨⟨first, mine⟩, below⟩ follows names
      cases others with
      | nil => cases List.prefix_nil.mp names
      | cons other more =>
          obtain ⟨⟨second, theirs⟩, beside⟩ := follows
          obtain ⟨same, names⟩ := List.cons_prefix_cons.mp names
          have here := agrees [] field other first second mine theirs same (List.cons_prefix_cons.mpr ⟨same, List.nil_prefix⟩)
          refine List.cons_prefix_cons.mpr ⟨here, ih more (asked.under field.name) ?_ below (same ▸ beside) names⟩
          intro names a b first second left right named inside
          exact agrees (field.name :: names) a b first second left right named (List.cons_prefix_cons.mpr ⟨same, inside⟩)

theorem node_of_answers (tree : SelectionTree) (names : List String) (answers : tree.Answers names) :
    ∀ asked : Asked, tree.Traced asked → ∃ node ∈ tree.nodes, Follows asked node.chain ∧
      (node.names = names ∨ node.whole = true ∧ node.names <+: names ∧ node.names ≠ names ∧
        ∃ other, other.name = node.field.name ∧ asked (node.above.map Field.name) other true) := by
  induction answers with
  | leaf field rest deeper =>
      intro asked ⟨mine, wholly, _⟩
      refine ⟨_, List.mem_cons_self .., ⟨mine, trivial⟩, ?_⟩
      cases deeper with
      | nil => exact .inl rfl
      | cons name others => exact .inr ⟨rfl, ⟨name :: others, rfl⟩, nofun, wholly⟩
  | object field selection rest => exact fun asked traced => ⟨_, List.mem_cons_self .., ⟨traced.1, trivial⟩, .inl rfl⟩
  | nested field selection rest names inside ih =>
      intro asked ⟨mine, below, _⟩
      obtain ⟨node, member, follows, shape⟩ := ih (asked.under field.name) below
      refine ⟨node.within field, ?_, ⟨mine, follows⟩, ?_⟩
      · exact List.mem_cons_of_mem _ (List.mem_append.mpr (.inl (List.mem_map.mpr ⟨node, member, rfl⟩)))
      · rcases shape with same | ⟨whole, before, other, wholly⟩
        · exact .inl (congrArg (field.name :: ·) same)
        · exact .inr ⟨whole, List.cons_prefix_cons.mpr ⟨rfl, before⟩, fun same => other (List.cons.inj same).2, wholly⟩
  | afterLeaf field rest names later ih =>
      intro asked ⟨_, _, traced⟩
      obtain ⟨node, member, shape⟩ := ih asked traced
      exact ⟨node, List.mem_cons_of_mem _ member, shape⟩
  | afterObject field selection rest names later ih =>
      intro asked ⟨_, _, traced⟩
      obtain ⟨node, member, shape⟩ := ih asked traced
      exact ⟨node, List.mem_cons_of_mem _ (List.mem_append.mpr (.inr member)), shape⟩

namespace DotPath

theorem below_fold_under (keys : List String) (path key : String) (nonempty : path ≠ "") :
    below (under (keys.foldl under path) key) path = true := by
  induction keys generalizing path with
  | nil => exact under_below path key nonempty
  | cons first rest ih =>
      exact below_trans _ _ _ (ih (under path first) (under_keeps path first nonempty)) (under_below path first nonempty)

end DotPath

namespace Selection

variable (schema : Schema) (request : GraphQL.Request)

theorem occurs_declared (type : CompositeIndex) (selections : GraphQL.SelectionSet) (node : Node)
    (occurs : Occurs schema request type selections node) :
    ∃ composite ∈ schema.composites, node.field ∈ composite.fields := by
  induction occurs with
  | field type _ name _ _ _ _ composite field _ found declared =>
      exact ⟨composite, Schema.composite_mem schema type composite found, (Composite.name_of_field?_eq_some declared).2⟩
  | within _ _ _ _ _ _ _ _ _ _ _ _ _ _ _ _ ih => exact ih
  | inline _ _ _ _ _ _ _ ih => exact ih
  | spread _ _ _ _ _ _ _ _ ih => exact ih
  | afterField _ _ _ _ _ _ _ _ _ ih => exact ih
  | afterInline _ _ _ _ _ _ _ ih => exact ih
  | afterSpread _ _ _ _ _ _ ih => exact ih

theorem follows_widen (fields : List Field) : ∀ asked more : Asked,
    (∀ names field whole, asked names field whole → more names field whole) → Follows asked fields → Follows more fields := by
  induction fields with
  | nil => exact fun _ _ _ _ => trivial
  | cons field rest ih =>
      intro asked more wider ⟨⟨whole, mine⟩, below⟩
      exact ⟨⟨whole, wider _ _ _ mine⟩, ih _ _ (fun names => wider (field.name :: names)) below⟩

theorem occurs_follows (type : CompositeIndex) (selections : GraphQL.SelectionSet) (node : Node)
    (occurs : Occurs schema request type selections node) :
    Follows (Asked.of (Occurs schema request type selections)) node.chain := by
  have widen (a b : Node → Prop) (fields : List Field) (wider : ∀ node, a node → b node)
      (follows : Follows (Asked.of a) fields) : Follows (Asked.of b) fields :=
    follows_widen fields _ _ (fun _ _ _ ⟨above, names, mine⟩ => ⟨above, names, wider _ mine⟩) follows
  induction occurs with
  | field type alias? name arguments directives selections rest composite field ordinary found declared =>
      exact ⟨⟨_, [], rfl,
        .field type alias? name arguments directives selections rest composite field ordinary found declared⟩, trivial⟩
  | within type nested alias? name arguments directives selections rest composite field node ordinary found declared leads
      inside ih =>
      refine ⟨⟨_, [], rfl,
        .field type alias? name arguments directives selections rest composite field ordinary found declared⟩, ?_⟩
      refine follows_widen node.chain _ _ ?_ ih
      rintro _ other whole ⟨above, rfl, mine⟩
      exact ⟨field :: above, rfl, .within type nested alias? name arguments directives selections rest composite field _
        ordinary found declared leads mine⟩
  | inline type condition directives selections rest node inside ih =>
      exact widen _ _ _ (fun node => .inline type condition directives selections rest node) ih
  | spread type name directives rest fragment node defined inside ih =>
      exact widen _ _ _ (fun node => .spread type name directives rest fragment node defined) ih
  | afterField type alias? name arguments directives selections rest node later ih =>
      exact widen _ _ _ (fun node => .afterField type alias? name arguments directives selections rest node) ih
  | afterInline type condition directives selections rest node later ih =>
      exact widen _ _ _ (fun node => .afterInline type condition directives selections rest node) ih
  | afterSpread type name directives rest node later ih =>
      exact widen _ _ _ (fun node => .afterSpread type name directives rest node) ih

end Selection

namespace Projection

open DotPath
open Selection (Requested)

theorem computed_of_origin (a b : Field) (same : a.origin = b.origin) : a.isComputed = b.isComputed := by
  rw [Field.isComputed, Field.isComputed, same]

theorem stored_of_origins (fields others : List Field) (same : fields.map Field.origin <+: others.map Field.origin)
    (stored : ∀ field ∈ others, field.isStored = true) : fields.all (fun field => !field.isComputed) = true := by
  refine List.all_eq_true.mpr (fun field member => ?_)
  obtain ⟨other, listed, origin⟩ := List.mem_map.mp (same.subset (List.mem_map_of_mem member))
  have alike := stored other listed
  rwa [Field.isStored, computed_of_origin other field origin] at alike

theorem root_of_names (node : Node) (name : String) (rest : List String) (names : node.names = name :: rest) :
    node.root.name = name := by
  rcases node with ⟨above, field, whole⟩
  cases above with
  | nil => exact (List.cons.inj names).1
  | cons first others => exact (List.cons.inj names).1

theorem chain_split {α : Type} (f : Field → α) (a b : Node) (same : a.chain.map f = b.chain.map f) :
    a.above.map f = b.above.map f ∧ f a.field = f b.field := by
  simp only [Node.chain, List.map_append, List.map_cons, List.map_nil] at same
  obtain ⟨above, field⟩ := List.append_inj' same rfl
  exact ⟨above, (List.cons.inj field).1⟩

variable (schema : Schema) (request : GraphQL.Request) (type : CompositeIndex) (key : String) (excluded : List String)

def Agree (node : Node) : Prop :=
  ∀ a b, Requested schema request type key a → Requested schema request type key b → a.names = b.names →
    a.names <+: node.names → a.field.origin = b.field.origin

-- No field above a node is asked for as a whole if the root of the node is excluded.
def Shown (node : Node) : Prop :=
  ∀ a, Requested schema request type key a → a.whole = true → a.names <+: node.above.map Field.name →
    node.root.name ∉ excluded

theorem agrees_of_agree (node : Node) (agree : Agree schema request type key node) (way : List String)
    (front : way <+: node.names) : (Asked.of (Requested schema request type key)).Agrees way := by
  intro _ a b first second ⟨above, leads, mine⟩ ⟨beside, names, theirs⟩ same inside
  subst leads
  have spelled : Node.names ⟨above, a, first⟩ = above.map Field.name ++ [a.name] := by simp [Node.names, Node.chain]
  refine agree _ _ mine theirs ?_ ?_
  · simp only [Node.names, Node.chain, List.map_append, List.map_cons, List.map_nil, names, same]
  · rw [spelled]
    exact inside.trans front

theorem requested_follows (node : Node) (asked : Requested schema request type key node) :
    Follows (Asked.of (Requested schema request type key)) node.chain := by
  obtain ⟨selections, listed, occurs⟩ := asked
  refine Selection.follows_widen node.chain _ _ ?_ (Selection.occurs_follows schema request type selections node occurs)
  exact fun _ _ _ ⟨above, same, mine⟩ => ⟨above, same, selections, listed, mine⟩

theorem alike_demanded (tree : SelectionTree) (node held : Node) (member : held ∈ tree.nodes)
    (names : held.names = node.names) (origins : held.chain.map Field.origin = node.chain.map Field.origin)
    (stored : ∀ field ∈ node.above, field.isStored = true) (computed : node.field.isComputed = true) (path : String)
    (declared : path ∈ dependenciesAt (pathOf "" node.above) node.field) :
    path ∈ demanded Field.isComputed excluded tree := by
  obtain ⟨above, origin⟩ := chain_split Field.origin held node origins
  have resolved : held.isResolved Field.isComputed = true := by
    rw [Node.isResolved, stored_of_origins held.above node.above (above ▸ List.prefix_refl _) stored,
      computed_of_origin held.field node.field origin, computed]
    rfl
  have reads : dependenciesAt (pathOf "" held.above) held.field = dependenciesAt (pathOf "" node.above) node.field := by
    rw [pathOf, pathOf, (chain_split Field.name held node names).1, dependenciesAt, dependenciesAt, Field.dependencies,
      Field.dependencies, origin]
  exact List.mem_append.mpr (.inr (List.mem_flatMap.mpr
    ⟨held, List.mem_filter.mpr ⟨member, resolved⟩, reads ▸ declared⟩))

theorem root_of_prefix (held node : Node) (before : held.names <+: node.names) : held.root.name = node.root.name := by
  obtain ⟨more, whole⟩ := before
  obtain ⟨name, rest, first⟩ : ∃ name rest, held.names = name :: rest :=
    List.exists_cons_of_ne_nil (by simp [Node.names, Node.chain])
  rw [root_of_names held name rest first]
  exact (root_of_names node name (rest ++ more) (by rw [← whole, first]; rfl)).symm

theorem dependency_below (held node : Node) (inside : held.names <+: node.above.map Field.name)
    (named : held.field.name ≠ "") (path : String) (declared : path ∈ dependenciesAt (pathOf "" node.above) node.field) :
    below path (pathOf "" held.chain) = true := by
  obtain ⟨dependency, _, rfl⟩ := List.mem_map.mp declared
  obtain ⟨more, lower⟩ := inside
  have path : pathOf "" node.above = more.foldl under (pathOf "" held.chain) := by
    rw [pathOf, pathOf, ← lower, List.foldl_append, Node.names]
  rw [path]
  refine below_fold_under more _ dependency ?_
  rw [pathOf, Node.chain, List.map_append, List.foldl_append]
  exact under_ne_empty _ _ named

theorem dependency_demanded (names : schema.HasPlainNames) (tree : SelectionTree)
    (collected : SelectionTree.Extends (Requested schema request type key) .nil tree)
    (node : Node) (agree : Agree schema request type key node) (shown : Shown schema request type key excluded node)
    (asked : Requested schema request type key node) (stored : ∀ field ∈ node.above, field.isStored = true)
    (computed : node.field.isComputed = true) (path : String)
    (declared : path ∈ dependenciesAt (pathOf "" node.above) node.field) :
    ∃ other ∈ demanded Field.isComputed excluded tree, other = path ∨ Ancestor other path := by
  have traced : tree.Traced (Asked.of (Requested schema request type key)) :=
    collected.traced _ trivial (fun node mine => ⟨node.above, rfl, mine⟩)
  obtain ⟨held, member, follows, shape⟩ := node_of_answers tree node.names (collected.answers node asked) _ traced
  have agrees := agrees_of_agree schema request type key node agree
  have chain := requested_follows schema request type key node asked
  rcases shape with same | ⟨whole, before, other, leaf, leafName, leafAbove, leafNames, leafAsked⟩
  · have alike : held.chain.map Field.name = node.chain.map Field.name := same
    have origins : held.chain.map Field.origin = node.chain.map Field.origin :=
      (origins_agree held.chain node.chain _ (agrees _ (List.prefix_refl _)) follows chain (alike ▸ List.prefix_refl _)).eq_of_length
        (by simpa using congrArg List.length alike)
    exact ⟨path, alike_demanded excluded tree node held member same origins stored computed path declared, .inl rfl⟩
  · have named : node.names = node.above.map Field.name ++ [node.field.name] := by simp [Node.names, Node.chain]
    have inside : held.names <+: node.above.map Field.name :=
      (List.prefix_concat_iff.mp (named ▸ before)).resolve_left (fun same => other (same.trans named.symm))
    have origins := origins_agree held.chain node.above _ (agrees _ (named ▸ List.prefix_append _ _)) follows
      (follows_front node.above [node.field] _ chain) inside
    have leafPath : Node.names ⟨leafAbove, leaf, true⟩ = held.names := by
      simp only [Node.names, Node.chain, List.map_append, leafNames, List.map_cons, leafName]
    have kept : node.root.name ∉ excluded := shown _ leafAsked rfl (leafPath ▸ inside)
    have projected : held.isProjected Field.isComputed excluded = true := by
      rw [Node.isProjected, whole, stored_of_origins held.chain node.above origins stored, root_of_prefix held node before]
      simpa using kept
    obtain ⟨selections, _, occurs⟩ := leafAsked
    obtain ⟨composite, listed, declares⟩ := Selection.occurs_declared schema request type selections _ occurs
    have segment := (names composite listed leaf declares).1
    refine ⟨pathOf "" held.chain, ?_, .inr ((below_iff_ancestor _ _).mp
      (dependency_below held node inside (leafName ▸ segment.1) path declared))⟩
    exact List.mem_append.mpr (.inl (List.mem_map.mpr ⟨held, List.mem_filter.mpr ⟨member, projected⟩, rfl⟩))

-- For every request without cycles on a schema read from text. The two conditions on a node are those under which one tree
-- can stand for all selections of the places on the way to it.
theorem dependencies_projected (text : String) (read : Schema.ofText text = .ok schema) (acyclic : request.Acyclic)
    (projection : Members) (made : (document schema type request key excluded Field.isComputed).result = .ok projection) :
    ∀ node, Requested schema request type key node → Agree schema request type key node →
      Shown schema request type key excluded node → (∀ field ∈ node.above, field.isStored = true) →
      node.field.isComputed = true → ∀ path ∈ dependenciesAt (pathOf "" node.above) node.field,
        ∃ held ∈ projection.keys, held = path ∨ Ancestor held path := by
  obtain ⟨tree, collected, same⟩ := document_ok schema type request key excluded Field.isComputed projection made
  have keys : projection.keys = minimal (demanded Field.isComputed excluded tree) := by
    rw [same, paths_demanded, Members.keys, List.map_map]
    exact List.map_id' _
  intro node asked agree shown stored computed path declared
  obtain ⟨other, member, above⟩ := dependency_demanded schema request type key excluded (Schema.plain_of_text text schema read)
    tree (Selection.tree_extends schema request acyclic type key tree collected) node agree shown asked stored computed path
    declared
  have covers : covered (minimal (demanded Field.isComputed excluded tree)) path = true := by
    rw [covered_minimal]
    exact (covered_iff _ path).mpr ⟨other, member, above.imp_right (below_iff_ancestor path other).mpr⟩
  obtain ⟨held, stays, upper⟩ := (covered_iff _ path).mp covers
  exact ⟨held, keys ▸ stays, upper.imp_right (below_iff_ancestor path held).mp⟩

theorem agree_of_shared (shared : ∀ composite ∈ schema.composites, ∀ field ∈ composite.fields,
    ∀ beside ∈ schema.composites, ∀ other ∈ beside.fields, field.name = other.name → field.origin = other.origin)
    (node : Node) : Agree schema request type key node := by
  intro a b ⟨selections, _, occurs⟩ ⟨others, _, beside⟩ names _
  obtain ⟨composite, listed, declares⟩ := Selection.occurs_declared schema request type selections a occurs
  obtain ⟨second, member, holds⟩ := Selection.occurs_declared schema request type others b beside
  exact shared composite listed a.field declares second member b.field holds (chain_split Field.name a b names).2

def libraryText : String :=
  "interface Item \x7b label: String @mongoDependencies(paths: \"title\") \x7d type Book \x7b author: Author \x7d " ++
    "type Author \x7b name: String @mongoDependencies(paths: [\"first\", \"last\"]) \x7d"

def library : Schema where
  composites := [
    { name := "Item", kind := .interface, fields := [
      { name := "label", type := .scalar .string, origin := .computed (some ["title"]) }] },
    { name := "Book", kind := .object, fields := [{ name := "author", type := .named (.composite .object ⟨2⟩) }] },
    { name := "Author", kind := .object, fields := [
      { name := "name", type := .scalar .string, origin := .computed (some ["first", "last"]) }] }]

def spreading (name : String) : GraphQL.SelectionSet := .spread name [] .nil

def itemsRequest : GraphQL.Request where
  operations := (querying "items" (.field none "label" [] [] .nil (spreading "entry"))).operations
  fragments := [
    { name := "entry", condition := "Book", directives := [], selections := asking [("author", spreading "credits")] },
    { name := "credits", condition := "Author", directives := [], selections := asking [("name", .nil)] }]

theorem items_acyclic : itemsRequest.Acyclic := by
  refine itemsRequest.acyclic_of_rank (fun name => if name = "entry" then 1 else 0) (fun name inner spreads => ?_)
  obtain ⟨fragment, found, listed⟩ := spreads
  have named : fragment.name = name := by simpa using List.find?_some found
  have member := List.mem_of_find?_eq_some found
  simp only [itemsRequest, List.mem_cons, List.not_mem_nil, or_false] at member
  obtain rfl | rfl := member
  · cases named
    cases List.mem_singleton.mp listed
    decide
  · cases listed

def authorField : Field := { name := "author", type := .named (.composite .object ⟨2⟩) }

def nameField : Field := { name := "name", type := .scalar .string, origin := .computed (some ["first", "last"]) }

theorem author_requested : Requested library itemsRequest ⟨0⟩ "items" ⟨[authorField], nameField, true⟩ := by
  refine ⟨_, List.mem_singleton.mpr rfl, ?_⟩
  apply Selection.Occurs.afterField
  refine .spread _ "entry" [] _ ⟨"entry", "Book", [], asking [("author", spreading "credits")]⟩ _ rfl ?_
  refine .within _ ⟨2⟩ none "author" [] [] _ _ _ authorField ⟨[], nameField, true⟩ (by decide) rfl (by decide) rfl ?_
  refine .spread _ "credits" [] _ ⟨"credits", "Author", [], asking [("name", .nil)]⟩ _ rfl ?_
  exact .field _ none "name" [] [] .nil .nil _ nameField (by decide) rfl (by decide)

theorem items_dependencies :
    Schema.ofText libraryText = .ok library ∧ itemsRequest.Acyclic ∧
      (document library ⟨0⟩ itemsRequest "items" [] Field.isComputed).result =
        .ok (["title", "author.first", "author.last"].map (fun path => (path, Json.int 1))) ∧
      Requested library itemsRequest ⟨0⟩ "items" ⟨[authorField], nameField, true⟩ ∧
      ∀ path ∈ ["author.first", "author.last"],
        ∃ held ∈ ["title", "author.first", "author.last"], held = path ∨ Ancestor held path := by
  have read : Schema.ofText libraryText = .ok library := by decide +kernel
  have made : (document library ⟨0⟩ itemsRequest "items" [] Field.isComputed).result =
      .ok (["title", "author.first", "author.last"].map (fun path => (path, Json.int 1))) := rfl
  refine ⟨read, items_acyclic, made, author_requested, ?_⟩
  exact dependencies_projected library itemsRequest ⟨0⟩ "items" [] libraryText read items_acyclic _ made _
    author_requested (agree_of_shared library itemsRequest ⟨0⟩ "items" (by decide) _) (fun _ _ _ _ => List.not_mem_nil)
    (by decide) rfl

def groupText : String :=
  "interface Node \x7b label: String \x7d type User \x7b label: String \x7d " ++
    "type Group \x7b title: String, label: String @mongoDependencies(paths: [\"title\"]) \x7d"

def groupLabel : Field := { name := "label", type := .scalar .string, origin := .computed (some ["title"]) }

def groups : Schema where
  composites := [
    { name := "Node", kind := .interface, fields := [{ name := "label", type := .scalar .string }] },
    { name := "User", kind := .object, fields := [{ name := "label", type := .scalar .string }] },
    { name := "Group", kind := .object, fields := [{ name := "title", type := .scalar .string }, groupLabel] }]

def labelsRequest : GraphQL.Request :=
  querying "nodes" (.inline (some "User") [] (asking [("label", .nil)])
    (.inline (some "Group") [] (asking [("label", .nil)]) .nil))

def docText : String :=
  "type Doc \x7b child: Child \x7d type Child \x7b a: Int, sum: Int @mongoDependencies(paths: [\"a\"]) \x7d"

def childField : Field := { name := "child", type := .named (.composite .object ⟨1⟩) }

def sumField : Field := { name := "sum", type := .scalar .int, origin := .computed (some ["a"]) }

def docs : Schema where
  composites := [
    { name := "Doc", kind := .object, fields := [childField] },
    { name := "Child", kind := .object, fields := [{ name := "a", type := .scalar .int }, sumField] }]

def docsRequest : GraphQL.Request := querying "docs" (asking [("child", .nil), ("child", asking [("sum", .nil)])])

theorem unspread_acyclic (operations : List GraphQL.Operation) : GraphQL.Request.Acyclic ⟨operations, []⟩ :=
  GraphQL.Request.acyclic_of_rank _ (fun _ => 0) (fun _ _ ⟨_, found, _⟩ => nomatch found)

-- Without either condition a dependency is lost: where fields of one name differ, and where an excluded field is asked
-- for as a whole, too.
theorem dependencies_lost :
    (Schema.ofText groupText = .ok groups ∧ labelsRequest.Acyclic ∧
      (document groups ⟨0⟩ labelsRequest "nodes" [] Field.isComputed).result = .ok [("label", .int 1)] ∧
      Requested groups labelsRequest ⟨0⟩ "nodes" ⟨[], groupLabel, true⟩ ∧ groupLabel.isComputed = true ∧
      "title" ∈ dependenciesAt (pathOf "" []) groupLabel ∧
      ∀ held ∈ ["label"], ¬ (held = "title" ∨ Ancestor held "title")) ∧
    Schema.ofText docText = .ok docs ∧ docsRequest.Acyclic ∧
      (document docs ⟨0⟩ docsRequest "docs" ["child"] Field.isComputed).result = .ok [] ∧
      Requested docs docsRequest ⟨0⟩ "docs" ⟨[childField], sumField, true⟩ ∧
      (∀ field ∈ [childField], field.isStored = true) ∧ sumField.isComputed = true ∧
      "child.a" ∈ dependenciesAt (pathOf "" [childField]) sumField := by
  have label : Requested groups labelsRequest ⟨0⟩ "nodes" ⟨[], groupLabel, true⟩ := by
    refine ⟨_, List.mem_singleton.mpr rfl, ?_⟩
    apply Selection.Occurs.afterInline
    exact .inline _ _ [] _ _ _
      (.field ⟨2⟩ none "label" [] [] .nil .nil _ groupLabel (by decide) rfl (by decide))
  have sum : Requested docs docsRequest ⟨0⟩ "docs" ⟨[childField], sumField, true⟩ := by
    refine ⟨_, List.mem_singleton.mpr rfl, ?_⟩
    apply Selection.Occurs.afterField
    refine .within _ ⟨1⟩ none "child" [] [] _ _ _ childField ⟨[], sumField, true⟩ (by decide) rfl (by decide) rfl ?_
    exact .field _ none "sum" [] [] .nil .nil _ sumField (by decide) rfl (by decide)
  have apart : ∀ held ∈ ["label"], ¬ (held = "title" ∨ Ancestor held "title") := by
    simp only [List.mem_singleton, forall_eq, ← below_iff_ancestor]
    decide
  exact ⟨⟨by decide +kernel, unspread_acyclic _, rfl, label, rfl, by decide, apart⟩, by decide +kernel,
    unspread_acyclic _, rfl, sum, by decide, rfl, by decide⟩

end Projection

end DocGraph
