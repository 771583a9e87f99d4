import DocGraph.Proofs.DotPath
import DocGraph.Proofs.Selection.Merging

set_option autoImplicit false

namespace DocGraph

namespace SelectionTree

def own (field : Field) : Option SelectionTree → List Node
  | none => [⟨[], field, true⟩]
  | some selection => ⟨[], field, selection.isEmpty⟩ :: selection.nodes.map (Node.within field)

theorem nodes_cons (field : Field) (selection : Option SelectionTree) (rest : SelectionTree) :
    (cons field selection rest).nodes = own field selection ++ rest.nodes := by
  cases selection <;> rfl

theorem traced_cons (asked : Asked) (field : Field) (selection : Option SelectionTree) (rest : SelectionTree)
    (traced : (cons field selection rest).Traced asked) : (∃ whole, asked [] field whole) ∧
      (∀ inner, selection = some inner → inner.Traced (asked.under field.name)) ∧ rest.Traced asked := by
  cases selection with
  | none => exact ⟨traced.1, fun _ none => (nomatch none), traced.2.2⟩
  | some inner => exact ⟨traced.1, fun _ same => Option.some.inj same ▸ traced.2.1, traced.2.2⟩

section

variable (tree : SelectionTree)

theorem mem_nodes (distinct : tree.names.Nodup) (node : Node) : node ∈ tree.nodes ↔
    ∃ name field selection, tree.find? name = some (field, selection) ∧ node ∈ own field selection := by
  induction tree using cons_induction with
  | nil => exact ⟨fun member => (nomatch member), fun ⟨_, _, _, found, _⟩ => (nomatch found)⟩
  | cons held inner rest _ ih =>
      rw [names_cons] at distinct
      obtain ⟨fresh, distinct⟩ := List.nodup_cons.mp distinct
      rw [nodes_cons, List.mem_append, ih distinct]
      constructor
      · rintro (here | ⟨name, field, selection, found, member⟩)
        · exact ⟨held.name, held, inner, by rw [find_cons, if_pos rfl], here⟩
        · have other : held.name ≠ name := by
            rintro rfl
            cases ((find_none _ rest).mpr fresh).symm.trans found
          exact ⟨name, field, selection, by rw [find_cons, if_neg other, found], member⟩
      · rintro ⟨name, field, selection, found, member⟩
        rw [find_cons] at found
        by_cases same : held.name = name
        · rw [if_pos same] at found
          cases found
          exact .inl member
        · rw [if_neg same] at found
          exact .inr ⟨name, field, selection, found, member⟩

theorem traced_find (asked : Asked) (traced : tree.Traced asked) (name : String) (field : Field)
    (selection : Option SelectionTree) (found : tree.find? name = some (field, selection)) :
    (∃ whole, asked [] field whole) ∧ ∀ inner, selection = some inner → inner.Traced (asked.under name) := by
  induction tree using cons_induction with
  | nil => cases found
  | cons held inner rest _ ih =>
      obtain ⟨mine, inside, later⟩ := traced_cons asked held inner rest traced
      rw [find_cons] at found
      by_cases same : held.name = name
      · rw [if_pos same] at found
        cases found
        exact ⟨mine, same ▸ inside⟩
      · rw [if_neg same] at found
        exact ih later found

theorem empty_iff : tree.isEmpty = true ↔ ∀ name, ¬ tree.IsNode [name] := by
  induction tree using cons_induction with
  | nil => exact iff_of_true rfl (fun _ => by simp [IsNode, IsLeaf, IsInner, find?])
  | cons field selection rest _ _ =>
      refine iff_of_false (by cases selection <;> exact Bool.false_ne_true) (fun none => none field.name ?_)
      cases selection <;> simp [IsNode, IsLeaf, IsInner, find_cons]

variable (other : SelectionTree) (similar : Similar tree other)

include similar

theorem similar_empty : tree.isEmpty = other.isEmpty := by
  refine Bool.eq_iff_iff.mpr ((empty_iff tree).trans (Iff.trans ?_ (empty_iff other).symm))
  exact forall_congr' (fun name => not_congr (similar_nodes tree other similar [name]).1)

theorem similar_find (name : String) (field : Field) (selection : Option SelectionTree)
    (found : tree.find? name = some (field, selection)) : ∃ second kept, other.find? name = some (second, kept) ∧
      ((selection = none ∧ kept = none) ∨ ∃ inner held, selection = some inner ∧ kept = some held ∧ Similar inner held) := by
  have below := fun rest => similar (name :: rest)
  simp only [IsLeaf, IsInner, found] at below
  cases selection with
  | none =>
      rcases defined : other.find? name with _ | ⟨second, _ | held⟩
      · simpa [defined] using (below []).1
      · exact ⟨second, none, rfl, .inl ⟨rfl, rfl⟩⟩
      · simpa [defined] using (below []).2
  | some inner =>
      rcases defined : other.find? name with _ | ⟨second, _ | held⟩
      · simpa [defined] using (below []).2
      · simpa [defined] using (below []).2
      · refine ⟨second, some held, rfl, .inr ⟨inner, held, rfl, rfl, fun rest => ?_⟩⟩
        have both := below rest
        rw [defined] at both
        refine ⟨both.1, ?_⟩
        cases rest with
        | nil => exact Iff.rfl
        | cons => simpa using both.2

end

def Determined (asked : Asked) : Prop :=
  ∀ names field other whole partly, field.name = other.name → asked names field whole → asked names other partly →
    field = other

theorem nodes_subset (tree : SelectionTree) : ∀ (other : SelectionTree) (asked : Asked), Determined asked → tree.Distinct →
    other.Distinct → tree.Traced asked → other.Traced asked → Similar tree other → tree.nodes ⊆ other.nodes := by
  induction tree using selection_induction with
  | step tree ih =>
      intro other asked determined here there traced follows similar node member
      obtain ⟨order, inside⟩ := (distinct_iff tree).mp here
      obtain ⟨theirs, within⟩ := (distinct_iff other).mp there
      obtain ⟨name, field, selection, found, mine⟩ := (mem_nodes tree order node).mp member
      obtain ⟨second, kept, defined, alike⟩ := similar_find tree other similar name field selection found
      obtain ⟨⟨whole, asks⟩, deeper⟩ := traced_find tree asked traced name field selection found
      obtain ⟨⟨partly, again⟩, behind⟩ := traced_find other asked follows name second kept defined
      have named : field.name = second.name := (find_named name tree _ found).trans (find_named name other _ defined).symm
      cases determined [] field second whole partly named asks again
      refine (mem_nodes other theirs node).mpr ⟨name, field, kept, defined, ?_⟩
      rcases alike with ⟨rfl, rfl⟩ | ⟨inner, held, rfl, rfl, similar⟩
      · exact mine
      · rcases List.mem_cons.mp mine with rfl | below
        · rw [similar_empty inner held similar]
          exact List.mem_cons_self ..
        · refine List.mem_cons_of_mem _ (List.map_subset _ ?_ below)
          exact ih name field inner found held (asked.under name) (fun names => determined (name :: names))
            (inside name field inner found) (within name field held defined) (deeper inner rfl) (behind held rfl) similar

theorem chain_traced (holds : Field → Prop) (tree : SelectionTree) : tree.Traced (fun _ field _ => holds field) →
    ∀ node ∈ tree.nodes, ∀ field ∈ node.chain, holds field := by
  induction tree with
  | nil => exact fun _ _ none => (nomatch none)
  | leaf field rest ih =>
      rintro ⟨⟨_, mine⟩, _, later⟩ node member
      rcases List.mem_cons.mp member with rfl | member
      · exact List.forall_mem_singleton.mpr mine
      · exact ih later node member
  | object field selection rest inner ih =>
      rintro ⟨⟨_, mine⟩, inside, later⟩ node member
      rcases List.mem_cons.mp member with rfl | member
      · exact List.forall_mem_singleton.mpr mine
      · rcases List.mem_append.mp member with below | beside
        · obtain ⟨deeper, listed, rfl⟩ := List.mem_map.mp below
          exact List.forall_mem_cons.mpr ⟨mine, inner inside deeper listed⟩
        · exact ih later node beside

theorem own_names (field : Field) (selection : Option SelectionTree) (node : Node) (member : node ∈ own field selection) :
    ∃ rest, node.names = field.name :: rest := by
  cases selection with
  | none =>
      cases List.mem_singleton.mp member
      exact ⟨[], rfl⟩
  | some inner =>
      rcases List.mem_cons.mp member with rfl | below
      · exact ⟨[], rfl⟩
      · obtain ⟨deeper, _, rfl⟩ := List.mem_map.mp below
        exact ⟨deeper.names, rfl⟩

theorem nodes_along (tree : SelectionTree) : tree.Distinct → ∀ node ∈ tree.nodes, ∀ inner ∈ tree.nodes, inner.whole = true →
    DotPath.Along node.names inner.names → node.chain <+: inner.chain := by
  induction tree using selection_induction with
  | step tree ih =>
      intro distinct node member inner listed whole along
      obtain ⟨order, inside⟩ := (distinct_iff tree).mp distinct
      obtain ⟨name, field, selection, found, mine⟩ := (mem_nodes tree order node).mp member
      obtain ⟨second, other, kept, defined, theirs⟩ := (mem_nodes tree order inner).mp listed
      obtain ⟨rest, here⟩ := own_names field selection node mine
      obtain ⟨more, there⟩ := own_names other kept inner theirs
      have same : field.name = other.name := ((DotPath.along_cons _ _ _ _).mp (here ▸ there ▸ along)).1
      rw [find_named name tree _ found, find_named second tree _ defined] at same
      subst same
      cases found.symm.trans defined
      cases selection with
      | none =>
          cases List.mem_singleton.mp mine
          cases List.mem_singleton.mp theirs
          exact List.prefix_refl _
      | some selection =>
          rcases List.mem_cons.mp mine with rfl | below
          · rcases List.mem_cons.mp theirs with rfl | deeper
            · exact List.prefix_refl _
            · obtain ⟨held, _, rfl⟩ := List.mem_map.mp deeper
              exact List.cons_prefix_cons.mpr ⟨rfl, List.nil_prefix⟩
          · obtain ⟨held, beneath, rfl⟩ := List.mem_map.mp below
            rcases List.mem_cons.mp theirs with rfl | deeper
            · cases selection with
              | nil => cases beneath
              | _ => cases whole
            · obtain ⟨last, behind, rfl⟩ := List.mem_map.mp deeper
              have along := ((DotPath.along_cons _ _ _ _).mp along).2
              exact List.cons_prefix_cons.mpr
                ⟨rfl, ih name field selection found (inside name field selection found) held beneath last behind whole along⟩

end SelectionTree

end DocGraph
