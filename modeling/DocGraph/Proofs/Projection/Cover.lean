import DocGraph.Projection
import DocGraph.Proofs.DotPath

set_option autoImplicit false

namespace DocGraph

section

variable {α : Type} [DecidableEq α]

theorem firsts_append (front back : List α) :
    firsts (front ++ back) = firsts front ++ (firsts back).filter (fun item => !front.contains item) := by
  induction front with
  | nil => exact (List.filter_eq_self.mpr (fun _ _ => rfl)).symm
  | cons head rest ih =>
      rw [List.cons_append, firsts, ih, firsts, List.cons_append, List.filter_append, List.filter_filter]
      congr 2
      refine List.filter_congr (fun item _ => ?_)
      rw [List.contains_cons, Bool.not_or]

theorem firsts_filter (keep : α → Bool) (items : List α) : firsts (items.filter keep) = (firsts items).filter keep := by
  induction items with
  | nil => rfl
  | cons head rest ih =>
      by_cases kept : keep head = true
      · rw [List.filter_cons_of_pos kept, firsts, firsts, ih, List.filter_cons_of_pos kept, List.filter_filter,
          List.filter_filter]
        simp only [Bool.and_comm]
      · rw [List.filter_cons_of_neg kept, firsts, ih, List.filter_cons_of_neg kept, List.filter_filter]
        refine List.filter_congr (fun item _ => ?_)
        by_cases same : item = head
        · simp [same, kept]
        · simp [same]

theorem firsts_of_nodup (items : List α) (distinct : items.Nodup) : firsts items = items := by
  induction items with
  | nil => rfl
  | cons head rest ih =>
      have parts := List.nodup_cons.mp distinct
      rw [firsts, ih parts.2, List.filter_eq_self.mpr]
      intro item member
      have other : item ≠ head := fun same => parts.1 (same ▸ member)
      simp [other]

end

namespace Projection

open DotPath

def minimal (paths : List String) : List String :=
  (firsts paths).filter (fun path => !paths.any (below path))

def covered (paths : List String) (path : String) : Bool := paths.any (fun held => held == path || below path held)

theorem mem_minimal (path : String) (paths : List String) :
    path ∈ minimal paths ↔ path ∈ paths ∧ ∀ other ∈ paths, below path other = false := by
  simp [minimal, mem_firsts]

theorem covered_iff (paths : List String) (path : String) :
    covered paths path = true ↔ ∃ held ∈ paths, held = path ∨ below path held = true := by
  simp [covered]

theorem covered_eq (paths : List String) (path : String) :
    covered paths path = (paths.contains path || paths.any (below path)) := by
  refine Bool.eq_iff_iff.mpr ((covered_iff paths path).trans ?_)
  simp [and_or_left, exists_or]

-- Climbing from a path to one above it ends at a minimal one, since texts get shorter.
theorem covered_of_mem (paths : List String) (path : String) (member : path ∈ paths) :
    covered (minimal paths) path = true := by
  induction size : path.toList.length using Nat.strongRecOn generalizing path with
  | ind length ih =>
      by_cases inner : ∃ other ∈ paths, below path other = true
      · obtain ⟨other, listed, inside⟩ := inner
        obtain ⟨held, stays, same | above⟩ := (covered_iff _ other).mp
          (ih _ (size ▸ length_lt_of_below path other inside) other listed rfl)
        · exact (covered_iff _ path).mpr ⟨held, stays, .inr (same ▸ inside)⟩
        · exact (covered_iff _ path).mpr ⟨held, stays, .inr (below_trans path other held inside above)⟩
      · have top : ∀ other ∈ paths, below path other = false :=
          fun other listed => Bool.eq_false_iff.mpr (fun inside => inner ⟨other, listed, inside⟩)
        exact (covered_iff _ path).mpr ⟨path, (mem_minimal path paths).mpr ⟨member, top⟩, .inl rfl⟩

theorem covered_minimal (paths : List String) (path : String) : covered (minimal paths) path = covered paths path := by
  refine Bool.eq_iff_iff.mpr ⟨?_, ?_⟩
  · intro above
    obtain ⟨held, stays, upper⟩ := (covered_iff _ path).mp above
    exact (covered_iff _ path).mpr ⟨held, ((mem_minimal held paths).mp stays).1, upper⟩
  · intro above
    obtain ⟨held, listed, same | inside⟩ := (covered_iff _ path).mp above
    · exact same ▸ covered_of_mem paths held listed
    · obtain ⟨top, stays, same | higher⟩ := (covered_iff _ held).mp (covered_of_mem paths held listed)
      · exact (covered_iff _ path).mpr ⟨top, stays, .inr (same ▸ inside)⟩
      · exact (covered_iff _ path).mpr ⟨top, stays, .inr (below_trans path held top inside higher)⟩

theorem minimal_append (front back : List String) : minimal (front ++ back) =
    (minimal front).filter (fun path => !back.any (below path)) ++
      (minimal back).filter (fun path => !covered front path) := by
  simp only [minimal, firsts_append, List.filter_append, List.filter_filter]
  congr 1
  · refine List.filter_congr (fun path _ => ?_)
    rw [List.any_append, Bool.not_or, Bool.and_comm]
  · refine List.filter_congr (fun path _ => ?_)
    rw [List.any_append, Bool.not_or, covered_eq, Bool.not_or]
    ac_rfl

theorem minimal_append_congr (front other back : List String) (same : minimal front = minimal other) :
    minimal (front ++ back) = minimal (other ++ back) := by
  have alike (path : String) : covered front path = covered other path := by
    rw [← covered_minimal front, same, covered_minimal]
  simp only [minimal_append, same, alike]

theorem minimal_single (path : String) : minimal [path] = [path] := by
  have itself : below path path = false :=
    Bool.eq_false_iff.mpr (fun inside => Nat.lt_irrefl _ (length_lt_of_below path path inside))
  simp [minimal, firsts, itself]

theorem minimal_uncovered (held : List String) (path : String) :
    minimal (held.filter (fun other => !below other path)) = (minimal held).filter (fun other => !below other path) := by
  rw [minimal, firsts_filter, List.filter_filter, minimal, List.filter_filter]
  refine List.filter_congr (fun inner _ => ?_)
  cases inside : below inner path with
  | true => simp
  | false =>
      have stays (other : String) (above : below inner other = true) : below other path = false :=
        Bool.eq_false_iff.mpr (fun gone => Bool.eq_false_iff.mp inside (below_trans inner other path above gone))
      have kept : (held.filter (fun other => !below other path)).any (below inner) = held.any (below inner) := by
        rw [List.any_filter]
        refine congrArg held.any (funext (fun other => ?_))
        cases above : below inner other with
        | false => simp
        | true => simp [stays other above]
      rw [kept, Bool.and_comm]

theorem minimal_cover (held : List String) (path : String) : minimal (cover held path) = minimal (held ++ [path]) := by
  rw [minimal_append, minimal_single]
  cases above : covered held path with
  | true =>
      have none : (minimal held).filter (fun other => !([path].any (below other))) = minimal held := by
        refine List.filter_eq_self.mpr (fun other stays => ?_)
        obtain ⟨_, top⟩ := (mem_minimal other held).mp stays
        obtain ⟨upper, listed, same | inside⟩ := (covered_iff held path).mp above
        · simp [← same, top upper listed]
        · cases lower : below other path with
          | false => simp [lower]
          | true => cases (top upper listed).symm.trans (below_trans other path upper lower inside)
      have same : cover held path = held := if_pos above
      rw [none, same]
      simp [above]
  | false =>
      have fresh : covered (held.filter (fun other => !below other path)) path = false := by
        refine Bool.eq_false_iff.mpr (fun again => ?_)
        obtain ⟨upper, stays, inside⟩ := (covered_iff _ path).mp again
        exact Bool.eq_false_iff.mp above ((covered_iff held path).mpr ⟨upper, (List.mem_filter.mp stays).1, inside⟩)
      have added : cover held path = held.filter (fun other => !below other path) ++ [path] :=
        if_neg (Bool.eq_false_iff.mp above)
      rw [added, minimal_append, minimal_single, minimal_uncovered, List.filter_filter]
      simp [above, fresh]

theorem minimal_fold (paths held : List String) : minimal (paths.foldl cover held) = minimal (held ++ paths) := by
  induction paths generalizing held with
  | nil => rw [List.foldl_nil, List.append_nil]
  | cons path rest ih =>
      calc minimal ((path :: rest).foldl cover held)
          = minimal (cover held path ++ rest) := ih (cover held path)
        _ = minimal ((held ++ [path]) ++ rest) := minimal_append_congr _ _ rest (minimal_cover held path)
        _ = minimal (held ++ path :: rest) := by rw [List.append_assoc, List.singleton_append]

theorem cover_nodup (held : List String) (path : String) (distinct : held.Nodup) : (cover held path).Nodup := by
  unfold cover
  split
  · exact distinct
  · rename_i fresh
    refine List.nodup_append.mpr ⟨distinct.filter _, by simp, ?_⟩
    intro other stays same single equal
    cases List.mem_singleton.mp single
    exact fresh (List.any_eq_true.mpr ⟨other, (List.mem_filter.mp stays).1, by simp [equal]⟩)

theorem fold_cover_nodup (paths held : List String) (distinct : held.Nodup) : (paths.foldl cover held).Nodup := by
  induction paths generalizing held with
  | nil => exact distinct
  | cons path rest ih => exact ih (cover held path) (cover_nodup held path distinct)

theorem outermost_minimal (paths : List String) (distinct : paths.Nodup) : outermost paths = minimal paths := by
  rw [minimal, firsts_of_nodup paths distinct, outermost]

theorem minimal_firsts (front back : List String) : minimal (firsts front ++ firsts back) = minimal (front ++ back) := by
  have once : firsts (firsts front ++ firsts back) = firsts (front ++ back) := by
    rw [firsts_append, firsts_append, firsts_of_nodup _ (nodup_firsts front), firsts_of_nodup _ (nodup_firsts back)]
    refine congrArg _ (List.filter_congr (fun path _ => ?_))
    simp [mem_firsts]
  have above (path : String) : (firsts front ++ firsts back).any (below path) = (front ++ back).any (below path) := by
    refine Bool.eq_iff_iff.mpr ?_
    simp [mem_firsts]
  simp only [minimal, once, above]

theorem paths_minimal (computed : FieldTest) (excluded : List String) (tree : SelectionTree) :
    paths computed excluded tree = minimal (storedPaths computed excluded "" tree ++ computedPaths computed "" tree) := by
  rw [paths, outermost_minimal _ (fold_cover_nodup _ _ (nodup_firsts _)), minimal_fold, minimal_firsts]

end Projection

end DocGraph
