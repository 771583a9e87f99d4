import DocGraph.DotPath
import Mathlib.Data.List.Induction

set_option autoImplicit false

namespace DocGraph.DotPath

def segments (path : String) : List String := (path.toList.splitOn '.').map String.ofList

def IsSegment (key : String) : Prop := key ≠ "" ∧ '.' ∉ key.toList

instance (key : String) : Decidable (IsSegment key) := inferInstanceAs (Decidable (_ ∧ _))

def Spells (path : String) : List String → Prop
  | [] => path = ""
  | key :: rest => path ≠ "" ∧ segments path = key :: rest

theorem segments_segment (key : String) (segment : IsSegment key) : segments key = [key] := by
  rw [segments, List.splitOn_eq_singleton segment.2]
  simp

theorem segments_ne_nil (path : String) : segments path ≠ [] := by
  simp [segments, List.splitOn_ne_nil]

theorem under_empty (key : String) : under "" key = key := if_pos rfl

theorem under_ne_empty (path key : String) (nonempty : key ≠ "") : under path key ≠ "" := by
  by_cases empty : path = ""
  · simpa [under, empty] using nonempty
  · simp [under, empty]

theorem under_keeps (path key : String) (nonempty : path ≠ "") : under path key ≠ "" := by
  rw [under, if_neg nonempty]
  simp

theorem segments_under (path key : String) (nonempty : path ≠ "") :
    segments (under path key) = segments path ++ segments key := by
  have joined : (path ++ "." ++ key).toList = path.toList ++ '.' :: key.toList := by simp
  rw [under, if_neg nonempty]
  simp only [segments, joined, List.splitOn_append_cons_self, List.map_append]

theorem segments_fold (keys : List String) : ∀ path, path ≠ "" → segments path <+: segments (keys.foldl under path) := by
  induction keys with
  | nil => exact fun path _ => List.prefix_refl _
  | cons key rest ih =>
      intro path nonempty
      have first : segments path <+: segments (under path key) := segments_under path key nonempty ▸ List.prefix_append _ _
      exact first.trans (ih (under path key) (under_keeps path key nonempty))

theorem segments_under_segment (key path : String) (segment : IsSegment key) :
    segments (under key path) = key :: segments path := by
  rw [segments_under key path segment.1, segments_segment key segment]
  rfl

theorem spells_under (path key : String) (keys : List String) (spells : Spells path keys)
    (segment : IsSegment key) : Spells (under path key) (keys ++ [key]) := by
  have nonempty := under_ne_empty path key segment.1
  cases keys with
  | nil =>
      have empty : path = "" := spells
      subst path
      exact ⟨nonempty, by rw [under_empty, segments_segment key segment]⟩
  | cons first rest =>
      have cut : segments (under path key) = first :: rest ++ [key] := by
        rw [segments_under path key spells.1, spells.2, segments_segment key segment]
      exact ⟨nonempty, cut⟩

theorem spells_unique (path : String) (a b : List String) (left : Spells path a) (right : Spells path b) :
    a = b := by
  cases a with
  | nil =>
      cases b with
      | nil => rfl
      | cons key rest => exact absurd left right.1
  | cons key rest =>
      cases b with
      | nil => exact absurd right left.1
      | cons other others => exact left.2.symm.trans right.2

theorem segments_spelled (path : String) (keys : List String) (spells : Spells path keys)
    (nonempty : keys ≠ []) : segments path = keys := by
  cases keys with
  | nil => exact absurd rfl nonempty
  | cons key rest => exact spells.2

def ofKeys (keys : List String) : String := keys.foldl under ""

theorem of_keys_snoc (keys : List String) (key : String) : ofKeys (keys ++ [key]) = under (ofKeys keys) key := by
  rw [ofKeys, List.foldl_append]
  rfl

theorem spells_of_keys (keys : List String) (segments : ∀ key ∈ keys, IsSegment key) : Spells (ofKeys keys) keys := by
  induction keys using List.reverseRecOn with
  | nil => rfl
  | append_singleton front key ih =>
      rw [of_keys_snoc]
      exact spells_under _ key front (ih (fun other member => segments other (List.mem_append_left [key] member)))
        (segments key (List.mem_append_right front (List.mem_singleton.mpr rfl)))

theorem head_of_segments (path key : String) (rest : List String) (cut : segments path = key :: rest)
    (nonempty : key ≠ "") : path.toList.head? = key.toList.head? := by
  unfold segments at cut
  cases text : path.toList with
  | nil =>
      rw [text] at cut
      simp only [List.splitOn_nil, List.map_cons, List.cons.injEq] at cut
      exact absurd cut.1.symm nonempty
  | cons c remaining =>
      rw [text, List.splitOn_cons_eq_if_modifyHead] at cut
      split at cut
      · simp only [List.map_cons, List.cons.injEq] at cut
        exact absurd cut.1.symm nonempty
      · cases pieces : remaining.splitOn '.' with
        | nil => exact absurd pieces (List.splitOn_ne_nil _ _)
        | cons piece others =>
            simp only [pieces, List.modifyHead_cons, List.map_cons, List.cons.injEq] at cut
            simp [← cut.1]

def Apart (a b : String) : Prop := a ≠ b ∧ below a b = false ∧ below b a = false

def Along (a b : List String) : Prop := a <+: b ∨ b <+: a

theorem along_cons (first second : String) (a b : List String) :
    Along (first :: a) (second :: b) ↔ first = second ∧ Along a b := by
  unfold Along
  rw [List.cons_prefix_cons, List.cons_prefix_cons]
  constructor
  · rintro (⟨same, along⟩ | ⟨same, along⟩)
    · exact ⟨same, .inl along⟩
    · exact ⟨same.symm, .inr along⟩
  · rintro ⟨same, along | along⟩
    · exact .inl ⟨same, along⟩
    · exact .inr ⟨same.symm, along⟩

theorem segments_below (path ancestor : String) (inside : below path ancestor = true) :
    segments ancestor <+: segments path := by
  obtain ⟨rest, text⟩ := (below_iff path ancestor).mp inside
  refine ⟨(rest.splitOn '.').map String.ofList, ?_⟩
  rw [segments, segments, text, List.splitOn_append_cons_self, List.map_append]

theorem below_trans (path middle ancestor : String) (lower : below path middle = true)
    (upper : below middle ancestor = true) : below path ancestor = true := by
  obtain ⟨inner, text⟩ := (below_iff path middle).mp lower
  obtain ⟨outer, held⟩ := (below_iff middle ancestor).mp upper
  exact (below_iff path ancestor).mpr ⟨outer ++ '.' :: inner, by rw [text, held]; simp⟩

theorem length_lt_of_below (path ancestor : String) (inside : below path ancestor = true) :
    ancestor.toList.length < path.toList.length := by
  obtain ⟨rest, text⟩ := (below_iff path ancestor).mp inside
  rw [text, List.length_append, List.length_cons]
  omega

def Ancestor (ancestor path : String) : Prop := segments ancestor <+: segments path ∧ ancestor ≠ path

instance (ancestor path : String) : Decidable (Ancestor ancestor path) := inferInstanceAs (Decidable (_ ∧ _))

theorem text_of_segments (path : String) : ['.'].intercalate ((segments path).map String.toList) = path.toList := by
  simp [segments, Function.comp_def, List.intercalate_splitOn]

theorem joined_append (front back : List (List Char)) (some : front ≠ []) (more : back ≠ []) :
    ['.'].intercalate (front ++ back) = ['.'].intercalate front ++ '.' :: ['.'].intercalate back := by
  induction front with
  | nil => exact absurd rfl some
  | cons first rest ih =>
      cases rest with
      | nil =>
          cases back with
          | nil => exact absurd rfl more
          | cons next others => simp
      | cons second others =>
          rw [List.cons_append, List.cons_append, List.intercalate_cons_cons, ← List.cons_append,
            ih (List.cons_ne_nil _ _), List.intercalate_cons_cons]
          simp

theorem segments_injective (a b : String) (same : segments a = segments b) : a = b := by
  have text := text_of_segments a
  rw [same, text_of_segments] at text
  exact String.toList_injective text.symm

theorem below_iff_ancestor (path ancestor : String) : below path ancestor = true ↔ Ancestor ancestor path := by
  constructor
  · intro inside
    refine ⟨segments_below path ancestor inside, ?_⟩
    rintro rfl
    exact Nat.lt_irrefl _ (length_lt_of_below ancestor ancestor inside)
  · rintro ⟨⟨rest, cut⟩, different⟩
    cases rest with
    | nil =>
        rw [List.append_nil] at cut
        exact absurd (segments_injective ancestor path cut) different
    | cons first others =>
        refine (below_iff path ancestor).mpr ⟨['.'].intercalate ((first :: others).map String.toList), ?_⟩
        rw [← text_of_segments path, ← cut, List.map_append, ← text_of_segments ancestor]
        exact joined_append _ _ (by simpa using segments_ne_nil ancestor) (by simp)

def Meets (path other : String) : Prop := path = other ∨ Ancestor path other ∨ Ancestor other path

instance (path other : String) : Decidable (Meets path other) := inferInstanceAs (Decidable (_ ∨ _))

theorem meets_iff (path other : String) : Meets path other ↔ Along (segments path) (segments other) := by
  constructor
  · rintro (rfl | above | below)
    · exact .inl (List.prefix_refl _)
    · exact .inl above.1
    · exact .inr below.1
  · intro along
    by_cases same : path = other
    · exact .inl same
    · exact .inr (along.imp (fun above => ⟨above, same⟩) (fun below => ⟨below, Ne.symm same⟩))

theorem apart_of_segments (a b : String) (separate : ¬ Along (segments a) (segments b)) : Apart a b := by
  refine ⟨?_, ?_, ?_⟩
  · intro same
    exact separate (.inl (same ▸ List.prefix_refl _))
  · exact Bool.eq_false_iff.mpr (fun inside => separate (.inr (segments_below a b inside)))
  · exact Bool.eq_false_iff.mpr (fun inside => separate (.inl (segments_below b a inside)))

theorem below_iff_proper (path ancestor : String) : below path ancestor = true ↔
    segments ancestor <+: segments path ∧ segments ancestor ≠ segments path := by
  rw [below_iff_ancestor, Ancestor, Ne, Ne, not_iff_not.mpr ⟨congrArg segments, segments_injective ancestor path⟩]

theorem below_well_founded : WellFounded (fun ancestor path => below path ancestor = true) :=
  Subrelation.wf (fun {ancestor path} inside => length_lt_of_below path ancestor inside)
    (InvImage.wf (fun path : String => path.toList.length) Nat.lt_wfRel.wf)

theorem under_below (path key : String) (nonempty : path ≠ "") : below (under path key) path = true := by
  refine (below_iff (under path key) path).mpr ⟨key.toList, ?_⟩
  rw [under, if_neg nonempty]
  simp

theorem below_orders_segments :
    (∀ path ancestor, below path ancestor = true ↔
      segments ancestor <+: segments path ∧ segments ancestor ≠ segments path) ∧
    (∀ path, below path path = false) ∧
    (∀ path middle ancestor, below path middle = true → below middle ancestor = true → below path ancestor = true) ∧
    WellFounded (fun ancestor path => below path ancestor = true) ∧
    ∀ path key, path ≠ "" →
      segments (under path key) = segments path ++ segments key ∧ below (under path key) path = true := by
  refine ⟨below_iff_proper, ?_, fun _ _ _ => below_trans _ _ _, below_well_founded, ?_⟩
  · intro path
    exact Bool.eq_false_iff.mpr (fun inside => ((below_iff_proper path path).mp inside).2 rfl)
  · exact fun path key nonempty => ⟨segments_under path key nonempty, under_below path key nonempty⟩

theorem below_orders_empty_segments : below "a..b" "a." = true ∧ below "a.b" "" = false ∧ below ".b" "" = true ∧
    below "ab.c" "a" = false ∧ below "a..b" "a" = true ∧ segments (under "a." "b") = ["a", "", "b"] := by
  obtain ⟨proper, _, through, _, joined⟩ := below_orders_segments
  have inner : below "a..b" "a." = true := (proper _ _).mpr (by decide +kernel)
  have outer : below "a." "a" = true := (proper _ _).mpr (by decide +kernel)
  refine ⟨inner, ?_, (proper _ _).mpr (by decide +kernel), ?_, through _ _ _ inner outer, ?_⟩
  · exact Bool.eq_false_iff.mpr (mt (proper _ _).mp (by decide +kernel))
  · exact Bool.eq_false_iff.mpr (mt (proper _ _).mp (by decide +kernel))
  · rw [(joined "a." "b" (by decide)).1]
    decide +kernel

end DocGraph.DotPath
