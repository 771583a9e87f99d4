import DocGraph.Proofs.Schema.Names
import DocGraph.Proofs.Update.Cascade
import DocGraph.Proofs.Update.Writes

set_option autoImplicit false

namespace DocGraph.Update

structure Layout where
  Owner : Type
  Field : Type
  field? : Owner → String → Option Field
  /-- The owner of the fields of an object that stands for the field. A leaf has none. -/
  inside? : Field → Option Owner

def Layout.HasPlainNames (layout : Layout) : Prop :=
  ∀ owner key field, layout.field? owner key = some field → IsPlainName key

-- The value that an object holds for the field that keys lead to, through no lists. The key `own` stands for no field.
inductive PlacedAt (layout : Layout) (own : Option String) :
    layout.Owner → Members → List String → layout.Field → Json → Prop where
  | here (owner : layout.Owner) (object : Members) (key : String) (field : layout.Field) (value : Json)
      (declared : layout.field? owner key = some field) (other : own ≠ some key)
      (given : Members.get? key object = some value) : PlacedAt layout own owner object [key] field value
  | deeper (owner nested : layout.Owner) (object inner : Members) (key : String) (through field : layout.Field)
      (rest : List String) (value : Json) (declared : layout.field? owner key = some through)
      (leads : layout.inside? through = some nested) (other : own ≠ some key)
      (given : Members.get? key object = some (.obj inner))
      (later : PlacedAt layout own nested inner rest field value) :
      PlacedAt layout own owner object (key :: rest) field value

inductive Fits (layout : Layout) (own : Option String) : layout.Owner → Members → Prop where
  | intro (owner : layout.Owner) (object : Members) (distinct : (Members.keys object).Nodup)
      (declared : ∀ key ∈ Members.keys object, own ≠ some key → (layout.field? owner key).isSome = true)
      (inner : ∀ key child field nested, (key, Json.obj child) ∈ object → own ≠ some key →
        layout.field? owner key = some field → layout.inside? field = some nested → Fits layout own nested child) :
      Fits layout own owner object

section

variable {layout : Layout} {own : Option String}

theorem placed_nonempty (owner : layout.Owner) (object : Members) (path : List String) (field : layout.Field) (value : Json)
    (placed : PlacedAt layout own owner object path field value) : path ≠ [] := by
  cases placed <;> nofun

theorem placed_prefix (owner : layout.Owner) (object : Members) (path front : List String) (field : layout.Field)
    (value : Json) (placed : PlacedAt layout own owner object path field value) (inside : front <+: path)
    (some : front ≠ []) : ∃ through held, PlacedAt layout own owner object front through held := by
  induction placed generalizing front with
  | here owner object key field value declared other given =>
      rcases List.prefix_cons_iff.mp inside with none | ⟨rest, rfl, nothing⟩
      · exact absurd none some
      · rw [List.prefix_nil.mp nothing]
        exact ⟨field, value, .here owner object key field value declared other given⟩
  | deeper owner nested object inner key through field rest value declared leads other given later ih =>
      rcases List.prefix_cons_iff.mp inside with none | ⟨front, rfl, below⟩
      · exact absurd none some
      · by_cases last : front = []
        · subst last
          exact ⟨through, .obj inner, .here owner object key through _ declared other given⟩
        · obtain ⟨leaf, held, placed⟩ := ih front below last
          exact ⟨leaf, held, .deeper owner nested object inner key through leaf front held declared leads other given placed⟩

structure Gives (layout : Layout) (own : Option String) (owner : layout.Owner) (object : Members) (key : String)
    (value : Json) (field : layout.Field) : Prop where
  declared : layout.field? owner key = some field
  here : PlacedAt layout own owner object [key] field value
  fits : ∀ child nested, value = .obj child → layout.inside? field = some nested → Fits layout own nested child
  below : ∀ child nested path leaf held, value = .obj child → layout.inside? field = some nested →
    PlacedAt layout own nested child path leaf held → PlacedAt layout own owner object (key :: path) leaf held

theorem fits_member (owner : layout.Owner) (object : Members) (key : String) (value : Json)
    (fits : Fits layout own owner object) (member : (key, value) ∈ object) (other : own ≠ some key) :
    ∃ field, Gives layout own owner object key value field := by
  cases fits with
  | intro _ _ distinct declared inner =>
      obtain ⟨field, known⟩ :=
        Option.isSome_iff_exists.mp (declared key (Members.mem_keys_of_mem key value object member) other)
      have given := Members.get?_of_mem key value object distinct member
      refine ⟨field, known, .here owner object key field value known other given, ?_, ?_⟩
      · rintro child nested rfl leads
        exact inner key child field nested member other known leads
      · rintro child nested path leaf held rfl leads placed
        exact .deeper owner nested object child key field leaf path held known leads other given placed

theorem fits_distinct (owner : layout.Owner) (object : Members) (fits : Fits layout own owner object) :
    (Members.keys object).Nodup := by
  cases fits with
  | intro _ _ distinct _ _ => exact distinct

end

mutual
def placesOf (layout : Layout) (own : Option String) (owner : layout.Owner) : Members → List (List String × Bool)
  | [] => []
  | (key, value) :: rest =>
      (match layout.field? owner key with
        | some field =>
            if own = some key then []
            else ([key], (layout.inside? field).isNone) ::
              (placesInside layout own (layout.inside? field) value).map (fun place => (key :: place.1, place.2))
        | none => []) ++ placesOf layout own owner rest
termination_by structural object => object
def placesInside (layout : Layout) (own : Option String) (owner? : Option layout.Owner) : Json → List (List String × Bool)
  | .obj object =>
      match owner? with
      | some owner => placesOf layout own owner object
      | none => []
  | _ => []
termination_by structural value => value
end

section

variable {layout : Layout} {own : Option String}

theorem places_of_member (owner : layout.Owner) (object : Members) (key : String) (value : Json) (field : layout.Field)
    (member : (key, value) ∈ object) (declared : layout.field? owner key = some field) (other : own ≠ some key) :
    ([key], (layout.inside? field).isNone) ∈ placesOf layout own owner object ∧
      ∀ place ∈ placesInside layout own (layout.inside? field) value,
        (key :: place.1, place.2) ∈ placesOf layout own owner object := by
  induction object with
  | nil => cases member
  | cons entry rest ih =>
      rcases List.mem_cons.mp member with rfl | later
      · simp only [placesOf, declared, if_neg other]
        refine ⟨List.mem_append_left _ (List.mem_cons_self ..), ?_⟩
        intro place below
        exact List.mem_append_left _ (List.mem_cons_of_mem _ (List.mem_map.mpr ⟨place, below, rfl⟩))
      · obtain ⟨here, below⟩ := ih later
        rcases entry with ⟨name, held⟩
        rw [placesOf]
        exact ⟨List.mem_append_right _ here, fun place inside => List.mem_append_right _ (below place inside)⟩

theorem placed_listed (owner : layout.Owner) (object : Members) (path : List String) (field : layout.Field) (value : Json)
    (placed : PlacedAt layout own owner object path field value) :
    (path, (layout.inside? field).isNone) ∈ placesOf layout own owner object := by
  induction placed with
  | here owner object key field value declared other given =>
      exact (places_of_member owner object key value field (Members.mem_of_get? key value object given) declared other).1
  | deeper owner nested object inner key through field rest value declared leads other given later ih =>
      have inside : (rest, (layout.inside? field).isNone) ∈ placesInside layout own (layout.inside? through) (.obj inner) := by
        rw [leads, placesInside]
        exact ih
      exact (places_of_member owner object key _ through (Members.mem_of_get? key _ object given) declared other).2 _ inside

end

theorem opened_of_plain (key : String) (value : Json) (object : Members) (member : (key, value) ∈ object)
    (plain : IsPlainName key) : isExtended object = false := by
  rcases object with _ | ⟨⟨name, held⟩, _ | ⟨_, _⟩⟩
  · rfl
  · cases List.mem_singleton.mp member
    simpa [isExtended] using plain.2
  · rfl

theorem unmarked_whole (value : Json) (whole : setWhole value = true) : unmarked value = value := by
  cases value with
  | obj object =>
      rw [unmarked]
      exact if_pos whole
  | _ => rfl

-- Where an entry of a compiled document comes from, `front` being the way to the object. It writes a field at its path, with
-- the value without markers, or it lies inside the path of a leaf that was given an object.
def Origin (layout : Layout) (own : Option String) (owner : layout.Owner) (object : Members) (front : List String)
    (entry : String × Json) : Prop :=
  ∃ path field value, PlacedAt layout own owner object path field value ∧
    (DotPath.segments entry.1 = front ++ path ∧ entry.2 = unmarked value ∨
      layout.inside? field = none ∧ (∃ inner, value = .obj inner) ∧ front ++ path <+: DotPath.segments entry.1)

theorem origin_below (layout : Layout) (own : Option String) (owner nested : layout.Owner) (object child : Members)
    (key : String) (field : layout.Field) (front : List String) (entry : String × Json)
    (gives : Gives layout own owner object key (.obj child) field) (leads : layout.inside? field = some nested)
    (below : Origin layout own nested child (front ++ [key]) entry) : Origin layout own owner object front entry := by
  obtain ⟨path, leaf, value, placed, origin⟩ := below
  rw [List.append_assoc] at origin
  exact ⟨key :: path, leaf, value, gives.below child nested path leaf value rfl leads placed, origin⟩

theorem origin_under (layout : Layout) (own : Option String) (owner : layout.Owner) (object : Members) (key : String)
    (entry : String × Json) (segment : DotPath.IsSegment key) (origin : Origin layout own owner object [] entry) :
    Origin layout own owner object [key] (DotPath.under key entry.1, entry.2) := by
  obtain ⟨path, field, value, placed, origin⟩ := origin
  refine ⟨path, field, value, placed, ?_⟩
  rw [DotPath.segments_under_segment key entry.1 segment]
  rcases origin with ⟨cut, same⟩ | ⟨leaf, holds, inside⟩
  · exact .inl ⟨congrArg (key :: ·) cut, same⟩
  · exact .inr ⟨leaf, holds, List.cons_prefix_cons.mpr ⟨rfl, inside⟩⟩

section

variable (layout : Layout) (names : layout.HasPlainNames)

include names in
theorem set_members_from (depth : Nat) : ∀ (object : Members) (owner : layout.Owner) (place : String) (mode : WriteMode)
    (entries : Members), (Json.obj object).depth ≤ depth → Fits layout (some Overwrite.marker) owner object →
    Json.UniqueKeys (.obj object) → setMembers mode place object = .ok entries →
    ∀ entry ∈ entries, Origin layout (some Overwrite.marker) owner object [] entry := by
  induction depth with
  | zero => exact fun _ _ _ _ _ deep => absurd deep (Nat.not_succ_le_zero _)
  | succ depth ih =>
      intro object owner place mode entries deep fits unique written entry listed
      obtain ⟨key, value, first, member, plain, here, inside⟩ := set_members_entry mode place object entries written entry listed
      have other : some Overwrite.marker ≠ some key := fun same => plain (Option.some.inj same).symm
      obtain ⟨field, gives⟩ := fits_member owner object key value fits member other
      have segment := (names owner key field gives.declared).1
      have alone := DotPath.segments_segment key segment
      by_cases whole : setWhole value = true
      · rw [set_value_whole mode place key value whole] at here
        cases Except.ok.inj here
        cases List.mem_singleton.mp inside
        exact ⟨[key], field, value, gives.here, .inl ⟨alone, (unmarked_whole value whole).symm⟩⟩
      · cases value with
        | obj child =>
            have opened : isExtended child = false := Bool.eq_false_iff.mpr whole
            have different := Json.members_unique_mem object key (.obj child) unique.2 member
            by_cases nests : mode.replaces (Overwrite.flag? child) = true
            · rw [set_value_replaced mode place key child first opened different nests here,
                ← unmarked_opened child opened] at inside
              cases List.mem_singleton.mp inside
              exact ⟨[key], field, _, gives.here, .inl ⟨alone, rfl⟩⟩
            · cases leads : layout.inside? field with
              | none =>
                  obtain ⟨rest, cut⟩ := set_value_first mode place key _ first segment here entry inside
                  exact ⟨[key], field, _, gives.here, .inr ⟨leads, ⟨child, rfl⟩, rest, cut.symm⟩⟩
              | some nested =>
                  obtain ⟨inner, compiled, rfl⟩ := set_value_object mode place key child first opened here
                  rw [Update.nested, if_neg nests] at inside
                  obtain ⟨deeper, listed', rfl⟩ := List.mem_map.mp inside
                  refine origin_below layout _ owner nested object child key field [] _ gives leads ?_
                  refine origin_under layout _ nested child key deeper segment ?_
                  refine ih child nested (DotPath.under place key) _ inner ?_ (gives.fits child nested rfl leads) different
                    compiled deeper listed'
                  exact Nat.le_trans (Json.member_depth key _ object member) (Nat.le_of_succ_le_succ deep)
        | _ => exact absurd rfl whole

include names in
theorem set_document_from (object : Members) (owner : layout.Owner) (place : String) (mode : WriteMode) (document : Members)
    (fits : Fits layout (some Overwrite.marker) owner object) (unique : Json.UniqueKeys (.obj object))
    (written : setDocument mode place object = .ok document) :
    ∀ entry ∈ document, Origin layout (some Overwrite.marker) owner object [] entry := by
  obtain ⟨entries, compiled, rfl⟩ := set_document_ok mode place object document written
  intro entry member
  exact set_members_from layout names _ object owner place _ entries (Nat.le_refl _) fits unique compiled entry
    (Members.mem_of_entries entry entries member)

theorem inc_members_entry (place : String) (object entries : Members) (written : incMembers place object = .ok entries) :
    ∀ entry ∈ entries, ∃ key value first, (key, value) ∈ object ∧ key ≠ incPlaceholder ∧
      incValue (DotPath.under place key) value = .ok first ∧ entry ∈ first :=
  join_members_entry _ _ object entries ((inc_members_joined place object).symm.trans written)

theorem inc_value_below (depth : Nat) : ∀ (place : String) (value : Json) (entries : Members), value.depth < depth →
    place ≠ "" → incValue place value = .ok entries → ∀ entry ∈ entries,
      DotPath.segments place <+: DotPath.segments entry.1 ∧ ∃ number, entry.2 = .num number := by
  induction depth with
  | zero => exact fun _ _ _ deep => absurd deep (Nat.not_lt_zero _)
  | succ depth ih =>
      intro place value entries deep some written entry member
      cases value with
      | null =>
          cases Except.ok.inj written
          cases member
      | num number =>
          cases Except.ok.inj written
          cases List.mem_singleton.mp member
          exact ⟨List.prefix_refl _, number, rfl⟩
      | obj object =>
          obtain ⟨key, value, first, held, _, here, inside⟩ := inc_members_entry place object entries written entry member
          have nonempty : DotPath.under place key ≠ "" := by
            rw [DotPath.under, if_neg some]
            simp
          have shallow := Nat.lt_of_le_of_lt (Json.member_depth key value object held) (Nat.lt_of_succ_lt_succ deep)
          obtain ⟨lies, number⟩ := ih (DotPath.under place key) value first shallow nonempty here entry inside
          rw [DotPath.segments_under place key some] at lies
          exact ⟨(List.prefix_append _ _).trans lies, number⟩
      | _ => cases written

include names in
theorem inc_members_from (depth : Nat) : ∀ (object : Members) (owner : layout.Owner) (place : String) (front : List String)
    (entries : Members), (Json.obj object).depth ≤ depth → DotPath.Spells place front →
    Fits layout (some incPlaceholder) owner object → incMembers place object = .ok entries →
    ∀ entry ∈ entries, Origin layout (some incPlaceholder) owner object front entry ∧ ∃ number, entry.2 = .num number := by
  induction depth with
  | zero => exact fun _ _ _ _ _ deep => absurd deep (Nat.not_succ_le_zero _)
  | succ depth ih =>
      intro object owner place front entries deep spells fits written entry listed
      obtain ⟨key, value, first, member, plain, here, inside⟩ := inc_members_entry place object entries written entry listed
      have other : some incPlaceholder ≠ some key := fun same => plain (Option.some.inj same).symm
      obtain ⟨field, gives⟩ := fits_member owner object key value fits member other
      have segment := (names owner key field gives.declared).1
      have spelled := DotPath.spells_under place key front spells segment
      have cut := DotPath.segments_spelled _ _ spelled (by simp)
      cases value with
      | null =>
          cases Except.ok.inj here
          cases inside
      | num number =>
          cases Except.ok.inj here
          cases List.mem_singleton.mp inside
          exact ⟨⟨[key], field, .num number, gives.here, .inl ⟨cut, rfl⟩⟩, number, rfl⟩
      | obj child =>
          cases leads : layout.inside? field with
          | none =>
              obtain ⟨below, number⟩ := inc_value_below _ _ (.obj child) first (Nat.lt_succ_self _)
                (DotPath.under_ne_empty place key segment.1) here entry inside
              exact ⟨⟨[key], field, _, gives.here, .inr ⟨leads, ⟨child, rfl⟩, cut ▸ below⟩⟩, number⟩
          | some nested =>
              obtain ⟨origin, number⟩ := ih child nested (DotPath.under place key) (front ++ [key]) first
                (Nat.le_trans (Json.member_depth key _ object member) (Nat.le_of_succ_le_succ deep)) spelled
                (gives.fits child nested rfl leads) here entry inside
              exact ⟨origin_below layout _ owner nested object child key field front entry gives leads origin, number⟩
      | _ => cases here

include names in
theorem inc_document_from (object : Members) (owner : layout.Owner) (document : Members)
    (fits : Fits layout (some incPlaceholder) owner object) (written : incDocument object = .ok document) :
    ∀ entry ∈ document, Origin layout (some incPlaceholder) owner object [] entry ∧ ∃ number, entry.2 = .num number := by
  obtain ⟨entries, compiled, whole⟩ := (except_bind_ok _ _ _).mp written
  cases Except.ok.inj whole
  intro entry member
  exact inc_members_from layout names _ object owner "" [] entries (Nat.le_refl _) rfl fits compiled entry
    (Members.mem_of_entries entry entries member)

end

end DocGraph.Update
