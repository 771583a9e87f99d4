import Mathlib.Data.List.Nodup
import DocGraph.Proofs.Schema.DefinitionOrder
import DocGraph.Proofs.Schema.Gathering

set_option autoImplicit false

namespace DocGraph

open GraphQL

inductive GraphQL.TypeBody.Splits : TypeBody → TypeBody → TypeBody → Prop where
  | object (interfaces others : List String) (kept moved : List FieldDefinition) :
      Splits (.object interfaces (kept ++ moved)) (.object interfaces kept) (.object others moved)
  | interface (interfaces others : List String) (kept moved : List FieldDefinition) :
      Splits (.interface interfaces (kept ++ moved)) (.interface interfaces kept) (.interface others moved)

structure GraphQL.TypeDefinition.Splits (definition first rest : TypeDefinition) : Prop where
  named : first.name = definition.name
  again : rest.name = definition.name
  described : first.description = definition.description
  undescribed : rest.description = none
  body : definition.body.Splits first.body rest.body

namespace Schema

def withFields (schema : Schema) (name : String) (fields : List Field) : Schema :=
  { schema with composites := schema.composites.map (fun composite =>
      if composite.name = name then { composite with fields := fields } else composite) }

section

variable (schema : Schema) (name : String) (fields : List Field)

theorem with_fields_types : SameTypes schema (schema.withFields name fields) := by
  refine ⟨?_, rfl, rfl⟩
  simp only [withFields, List.map_map]
  refine List.map_congr_left (fun composite _ => ?_)
  rw [Function.comp_apply]
  split <;> rfl

theorem with_fields_idle : schema.withFields name fields = schema ↔
    ∀ composite ∈ schema.composites, composite.name = name → composite.fields = fields := by
  have unchanged : schema.withFields name fields = schema ↔ schema.composites.map (fun composite =>
      if composite.name = name then { composite with fields := fields } else composite) = schema.composites.map id := by
    rw [List.map_id]
    exact ⟨congrArg Schema.composites, fun same => by rw [withFields, same]⟩
  rw [unchanged, List.map_inj_left]
  refine forall₂_congr (fun composite _ => ?_)
  by_cases mine : composite.name = name
  · rw [if_pos mine]
    exact ⟨fun same _ => (congrArg Composite.fields same).symm, fun same => by rw [← same mine]; rfl⟩
  · simp [mine]

variable (same : ∀ composite ∈ schema.composites, composite.name = name → fields.Perm composite.fields)

include same

theorem rearranged (composite : Composite) (member : composite ∈ (schema.withFields name fields).composites) :
    ∃ held ∈ schema.composites, composite.fields.Perm held.fields := by
  obtain ⟨held, listed, rfl⟩ := List.mem_map.mp member
  refine ⟨held, listed, ?_⟩
  split
  · exact same held listed ‹_›
  · exact List.Perm.refl _

theorem rearranged_distinct (distinct : schema.FieldsDistinct) : (schema.withFields name fields).FieldsDistinct := by
  intro composite member
  obtain ⟨held, listed, perm⟩ := rearranged schema name fields same composite member
  exact (perm.map Field.name).nodup_iff.mpr (distinct held listed)

theorem rearranged_checks (checked : schema.check = .ok ()) : (schema.withFields name fields).check = .ok () := by
  apply (check_ok _).mpr
  intro composite member
  obtain ⟨held, listed, perm⟩ := rearranged schema name fields same composite member
  obtain ⟨given, refers⟩ := (check_ok schema).mp checked held listed
  refine ⟨fun none => given (List.nil_perm.mp (none ▸ perm)), ?_⟩
  intro field among
  exact same_refers schema _ (with_fields_types schema name fields) field.type (refers field (perm.mem_iff.mp among))

end

section

variable (declared : Schema) (name : String)

theorem own_append (before after : List TypeDefinition) : own name (before ++ after) = own name before ++ own name after :=
  List.filter_append ..

theorem gathered_append (before after : List TypeDefinition) :
    gathered declared name (before ++ after) = gathered declared name before ++ gathered declared name after := by
  rw [gathered, own_append, List.flatMap_append, gathered, gathered]

theorem described_append (before after : List TypeDefinition) (given : Option String) :
    described name (before ++ after) given = described name after (described name before given) := by
  rw [described, own_append, List.foldl_append, described, described]

theorem gathered_none (definitions : List TypeDefinition)
    (readable : ∀ definition ∈ definitions, ∃ fields, declared.fieldsOf definition = .ok fields) :
    gathered declared name definitions = [] ↔ ∀ definition ∈ definitions, definition.name = name →
      definition.body.fields = [] := by
  simp only [gathered, own, List.flatMap_eq_nil_iff, List.mem_filter, decide_eq_true_eq, and_imp]
  refine forall₂_congr (fun definition member => ?_)
  obtain ⟨fields, read⟩ := readable definition member
  have none := except_map_list_nil_iff definition.body.fields _ fields read
  simp only [read, Except.toOption, Option.getD_some, none]
  cases body : definition.body <;> simp [TypeBody.kind?, TypeBody.fields]

end

theorem splits_kind (body first rest : TypeBody) (splits : body.Splits first rest) :
    ∃ kind, body.kind? = some kind ∧ first.kind? = some kind ∧ rest.kind? = some kind := by
  cases splits <;> exact ⟨_, rfl, rfl, rfl⟩

theorem splits_fields (body first rest : TypeBody) (splits : body.Splits first rest) :
    body.fields = first.fields ++ rest.fields := by
  cases splits <;> rfl

section

variable (declared : Schema) (name : String) (definition first rest : TypeDefinition) (splits : definition.Splits first rest)

include splits

theorem split_read (fields : List Field) (read : declared.fieldsOf definition = .ok fields) :
    ∃ kept moved, declared.fieldsOf first = .ok kept ∧ declared.fieldsOf rest = .ok moved ∧ kept ++ moved = fields := by
  unfold fieldsOf at read ⊢
  rw [splits_fields _ _ _ splits.body, List.mapM_append] at read
  obtain ⟨kept, early, later⟩ := (except_bind_ok _ _ _).mp read
  obtain ⟨moved, late, joined⟩ := (except_bind_ok _ _ _).mp later
  exact ⟨kept, moved, splits.named ▸ early, splits.again ▸ late, Except.ok.inj joined⟩

theorem own_parts (mine : definition.name = name) :
    own name [definition] = [definition] ∧ own name [first] = [first] ∧ own name [rest] = [rest] := by
  obtain ⟨kind, given, one, other⟩ := splits_kind _ _ _ splits.body
  simp [own, given, one, other, splits.named, splits.again, mine]

theorem others_parts (others : definition.name ≠ name) :
    own name [definition] = [] ∧ own name [first] = [] ∧ own name [rest] = [] := by
  simp [own, splits.named, splits.again, others]

theorem split_gathered (readable : ∃ fields, declared.fieldsOf definition = .ok fields) :
    gathered declared name [definition] = gathered declared name [first] ++ gathered declared name [rest] := by
  by_cases mine : definition.name = name
  · obtain ⟨whole, front, back⟩ := own_parts name definition first rest splits mine
    obtain ⟨fields, read⟩ := readable
    obtain ⟨kept, moved, early, late, rfl⟩ := split_read declared definition first rest splits fields read
    simp [gathered, whole, front, back, read, early, late, Except.toOption]
  · obtain ⟨whole, front, back⟩ := others_parts name definition first rest splits mine
    simp [gathered, whole, front, back]

theorem split_described (given : Option String) : described name [first] given = described name [definition] given ∧
    described name [rest] given = given := by
  by_cases mine : definition.name = name
  · obtain ⟨whole, front, back⟩ := own_parts name definition first rest splits mine
    simp [described, whole, front, back, splits.described, splits.undescribed]
  · obtain ⟨whole, front, back⟩ := others_parts name definition first rest splits mine
    simp [described, whole, front, back]

variable (front middle back : List TypeDefinition)

theorem parts_declared (start : Schema)
    (declares : (front ++ definition :: (middle ++ back)).foldlM declare start = .ok declared) :
    (front ++ first :: (middle ++ rest :: back)).foldlM declare start = .ok declared := by
  obtain ⟨kind, given, one, other⟩ := splits_kind _ _ _ splits.body
  simp only [List.foldlM_append, List.foldlM_cons, except_bind_ok] at declares ⊢
  obtain ⟨early, before, known, whole, late, between, after⟩ := declares
  have same : early.declare first = .ok known := by
    rw [declare_composite early first kind one, splits.named, ← declare_composite early definition kind given]
    exact whole
  obtain ⟨id, found⟩ := composite_declared early known definition kind given whole
  have held := declared_composite_stays known late (declares_continue middle known late between) _ _ found
  have again : late.declare rest = .ok late :=
    declare_again late rest kind id other (splits.again.symm ▸ held)
  exact ⟨early, before, known, same, late, between, late, again, after⟩

theorem parts_gathered (readable : ∃ fields, declared.fieldsOf definition = .ok fields) :
    gathered declared name (front ++ definition :: (middle ++ back)) =
        gathered declared name front ++ gathered declared name [first] ++
          (gathered declared name [rest] ++ gathered declared name middle) ++ gathered declared name back ∧
      gathered declared name (front ++ first :: (middle ++ rest :: back)) =
        gathered declared name front ++ gathered declared name [first] ++
          (gathered declared name middle ++ gathered declared name [rest]) ++ gathered declared name back := by
  have split := split_gathered declared name definition first rest splits readable
  have whole : definition :: (middle ++ back) = [definition] ++ (middle ++ back) := rfl
  have parts : first :: (middle ++ rest :: back) = [first] ++ (middle ++ ([rest] ++ back)) := rfl
  rw [whole, parts]
  simp only [gathered_append, split, List.append_assoc, and_self]

theorem parts_described (given : Option String) : described name (front ++ first :: (middle ++ rest :: back)) given =
    described name (front ++ definition :: (middle ++ back)) given := by
  have split (given : Option String) := split_described name definition first rest splits given
  have whole : definition :: (middle ++ back) = [definition] ++ (middle ++ back) := rfl
  have parts : first :: (middle ++ rest :: back) = [first] ++ (middle ++ ([rest] ++ back)) := rfl
  rw [whole, parts]
  simp only [described_append, (split _).1, (split _).2]

end

theorem swap_apart {α : Type} (before after : List α) (apart : before.Disjoint after) :
    before ++ after = after ++ before ↔ before = [] ∨ after = [] := by
  cases before with
  | nil => simp
  | cons head others =>
      cases after with
      | nil => simp
      | cons first rest =>
          have different : head ≠ first := fun same => apart (List.mem_cons_self ..) (same ▸ List.mem_cons_self ..)
          simp [different]

theorem declared_unfilled (definitions : List TypeDefinition) (declared : Schema)
    (declares : definitions.foldlM declare {} = .ok declared) : FieldsHave (· = []) declared :=
  except_fold_keeps declare (FieldsHave (· = [])) definitions {} declared (fun _ member => absurd member List.not_mem_nil)
    (fun definition _ held next before => declare_keeps (· = []) held next definition rfl before) declares

theorem definition_filled (definitions : List TypeDefinition) (definition : TypeDefinition) (declared : Schema)
    (declares : definitions.foldlM declare {} = .ok declared) (member : definition ∈ definitions) (kind : CompositeKind)
    (given : definition.body.kind? = some kind) :
    ∃ composite ∈ (filledBy declared declared definitions).composites, composite.name = definition.name := by
  obtain ⟨id, found⟩ := composites_declared definitions {} declared declares definition member kind given
  obtain ⟨composite, listed, named⟩ := List.mem_map.mp (declared_composite_listed declared definition.name _ found)
  refine ⟨_, List.mem_map_of_mem listed, ?_⟩
  rw [fillings]
  exact named

section

variable (front middle back : List TypeDefinition) (definition first rest : TypeDefinition) (splits : definition.Splits first rest)

include splits

theorem parts_fill (declared : Schema) (empty : FieldsHave (· = []) declared)
    (readable : ∃ fields, declared.fieldsOf definition = .ok fields) :
    filledBy declared declared (front ++ first :: (middle ++ rest :: back)) =
      (filledBy declared declared (front ++ definition :: (middle ++ back))).withFields definition.name
        (gathered declared definition.name (front ++ first :: (middle ++ rest :: back))) := by
  simp only [filledBy, withFields, List.map_map]
  congr 1
  refine List.map_congr_left (fun composite member => ?_)
  rw [Function.comp_apply, fillings, fillings, empty composite member,
    parts_described composite.name definition first rest splits front middle back]
  by_cases mine : composite.name = definition.name
  · simp [mine]
  · have absent : gathered declared composite.name [rest] = [] := by
      simp [gathered, own, splits.again, Ne.symm mine]
    obtain ⟨whole, parts⟩ := parts_gathered declared composite.name definition first rest splits front middle back readable
    simp [mine, whole, parts, absent]

theorem types_extended (schema : Schema)
    (read : ofTypes (front ++ definition :: (middle ++ back)) = .ok schema) :
    ∃ fields, (∀ composite ∈ schema.composites, composite.name = definition.name → fields.Perm composite.fields) ∧
      ofTypes (front ++ first :: (middle ++ rest :: back)) = .ok (schema.withFields definition.name fields) ∧
      (schema.withFields definition.name fields = schema ↔ rest.body.fields = [] ∨
        ∀ between ∈ middle, between.name = definition.name → between.body.fields = []) := by
  obtain ⟨declared, declares, readable, distinct, filled, checked⟩ := (of_types_filled _ schema).mp read
  have own := readable definition (by simp)
  obtain ⟨kept, moved, early, late, _⟩ := split_read declared definition first rest splits _ own.choose_spec
  have empty := declared_unfilled _ declared declares
  let fields := gathered declared definition.name (front ++ first :: (middle ++ rest :: back))
  obtain ⟨whole, parts⟩ := parts_gathered declared definition.name definition first rest splits front middle back own
  have order : fields.Perm (gathered declared definition.name (front ++ definition :: (middle ++ back))) := by
    change (gathered declared definition.name _).Perm _
    rw [whole, parts]
    exact (List.perm_append_comm.append_left _).append_right _
  have given : ∀ composite ∈ schema.composites, composite.name = definition.name →
      composite.fields = gathered declared definition.name (front ++ definition :: (middle ++ back)) := by
    intro composite member named
    rw [filled] at member
    obtain ⟨held, listed, rfl⟩ := List.mem_map.mp member
    rw [fillings] at named ⊢
    change held.name = definition.name at named
    simp [empty held listed, named]
  have same : ∀ composite ∈ schema.composites, composite.name = definition.name → fields.Perm composite.fields :=
    fun composite member named => (given composite member named).symm ▸ order
  have made : schema.withFields definition.name fields =
      filledBy declared declared (front ++ first :: (middle ++ rest :: back)) := by
    rw [filled]
    exact (parts_fill front middle back definition first rest splits declared empty own).symm
  refine ⟨fields, same, ?_, ?_⟩
  · refine (of_types_filled _ _).mpr ⟨declared, ?_, ?_, ?_, made, ?_⟩
    · exact parts_declared declared definition first rest splits front middle back {} declares
    · intro part member
      simp only [List.mem_append, List.mem_cons] at member readable
      rcases member with early' | rfl | between | rfl | after
      · exact readable part (.inl early')
      · exact ⟨kept, early⟩
      · exact readable part (.inr (.inr (.inl between)))
      · exact ⟨moved, late⟩
      · exact readable part (.inr (.inr (.inr after)))
    · exact rearranged_distinct schema definition.name fields same distinct
    · exact rearranged_checks schema definition.name fields same checked
  · obtain ⟨kind, kinded, _⟩ := splits_kind _ _ _ splits.body
    obtain ⟨composite, member, named⟩ := definition_filled _ definition declared declares (by simp) kind kinded
    have listed := filled ▸ member
    have disjoint : (gathered declared definition.name [rest]).Disjoint (gathered declared definition.name middle) := by
      have spread := List.Nodup.of_map Field.name (distinct composite listed)
      rw [given composite listed named, whole] at spread
      exact List.disjoint_of_nodup_append (List.nodup_append.mp (List.nodup_append.mp spread).1).2.1
    have alike : schema.withFields definition.name fields = schema ↔
        gathered declared definition.name (front ++ definition :: (middle ++ back)) = fields := by
      rw [with_fields_idle]
      exact ⟨fun idle => (given composite listed named).symm.trans (idle composite listed named),
        fun total other among mine => (given other among mine).trans total⟩
    rw [alike, whole, show fields = _ from parts, List.append_left_inj, List.append_right_inj]
    rw [swap_apart _ _ disjoint, gathered_none declared definition.name [rest] (by simpa using ⟨moved, late⟩),
      gathered_none declared definition.name middle (fun between member => readable between (by simp [member]))]
    simp [splits.again]

end

theorem types_of_extended (front middle back : List Definition) (first rest : TypeDefinition) :
    typesOf (front ++ .type first :: (middle ++ .type rest :: back)) =
      typesOf front ++ first :: (typesOf middle ++ rest :: typesOf back) := by
  simp [typesOf]

-- For every document that is read, every definition of an object or interface in it, every place to divide its fields at and
-- every place of the extension.
theorem members_in_extension (text divided : String) (front middle back : List Definition) (definition first rest : TypeDefinition)
    (whole : definitionsOfText? text = some (front ++ .type definition :: (middle ++ back)))
    (parts : definitionsOfText? divided = some (front ++ .type first :: (middle ++ .type rest :: back)))
    (splits : definition.Splits first rest) (schema : Schema) (read : ofText text = .ok schema) :
    ∃ fields, (∀ composite ∈ schema.composites, composite.name = definition.name → fields.Perm composite.fields) ∧
      ofText divided = .ok (schema.withFields definition.name fields) ∧
      (schema.withFields definition.name fields = schema ↔ rest.body.fields = [] ∨
        ∀ between ∈ typesOf middle, between.name = definition.name → between.body.fields = []) := by
  have types := of_text_types divided _ parts
  rw [types_of_extended] at types
  have built : ofTypes (typesOf front ++ definition :: (typesOf middle ++ typesOf back)) = .ok schema := by
    have given := (of_text_types text _ whole).symm.trans read
    rw [except_map_error_ok] at given
    simpa [typesOf] using given
  obtain ⟨fields, same, made, order⟩ := types_extended _ _ _ definition first rest splits schema built
  refine ⟨fields, same, ?_, order⟩
  rw [types, made]
  rfl

def intField (name : String) : FieldDefinition := ⟨none, name, [], .named "Int", []⟩

def boxDefinition (fields : List String) : TypeDefinition := ⟨false, some "A box.", "Box", [], .object [] (fields.map intField)⟩

def boxExtension (fields : List String) : TypeDefinition := ⟨true, none, "Box", [], .object [] (fields.map intField)⟩

def anyDefinition : Definition := .type ⟨false, none, "Any", [], .scalar⟩

def boxSchema (fields : List String) : Schema where
  composites := [{ name := "Box", kind := .object, description := some "A box.", fields := fields.map (fun name =>
    { name := name, type := .scalar .int }) }]
  scalars := ["Any"]

def boxText : String := "\"A box.\" type Box \x7b a: Int, b: Int \x7d scalar Any"

def emptiedText : String := "\"A box.\" type Box scalar Any extend type Box \x7b a: Int, b: Int \x7d"

theorem box_extended :
    definitionsOfText? boxText = some [.type (boxDefinition ["a", "b"]), anyDefinition] ∧
      definitionsOfText? emptiedText = some [.type (boxDefinition []), anyDefinition, .type (boxExtension ["a", "b"])] ∧
      (boxDefinition ["a", "b"]).Splits (boxDefinition []) (boxExtension ["a", "b"]) ∧
      ofText boxText = .ok (boxSchema ["a", "b"]) ∧ ofText emptiedText = .ok (boxSchema ["a", "b"]) := by
  have whole : definitionsOfText? boxText = some [.type (boxDefinition ["a", "b"]), anyDefinition] := by decide +kernel
  have parts : definitionsOfText? emptiedText =
      some [.type (boxDefinition []), anyDefinition, .type (boxExtension ["a", "b"])] := by
    decide +kernel
  have splits : (boxDefinition ["a", "b"]).Splits (boxDefinition []) (boxExtension ["a", "b"]) :=
    ⟨rfl, rfl, rfl, rfl, .object [] [] [] (["a", "b"].map intField)⟩
  have read : ofText boxText = .ok (boxSchema ["a", "b"]) := (of_text_types boxText _ whole).trans (by decide +kernel)
  obtain ⟨fields, _, made, order⟩ :=
    members_in_extension boxText emptiedText [] [anyDefinition] [] _ _ _ whole parts splits _ read
  have same := order.mpr (.inr (by simp [typesOf, anyDefinition, TypeBody.fields]))
  exact ⟨whole, parts, splits, read, same ▸ made⟩

def crowdedText : String :=
  "\"A box.\" type Box \x7b a: Int, b: Int \x7d extend type Box \x7b c: Int \x7d scalar Any"

def reorderedText : String :=
  "\"A box.\" type Box \x7b a: Int \x7d extend type Box \x7b c: Int \x7d extend type Box \x7b b: Int \x7d scalar Any"

theorem members_between :
    definitionsOfText? crowdedText = some [.type (boxDefinition ["a", "b"]), .type (boxExtension ["c"]), anyDefinition] ∧
      definitionsOfText? reorderedText =
        some [.type (boxDefinition ["a"]), .type (boxExtension ["c"]), .type (boxExtension ["b"]), anyDefinition] ∧
      (boxDefinition ["a", "b"]).Splits (boxDefinition ["a"]) (boxExtension ["b"]) ∧
      ofText crowdedText = .ok (boxSchema ["a", "b", "c"]) ∧ ofText reorderedText = .ok (boxSchema ["a", "c", "b"]) ∧
      ∀ numbers, ¬ Renumbers numbers (boxSchema ["a", "b", "c"]) (boxSchema ["a", "c", "b"]) := by
  have crowded : definitionsOfText? crowdedText =
      some [.type (boxDefinition ["a", "b"]), .type (boxExtension ["c"]), anyDefinition] := by
    decide +kernel
  have reordered : definitionsOfText? reorderedText =
      some [.type (boxDefinition ["a"]), .type (boxExtension ["c"]), .type (boxExtension ["b"]), anyDefinition] := by
    decide +kernel
  have boxed := (of_text_types crowdedText _ crowded).trans
    (show _ = .ok (boxSchema ["a", "b", "c"]) by decide +kernel)
  have moved := (of_text_types reorderedText _ reordered).trans
    (show _ = .ok (boxSchema ["a", "c", "b"]) by decide +kernel)
  have other (numbers : Renumbering) : ¬ Renumbers numbers (boxSchema ["a", "b", "c"]) (boxSchema ["a", "c", "b"]) := by
    intro renumbers
    have found := renumbers.composites 0
    -- The one composite of both has its fields under other names.
    cases place : numbers.composites 0 with
    | zero =>
        rw [place] at found
        have names := congrArg (Option.map (fun composite => composite.fields.map Field.name)) found
        simp [boxSchema, Composite.renumber] at names
    | succ later =>
        rw [place] at found
        cases found
  refine ⟨crowded, reordered, ?_, boxed, moved, other⟩
  exact ⟨rfl, rfl, rfl, rfl, .object [] [] (["a"].map intField) (["b"].map intField)⟩

end Schema

end DocGraph
