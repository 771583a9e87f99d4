import DocGraph.Proofs.Derivation.Spelling

set_option autoImplicit false

namespace DocGraph

open GraphQL

def SingleQuoted (description : Option String) : Prop := ∀ text ∈ description, tripleQuotes text.toList = false

structure Schema.Writable (schema : Schema) : Prop where
  filled : ∀ enum ∈ schema.enums, enum.values ≠ []
  enums : ∀ enum ∈ schema.enums, SingleQuoted enum.description
  fields : ∀ composite ∈ schema.composites, ∀ field ∈ composite.fields, SingleQuoted field.description

instance : (description : Option String) → Decidable (SingleQuoted description)
  | none => isTrue nofun
  | some text => decidable_of_iff (tripleQuotes text.toList = false) (by simp [SingleQuoted])

theorem InputType.object_writable (name : String) (description : Option String) (fields : List InputValue)
    (own : SingleQuoted description) (each : ∀ field ∈ fields, SingleQuoted field.description) :
    (InputType.object (.make name description fields)).Writable := by
  refine ⟨nofun, fun text given => ?_⟩
  rcases given with mine | member
  · exact own text mine
  · obtain ⟨field, listed, held⟩ := List.mem_filterMap.mp member
    exact each field (Keyed.mem_of_mem_collect _ field fields listed) text held

theorem InputType.enum_writable (name : String) (description : Option String) (values : List EnumValue) (given : values ≠ [])
    (own : SingleQuoted description) (each : ∀ value ∈ values, value.description = none) :
    (InputType.enum (.make name description values)).Writable := by
  refine ⟨?_, fun text given => ?_⟩
  · rintro enum same empty
    cases same
    exact given ((Keyed.collect_nil_iff _ values).mp empty)
  · rcases given with mine | member
    · exact own text mine
    · obtain ⟨value, listed, held⟩ := List.mem_filterMap.mp member
      rw [each value (Keyed.mem_of_mem_collect _ value values listed)] at held
      cases held

theorem plain_single (text : String) (plain : '"' ∉ text.toList) : SingleQuoted (some text) := by
  intro given same
  cases same
  exact triple_plain _ plain

theorem plain_of_list (text : List Char) (plain : '"' ∉ text) : '"' ∉ (String.ofList text).toList := by
  rwa [String.toList_ofList]

namespace Derivation

theorem leaf_description_single (leaf before after : String) (named : IsName leaf) (plain : '"' ∉ before.toList)
    (also : '"' ∉ after.toList) : SingleQuoted (some (before ++ leaf ++ after)) := by
  apply plain_single
  intro quote
  rw [String.toList_append, String.toList_append, List.mem_append, List.mem_append] at quote
  obtain ⟨first, rest, spelled, starts, parts⟩ := named
  rcases quote with (early | inside) | late
  · exact plain early
  · rw [spelled] at inside
    rcases List.mem_cons.mp inside with rfl | later
    · cases starts
    · cases parts '"' later
  · exact also late

theorem operand_single (leaf : String) (isString : Bool) :
    ∀ input ∈ operandFields leaf isString, SingleQuoted input.description := by
  intro input member
  obtain ⟨operator, _, rfl⟩ := List.mem_map.mp member
  change SingleQuoted (some (if operator = .options then flagsDescription else operator.native))
  cases operator <;> decide +kernel

theorem fixed_field_single : ∀ field ∈ [sortPlaceholder, incPlaceholder, overwriteField], SingleQuoted field.description := by
  intro field member
  simp only [List.mem_cons, List.not_mem_nil, or_false] at member
  rcases member with rfl | rfl | rfl
  all_goals
    apply plain_single
    simp only [String.toList_append, List.mem_append, not_or]
    and_intros
    all_goals exact plain_of_list _ (by decide)

theorem own_field_single (family : Family) (name : String) (noneTaken : Bool) :
    ∀ own ∈ ownFields family name noneTaken, SingleQuoted own.description := by
  have alone (field : InputValue) (single : SingleQuoted field.description) : ∀ own ∈ [field], SingleQuoted own.description := by
    intro own member
    cases List.mem_singleton.mp member
    exact single
  cases family with
  | filter =>
      intro own member
      obtain ⟨combinator, _, rfl⟩ := List.mem_map.mp member
      exact nofun
  | objectFilter => exact alone _ (by decide)
  | sort | inc =>
      cases noneTaken with
      | true => exact alone _ (fixed_field_single _ (by simp))
      | false => nofun
  | set | setObject => exact alone _ (fixed_field_single _ (by simp))
  | _ => nofun

section

variable (schema : Schema) (spelled : schema.Spelled)

include spelled

theorem definition_writable (writable : schema.Writable) (target : Target) (of : target.Of schema) (type : InputType)
    (defined : target.definition schema = .ok type) : type.Writable := by
  have none : SingleQuoted none := nofun
  cases target with
  | composite family id scope =>
      by_cases update : family = .update
      · subst update
        obtain ⟨name, _, later⟩ := (except_bind_ok _ _ _).mp defined
        obtain ⟨fields, listed, whole⟩ := (except_bind_ok _ _ _).mp later
        obtain ⟨_, _, parts⟩ := (except_bind_ok _ _ _).mp listed
        cases Except.ok.inj whole
        refine InputType.object_writable name _ fields none (fun input member => ?_)
        obtain ⟨part, _, derived⟩ := (except_map_list_ok _ _ _ parts).2 input member
        obtain ⟨_, _, same⟩ := (except_bind_ok _ _ _).mp derived
        cases Except.ok.inj same
        exact none
      · obtain ⟨name, named, _⟩ := (except_bind_ok _ _ _).mp defined
        obtain ⟨composite, located, rfl⟩ := (composite_name_ok schema family id name).mp named
        have listed := Schema.composite_mem schema id composite located
        obtain ⟨fields, mapped, rfl⟩ := composite_definition schema family id scope composite type located update defined
        refine InputType.object_writable _ _ _ none (fun input member => ?_)
        rcases List.mem_append.mp member with taken | own
        · obtain ⟨field, among, derived⟩ := (except_map_list_ok _ _ _ mapped).2 input taken
          obtain ⟨_, _, same⟩ := (except_bind_ok _ _ _).mp derived
          cases Except.ok.inj same
          have given := writable.fields composite listed field (taken_field composite family scope field among).1
          cases family with
          | filter | objectFilter => exact given
          | _ => exact none
        · exact own_field_single family _ _ input own
  | enumCopy id =>
      obtain ⟨held, found, whole⟩ := (except_bind_ok _ _ _).mp defined
      cases Except.ok.inj whole
      have listed := Schema.enumeration_mem schema id held found
      refine InputType.enum_writable held.name _ _ ?_ (writable.enums held listed) (List.forall_mem_map.mpr (fun _ _ => rfl))
      rw [Ne, List.map_eq_nil_iff]
      exact writable.filled held listed
  | leafFilter leaf isString =>
      cases Except.ok.inj defined
      have named := target_leaf_named schema spelled _ of leaf rfl
      refine InputType.object_writable _ _ _
        (leaf_description_single leaf "Filter type for " " scalar" named (by decide) (by decide)) (fun input member => ?_)
      rcases List.mem_append.mp member with operand | other
      · exact operand_single leaf isString input operand
      · simp only [List.mem_cons, List.not_mem_nil, or_false] at other
        rcases other with rfl | rfl | rfl | rfl | rfl
        all_goals exact none
  | negatedLeafFilter leaf isString =>
      cases Except.ok.inj defined
      have named := target_leaf_named schema spelled _ of leaf rfl
      exact InputType.object_writable _ _ _
        (leaf_description_single leaf "Filter type for $not of " " scalar" named (by decide) (by decide))
        (operand_single leaf isString)
  | deprecatedOperators | presenceOperators | sortDirections =>
      cases Except.ok.inj defined
      exact InputType.enum_writable _ _ _ (by simp [DeprecatedOperator.all, PresenceOperator.all, Direction.all]) none
        (List.forall_mem_map.mpr (fun _ _ => rfl))
  | page =>
      cases Except.ok.inj defined
      refine InputType.object_writable _ _ _ none (fun input member => ?_)
      simp only [List.mem_cons, List.not_mem_nil, or_false] at member
      rcases member with rfl | rfl
      all_goals exact none

theorem entry_defined (sound : schema.Sound) (session : Session) (reached : session.Reached schema) :
    ∀ entry ∈ session.registry.entries, ∃ target : Target, target.Of schema ∧ target.name schema = .ok entry.1 ∧
      target.definition schema = .ok entry.2 := by
  have explained := reached_explained schema sound spelled.leaves session reached
  intro entry member
  obtain ⟨target, settled⟩ := explained.settled entry.1 entry.2 (Registry.lookup_of_mem _ explained.sorted entry member)
  exact ⟨target, settled.allowed.of, settled.named, settled.defined⟩

theorem reached_writable (sound : schema.Sound) (writable : schema.Writable) (session : Session)
    (reached : session.Reached schema) : ∀ entry ∈ session.registry.entries, entry.2.Writable := by
  intro entry member
  obtain ⟨target, of, _, defined⟩ := entry_defined schema spelled sound session reached entry member
  exact definition_writable schema spelled writable target of entry.2 defined

end

-- For every schema read from text and every session of calls on it, if no enum that is registered is empty and no description
-- holds three quotes in a row, so that the blocks of the descriptions are the same where escaped quotes are unescaped.
theorem export_reads_back (text : String) (schema : Schema) (read : Schema.ofText text = .ok schema) (session : Session)
    (reached : session.Reached schema) (writable : ∀ entry ∈ session.registry.entries, entry.2.Writable) :
    (∃ definitions, List.Forall₂ (fun entry definition => entry.2.ReadsAs definition ∧ definition.name = entry.1)
        session.registry.entries definitions ∧
      Reader.document? (DocGraph.Reader.many Reader.definition) session.registry.text = some (definitions.map .type) ∧
      (session.registry.entries ≠ [] → definitionsOfText? session.registry.text = some (definitions.map .type))) ∧
    (∀ entry ∈ session.registry.entries, ∀ text, entry.2.description = some text ∨ text ∈ entry.2.memberDescriptions →
      ∀ indent tail, IsMargin indent →
        unescapedContent (around indent text.toList ++ '"' :: '"' :: '"' :: tail) = some (around indent text.toList, tail)) ∧
    ∀ text, valueWithin "\t" text = normal text ↔ level text = true := by
  have sound := Schema.sound_of_text text schema read
  have spelled := Schema.spelled_of_text text schema read
  refine ⟨?_, fun entry member text given indent tail margin => ?_, within_tab⟩
  case refine_2 =>
    have single := (writable entry member).single text given
    exact unescaped_content _ _ tail (around_content indent _ tail margin (unclosed_content _ single))
      (around_single indent _ margin single)
  obtain ⟨definitions, each, document⟩ := registry_reads session.registry (fun entry member => by
    obtain ⟨target, of, _, defined⟩ := entry_defined schema spelled sound session reached entry member
    exact definition_spelled schema spelled target of entry.2 defined) writable
  refine ⟨definitions, ?_, document⟩
  have named : ∀ entry ∈ session.registry.entries, entry.2.name = entry.1 := by
    intro entry member
    obtain ⟨target, _, named, defined⟩ := entry_defined schema spelled sound session reached entry member
    exact definition_name schema target entry.1 entry.2 named defined
  refine List.Forall₂.imp ?_ ((List.forall₂_and_left _ _).mpr ⟨named, each⟩)
  exact fun entry definition held => ⟨held.2, held.2.name.trans held.1⟩

def bookText : String :=
  "\"What a book is.\" enum Genre \x7b NOVEL POEM \x7d " ++
    "type Book \x7b \"As printed.\" title: String!, genres: [Genre!], sequel: Book \x7d"

def books : Schema where
  composites := [
    { name := "Book", kind := .object, fields := [
      { name := "title", type := .nonNull (.scalar .string), description := some "As printed." },
      { name := "genres", type := .list (.nonNull (.named (.enum ⟨0⟩))) },
      { name := "sequel", type := .named (.composite .object ⟨0⟩) }] }]
  enums := [{ name := "Genre", description := some "What a book is.", values := ["NOVEL", "POEM"] }]

def bookSession : Session := Session.run books {} [.composite .objectFilter ⟨0⟩ [], .composite .insert ⟨0⟩ []]

theorem book_types_exported : Schema.ofText bookText = .ok books ∧ bookSession.Reached books ∧ books.Writable ∧
    ∃ definitions : List TypeDefinition, definitionsOfText? bookSession.registry.text = some (definitions.map .type) ∧
      definitions.map TypeDefinition.name = ["BookInsertType", "BookObjectFilterType", "Genre",
        "GenreFilter", "GenreNotFilter", "Opr", "OprExists", "StringFilter", "StringNotFilter"] := by
  have read : Schema.ofText bookText = .ok books := by decide +kernel
  have filtered : (Session.run books {} [.composite .objectFilter ⟨0⟩ []]).Reached books :=
    .call {} (.composite .objectFilter ⟨0⟩ []) .fresh trivial
  have reached : bookSession.Reached books := .call _ (.composite .insert ⟨0⟩ []) filtered trivial
  have writable : books.Writable := ⟨by decide, by decide, by decide⟩
  have entries := reached_writable books (Schema.spelled_of_text bookText books read) (Schema.sound_of_text bookText books read)
    writable bookSession reached
  obtain ⟨definitions, each, _, whole⟩ := (export_reads_back bookText books read bookSession reached entries).1
  have keys : bookSession.registry.keys = ["BookInsertType", "BookObjectFilterType", "Genre",
      "GenreFilter", "GenreNotFilter", "Opr", "OprExists", "StringFilter", "StringNotFilter"] := by decide +kernel
  refine ⟨read, reached, writable, definitions, whole ?_, ?_⟩
  · intro none
    rw [Registry.keys, none] at keys
    cases keys
  · have named : List.Forall₂ (· = ·) (definitions.map TypeDefinition.name) bookSession.registry.keys := by
      rw [List.forall₂_map_left_iff, Registry.keys, List.forall₂_map_right_iff]
      exact each.flip.imp (fun _ _ held => held.2)
    rwa [List.forall₂_eq_eq_eq, keys] at named

def memberTexts : Definition → List String
  | .type definition =>
      match definition.body with
      | .input fields => fields.filterMap InputValueDefinition.description
      | .enum values => values.filterMap EnumValueDefinition.description
      | _ => []
  | _ => []

def quotedText : String := "\"Say \\\"\\\"\\\"\" enum Kind \x7b CHILD \x7d type Person \x7b kind: Kind \x7d"

def quoted : Schema where
  composites := [{ name := "Person", kind := .object, fields := [{ name := "kind", type := .named (.enum ⟨0⟩) }] }]
  enums := [{ name := "Kind", description := some "Say \"\"\"", values := ["CHILD"] }]

def emptiedText : String := "enum Kind type Person \x7b kind: Kind \x7d"

def emptied : Schema := { quoted with enums := [{ name := "Kind", values := [] }] }

def linesText : String := "type Node \x7b \"One.\\nTwo.\" next: Node \x7d"

def linked : Schema where
  composites := [{ name := "Node", kind := .object, fields := [
    { name := "next", type := .named (.composite .object ⟨0⟩), description := some "One.\nTwo." }] }]

def lineSession : Session := (Session.call linked {} (.composite .objectFilter ⟨0⟩ [])).1

-- An enum without values and a description with closing quotes make the document unreadable, and a description of two lines
-- comes back with a tab.
theorem exports_unfaithful :
    (Schema.ofText emptiedText = .ok emptied ∧
      definitionsOfText? (Session.call emptied {} (.composite .insert ⟨0⟩ [])).1.registry.text = none) ∧
    (Schema.ofText quotedText = .ok quoted ∧
      definitionsOfText? (Session.call quoted {} (.composite .insert ⟨0⟩ [])).1.registry.text = none) ∧
    Schema.ofText linesText = .ok linked ∧
      lineSession.registry.entries.flatMap (fun entry => entry.2.memberDescriptions) = ["One.\nTwo."] ∧
      normal "One.\nTwo." = "One.\nTwo." ∧
      (definitionsOfText? lineSession.registry.text).map (List.flatMap memberTexts) = some ["\tOne.\nTwo."] := by
  decide +kernel

end Derivation

end DocGraph
