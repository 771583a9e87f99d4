import DocGraph.Proofs.InputType.Members
import Mathlib.Data.List.Forall2

set_option autoImplicit false

namespace DocGraph

open GraphQL

namespace InputType

def description : InputType → Option String
  | .object type => type.description
  | .enum type => type.description

def memberDescriptions : InputType → List String
  | .object type => type.fields.filterMap InputValue.description
  | .enum type => type.values.filterMap EnumValue.description

structure Spelled (type : InputType) : Prop where
  named : IsName type.name
  fields : ∀ object, type = .object object → ∀ field ∈ object.fields, field.Spelled
  values : ∀ enum, type = .enum enum → ∀ value ∈ enum.values, value.Spelled

/-- What the printer takes for granted: enums have values, and no description holds three quotes in a row. -/
structure Writable (type : InputType) : Prop where
  filled : ∀ enum, type = .enum enum → enum.values ≠ []
  single : ∀ text, type.description = some text ∨ text ∈ type.memberDescriptions → tripleQuotes text.toList = false

inductive ReadsAsBody : InputType → TypeBody → Prop where
  | object (object : InputObject) (fields : List InputValueDefinition)
      (each : List.Forall₂ InputValue.ReadsAs object.fields fields) : ReadsAsBody (.object object) (.input fields)
  | enum (enum : InputEnum) (values : List EnumValueDefinition)
      (each : List.Forall₂ EnumValue.ReadsAs enum.values values) : ReadsAsBody (.enum enum) (.enum values)

structure ReadsAs (type : InputType) (definition : TypeDefinition) : Prop where
  extension : definition.extension = false
  description : definition.description = type.description.map normal
  name : definition.name = type.name
  directives : definition.directives = []
  body : type.ReadsAsBody definition.body

def keyword : InputType → String
  | .object _ => "input"
  | .enum _ => "enum"

def bodyText : InputType → String
  | .object type => if type.fields.isEmpty then "\n" else Printer.block (type.fields.map Printer.inputValue)
  | .enum type => Printer.block (type.values.map Printer.enumValue)

end InputType

namespace Printer

open Reader GraphQL.Reader

theorem margin_none : IsMargin "".toList := .inl (by decide)

theorem keyword_is_name (type : InputType) : IsName type.keyword := by
  have words : ∀ word ∈ ["input", "enum"], IsName word := by decide
  cases type <;> exact words _ (by simp [InputType.keyword])

theorem input_type_text (type : InputType) : (inputType type).toList = (Printer.description "" type.description).toList ++
    (type.keyword.toList ++ ' ' :: (type.name.toList ++ type.bodyText.toList)) := by
  have object : "input ".toList = "input".toList ++ [' '] := by decide
  have enum : "enum ".toList = "enum".toList ++ [' '] := by decide
  cases type with
  | object held =>
      have whole : inputType (.object held) = Printer.description "" held.description ++ ("input " ++ held.name) ++
          (InputType.object held).bodyText := rfl
      simp only [whole, InputType.description, InputType.keyword, InputType.name, String.toList_append, object,
        List.append_assoc, List.cons_append, List.nil_append]
  | enum held =>
      have whole : inputType (.enum held) = Printer.description "" held.description ++ ("enum " ++ held.name) ++
          (InputType.enum held).bodyText := rfl
      simp only [whole, InputType.description, InputType.keyword, InputType.name, String.toList_append, enum,
        List.append_assoc, List.cons_append, List.nil_append]

section

variable {α β : Type} (item : Reader β) (line : α → String) (readsAs : α → β → Prop) (members : List α)

theorem members_read (tail : List Char) (stops : item ('\n' :: '\x7d' :: tail) = none)
    (starts : ∀ member ∈ members, ∀ rest, Apart ((line member).toList ++ rest))
    (filled : ∀ member ∈ members, (line member).toList ≠ [])
    (reads : ∀ member ∈ members, ∀ rest, Apart rest →
      ∃ read, readsAs member read ∧ item ('\n' :: ((line member).toList ++ rest)) = some (read, '\n' :: rest)) :
    ∃ readings, List.Forall₂ readsAs members readings ∧
      ReadsAll item ('\n' :: ((members.flatMap (fun member => (line member).toList)) ++ '\x7d' :: tail)) readings
        ('\n' :: '\x7d' :: tail) := by
  induction members with
  | nil => exact ⟨[], .nil, .done _ stops⟩
  | cons member others ih =>
      obtain ⟨readings, each, all⟩ := ih (fun other among => starts other (List.mem_cons_of_mem member among))
        (fun other among => filled other (List.mem_cons_of_mem member among))
        (fun other among => reads other (List.mem_cons_of_mem member among))
      have apart : Apart ((others.flatMap (fun member => (line member).toList)) ++ '\x7d' :: tail) := by
        cases others with
        | nil =>
            intro c next
            cases next
            decide
        | cons next rest =>
            rw [List.flatMap_cons, List.append_assoc]
            exact starts next (by simp) _
      obtain ⟨reading, same, read⟩ := reads member (List.mem_cons_self ..) _ apart
      refine ⟨reading :: readings, .cons same each, ?_⟩
      rw [List.flatMap_cons, List.append_assoc]
      refine .next _ _ _ _ _ read ?_ all
      have longer := List.length_pos_iff.mpr (filled member (List.mem_cons_self ..))
      simp only [List.length_cons, List.length_append]
      omega

theorem block_text (lines : List String) :
    (block lines).toList = ' ' :: '\x7b' :: '\n' :: (lines.flatMap String.toList ++ ['\x7d', '\n']) := by
  have opened : " \x7b\n".toList = [' ', '\x7b', '\n'] := by decide
  have closed : "\x7d\n".toList = ['\x7d', '\n'] := by decide
  rw [block, String.toList_append, String.toList_append, String.toList_join, opened, closed]
  rfl

theorem block_reads (given : members ≠ []) (rest : List Char)
    (stops : item ('\n' :: '\x7d' :: '\n' :: rest) = none)
    (starts : ∀ member ∈ members, ∀ rest, Apart ((line member).toList ++ rest))
    (filled : ∀ member ∈ members, (line member).toList ≠ [])
    (reads : ∀ member ∈ members, ∀ rest, Apart rest →
      ∃ read, readsAs member read ∧ item ('\n' :: ((line member).toList ++ rest)) = some (read, '\n' :: rest)) :
    ∃ readings, List.Forall₂ readsAs members readings ∧
      contentOf (braced (many1 item)) ((block (members.map line)).toList ++ rest) = some (([], readings), '\n' :: rest) := by
  obtain ⟨readings, each, all⟩ := members_read item line readsAs members ('\n' :: rest) stops starts filled reads
  refine ⟨readings, each, ?_⟩
  have text : (block (members.map line)).toList ++ rest = ' ' :: '\x7b' :: '\n' ::
      (members.flatMap (fun member => (line member).toList) ++ '\x7d' :: '\n' :: rest) := by
    simp only [block_text, List.flatMap_map, List.append_assoc, List.cons_append, List.nil_append]
  have inside : many1 item ('\n' :: (members.flatMap (fun member => (line member).toList) ++ '\x7d' :: '\n' :: rest)) =
      some (readings, '\n' :: '\x7d' :: '\n' :: rest) := by
    apply many1_reads _ _ _ _ _ all
    rintro rfl
    exact given (List.forall₂_nil_right_iff.mp each)
  have opened : symbol "\x7b" (' ' :: '\x7b' :: '\n' ::
      (members.flatMap (fun member => (line member).toList) ++ '\x7d' :: '\n' :: rest)) = some ((), '\n' ::
      (members.flatMap (fun member => (line member).toList) ++ '\x7d' :: '\n' :: rest)) := symbol_reads "\x7b" _ _ rfl
  have closed : symbol "\x7d" ('\n' :: '\x7d' :: '\n' :: rest) = some ((), '\n' :: rest) := symbol_reads "\x7d" _ _ rfl
  have list : braced (many1 item) (' ' :: '\x7b' :: '\n' ::
      (members.flatMap (fun member => (line member).toList) ++ '\x7d' :: '\n' :: rest)) = some (readings, '\n' :: rest) := by
    rw [braced, enclosed, bind_reads _ _ _ _ _ opened, bind_reads _ _ _ _ _ inside, bind_reads _ _ _ _ _ closed]
    rfl
  have next : next? (' ' :: '\x7b' :: '\n' ::
      (members.flatMap (fun member => (line member).toList) ++ '\x7d' :: '\n' :: rest)) = some '\x7b' := rfl
  rw [text, contentOf, bind_reads _ _ _ _ _ (directives_stop _ (by rw [next]; decide)),
    bind_reads _ _ _ _ _ (optional_reads _ _ _ _ list)]
  rfl

end

theorem input_value_apart (value : InputValue) (named : IsName value.name) (rest : List Char) :
    Apart ((inputValue value).toList ++ rest) := by
  rw [input_value_text, List.append_assoc, List.cons_append, List.append_assoc]
  exact description_apart "\t" margin_tab _ _ (member_apart value.name named _)

theorem enum_value_apart (value : EnumValue) (named : IsName value.name) (rest : List Char) :
    Apart ((enumValue value).toList ++ rest) := by
  rw [enum_value_text, List.append_assoc, List.cons_append, List.append_assoc]
  exact description_apart "\t" margin_tab _ _ (member_apart value.name named _)

theorem member_ends (rest : List Char) :
    inputValueDefinition ('\n' :: '\x7d' :: rest) = none ∧ enumValueDefinition ('\n' :: '\x7d' :: rest) = none := ⟨rfl, rfl⟩

theorem object_body_reads (object : InputObject) (spelled : ∀ field ∈ object.fields, field.Spelled)
    (unclosed : ∀ text ∈ (InputType.object object).memberDescriptions, blockContent text.toList = none) (rest : List Char)
    (apart : Apart rest) : ∃ fields, List.Forall₂ InputValue.ReadsAs object.fields fields ∧
      contentOf (braced (many1 inputValueDefinition)) ((InputType.object object).bodyText.toList ++ rest) =
        some (([], fields), '\n' :: rest) := by
  cases shape : object.fields with
  | nil =>
      refine ⟨[], .nil, ?_⟩
      have text : (InputType.object object).bodyText.toList ++ rest = '\n' :: rest := by
        simp [InputType.bodyText, shape, feed_text]
      have after := apart_line rest apart
      have none : braced (many1 inputValueDefinition) ('\n' :: rest) = none :=
        bind_stops _ _ _ (apart_stops _ after '\x7b' (by simp) "\x7b" (by decide))
      rw [text, contentOf, bind_reads _ _ _ _ _ (directives_stop _ (fun same => after '@' same (by simp))),
        bind_reads _ _ _ _ _ (optional_skips _ _ none)]
      rfl
  | cons first others =>
      have text : (InputType.object object).bodyText = block (object.fields.map inputValue) := by
        simp [InputType.bodyText, shape]
      rw [text, ← shape]
      apply block_reads inputValueDefinition inputValue InputValue.ReadsAs object.fields (by simp [shape]) rest
        (member_ends ('\n' :: rest)).1
      · exact fun field member rest => input_value_apart field (spelled field member).named rest
      · intro field _
        simp [input_value_text]
      · intro field member rest apart
        exact input_value_reads field (spelled field member)
          (fun text given => unclosed text (List.mem_filterMap.mpr ⟨field, member, given⟩)) rest apart

theorem enum_body_reads (enum : InputEnum) (given : enum.values ≠ []) (spelled : ∀ value ∈ enum.values, value.Spelled)
    (unclosed : ∀ text ∈ (InputType.enum enum).memberDescriptions, blockContent text.toList = none) (rest : List Char) :
    ∃ values, List.Forall₂ EnumValue.ReadsAs enum.values values ∧
      contentOf (braced (many1 enumValueDefinition)) ((InputType.enum enum).bodyText.toList ++ rest) =
        some (([], values), '\n' :: rest) := by
  apply block_reads enumValueDefinition enumValue EnumValue.ReadsAs enum.values given rest (member_ends ('\n' :: rest)).2
  · exact fun value member rest => enum_value_apart value (spelled value member).named.1 rest
  · intro value _
    simp [enum_value_text]
  · intro value member rest apart
    exact enum_value_reads value (spelled value member)
      (fun text given => unclosed text (List.mem_filterMap.mpr ⟨value, member, given⟩)) rest apart

theorem keyword_unquoted (type : InputType) (tail : List Char) : next? (type.keyword.toList ++ tail) ≠ some '"' := by
  obtain ⟨c, next, starts⟩ := name_next type.keyword (keyword_is_name type) tail
  exact name_unquoted _ c next starts

theorem word_differs (type : InputType) (word : String)
    (among : word ∈ ["schema", "extend", "scalar", "type", "interface", "union"]) (more : List Char) :
    Text.after? word.toList (type.keyword.toList ++ more) = none := by
  have apart : ∀ start ∈ ["input", "enum"], ∀ word ∈ ["schema", "extend", "scalar", "type", "interface", "union"],
      ¬ start.toList <+: word.toList ∧ ¬ word.toList <+: start.toList := by decide
  have own : type.keyword ∈ ["input", "enum"] := by cases type <;> simp [InputType.keyword]
  exact after_differs _ _ (apart type.keyword own word among).1 (apart type.keyword own word among).2 more

section

variable (type : InputType) (lead : List Char) (blank : ∀ c ∈ lead, isBlank c = true) (tail : List Char)

def opening : List Char := (Printer.description "" type.description).toList ++ (type.keyword.toList ++ ' ' :: tail)

include blank

theorem keyword_stops (word : String) (differs : ∀ more, Text.after? word.toList (type.keyword.toList ++ more) = none)
    (unquoted : word.toList.head? ≠ some '"') (filled : word.toList ≠ []) : symbol word (lead ++ opening type tail) = none := by
  cases given : type.description with
  | none =>
      have start : dropIgnored false (lead ++ opening type tail) = type.keyword.toList ++ ' ' :: tail := by
        rw [drop_blanks lead _ blank, opening, given]
        exact drop_name type.keyword (keyword_is_name type) _
      rw [symbol_eq, start, DocGraph.Reader.literal, differs]
      rfl
  | some text =>
      have start := description_start "" margin_none text lead (type.keyword.toList ++ ' ' :: tail) blank
      apply symbol_stops word _ _ filled
      rw [next?, opening, given, start]
      exact fun same => unquoted same.symm

theorem type_stops (word : String) (content extension : Reader (List Directive × TypeBody))
    (unclosed : ∀ text ∈ type.description, blockContent text.toList = none)
    (differs : ∀ more, Text.after? word.toList (type.keyword.toList ++ more) = none) :
    typeOf word content extension (lead ++ opening type tail) = none := by
  obtain ⟨more, blanks, described⟩ := description_reads "" margin_none type.description unclosed lead
    (type.keyword.toList ++ ' ' :: tail) blank (keyword_unquoted type _)
  have other : symbol word (more ++ (type.keyword.toList ++ ' ' :: tail)) = none := by
    rw [symbol_eq, drop_blanks more _ blanks, drop_name type.keyword (keyword_is_name type), DocGraph.Reader.literal, differs]
    rfl
  have extends' : symbol "extend" (lead ++ opening type tail) = none :=
    keyword_stops type lead blank tail "extend" (word_differs type "extend" (by simp)) (by decide) (by decide)
  rw [typeOf, or_next, bind_stops _ _ _ extends']
  rw [opening, bind_reads _ _ _ _ _ described, bind_stops _ _ _ other]

theorem definition_of_type (unclosed : ∀ text ∈ type.description, blockContent text.toList = none)
    (definition : TypeDefinition) (rest : List Char)
    (reads : (enumType <|> GraphQL.Reader.inputType) (lead ++ opening type tail) = some (definition, rest)) :
    GraphQL.Reader.definition (lead ++ opening type tail) = some (.type definition, rest) := by
  have opened (word : String) (among : word ∈ ["schema", "extend"]) : symbol word (lead ++ opening type tail) = none := by
    apply keyword_stops type lead blank tail word (word_differs type word (by revert among; simp; tauto))
    · revert word
      decide
    · revert word
      decide
  have schema : schemaDefinition (lead ++ opening type tail) = none := by
    rw [schemaDefinition, or_next _ _ _ (bind_stops _ _ _ (opened "schema" (by simp))),
      bind_stops _ _ _ (opened "extend" (by simp))]
  have other (word : String) (among : word ∈ ["scalar", "type", "interface", "union"]) (content extension) :
      typeOf word content extension (lead ++ opening type tail) = none :=
    type_stops type lead blank tail word content extension unclosed (word_differs type word (by revert among; simp; tauto))
  have scalar : scalarType (lead ++ opening type tail) = none := other "scalar" (by simp) _ _
  have object : objectType (lead ++ opening type tail) = none := other "type" (by simp) _ _
  have interface : interfaceType (lead ++ opening type tail) = none := other "interface" (by simp) _ _
  have union : unionType (lead ++ opening type tail) = none := other "union" (by simp) _ _
  have typed : typeDefinition (lead ++ opening type tail) = some (definition, rest) := by
    rw [typeDefinition, or_next _ _ _ scalar, or_next _ _ _ object, or_next _ _ _ interface, or_next _ _ _ union, reads]
  rw [GraphQL.Reader.definition, or_next _ _ _ (map_stops _ _ _ schema)]
  exact or_reads _ _ _ _ (map_reads _ _ _ _ _ typed)

theorem type_reads (content extension : Reader (List Directive × TypeBody)) (named : IsName type.name)
    (unclosed : ∀ text ∈ type.description, blockContent text.toList = none) (directives : List Directive) (body : TypeBody)
    (rest : List Char) (ends : ∀ c ∈ tail.head?, isNamePart c = false)
    (reads : content tail = some ((directives, body), rest)) :
    typeOf type.keyword content extension (lead ++ opening type (type.name.toList ++ tail)) =
      some ({ extension := false, description := type.description.map normal, name := type.name, directives, body }, rest) := by
  obtain ⟨more, blanks, described⟩ := description_reads "" margin_none type.description unclosed lead
    (type.keyword.toList ++ ' ' :: (type.name.toList ++ tail)) blank (keyword_unquoted type _)
  have word : symbol type.keyword (more ++ (type.keyword.toList ++ ' ' :: (type.name.toList ++ tail))) =
      some ((), ' ' :: (type.name.toList ++ tail)) := by
    apply symbol_reads
    rw [drop_blanks more _ blanks, drop_name type.keyword (keyword_is_name type)]
  have name : GraphQL.Reader.name (' ' :: (type.name.toList ++ tail)) = some (type.name, tail) := by
    apply name_reads type.name named _ _ _ ends
    rw [drop_blank ' ' _ rfl, drop_name type.name named]
  apply or_reads
  rw [opening, bind_reads _ _ _ _ _ described, bind_reads _ _ _ _ _ word, bind_reads _ _ _ _ _ name, bind_reads _ _ _ _ _ reads]
  rfl

end

theorem body_ends (type : InputType) (rest : List Char) :
    ∀ c ∈ (type.bodyText.toList ++ rest).head?, isNamePart c = false := by
  have blank : isNamePart '\n' = false ∧ isNamePart ' ' = false := by decide
  cases type with
  | object object =>
      cases shape : object.fields with
      | nil => simp [InputType.bodyText, shape, feed_text, blank.1]
      | cons first others => simp [InputType.bodyText, shape, block_text, blank.2]
  | enum enum => simp [InputType.bodyText, block_text, blank.2]

theorem input_type_opening (type : InputType) (rest : List Char) :
    (inputType type).toList ++ rest = opening type (type.name.toList ++ (type.bodyText.toList ++ rest)) := by
  simp only [input_type_text, opening, List.append_assoc, List.cons_append]

theorem input_type_apart (type : InputType) (rest : List Char) : Apart ((inputType type).toList ++ rest) := by
  rw [input_type_opening]
  obtain ⟨c, next, starts⟩ := name_next type.keyword (keyword_is_name type)
    (' ' :: (type.name.toList ++ (type.bodyText.toList ++ rest)))
  exact description_apart "" margin_none _ _ (name_apart _ c next starts)

theorem definition_reads (type : InputType) (spelled : type.Spelled) (writable : type.Writable) (lead : List Char)
    (blank : ∀ c ∈ lead, isBlank c = true) (rest : List Char) (apart : Apart rest) :
    ∃ definition, type.ReadsAs definition ∧
      GraphQL.Reader.definition (lead ++ ((inputType type).toList ++ rest)) = some (.type definition, '\n' :: rest) := by
  rw [input_type_opening]
  have own : ∀ text ∈ type.description, blockContent text.toList = none :=
    fun text given => unclosed_content _ (writable.single text (.inl given))
  have members : ∀ text ∈ type.memberDescriptions, blockContent text.toList = none :=
    fun text given => unclosed_content _ (writable.single text (.inr given))
  have ends := body_ends type rest
  cases type with
  | object object =>
      obtain ⟨fields, each, content⟩ := object_body_reads object (spelled.fields object rfl) members rest apart
      have reads := type_reads (.object object) lead blank _ _
        (Prod.map id TypeBody.input <$> extensionOf (braced (many1 inputValueDefinition))) spelled.named own [] (.input fields)
        ('\n' :: rest) ends (map_reads _ (Prod.map id TypeBody.input) _ _ _ content)
      refine ⟨⟨false, object.description.map normal, object.name, [], .input fields⟩,
        ⟨rfl, rfl, rfl, rfl, .object object fields each⟩, definition_of_type (.object object) lead blank _ own _ _ ?_⟩
      have enum : enumType (lead ++ opening (.object object) (object.name.toList ++
          ((InputType.object object).bodyText.toList ++ rest))) = none :=
        type_stops (.object object) lead blank _ "enum" _ _ own (after_differs _ "input".toList (by decide) (by decide))
      exact (or_next _ _ _ enum).trans reads
  | enum held =>
      obtain ⟨values, each, content⟩ := enum_body_reads held (writable.filled held rfl) (spelled.values held rfl) members rest
      have reads := type_reads (.enum held) lead blank _ _
        (Prod.map id TypeBody.enum <$> extensionOf (braced (many1 enumValueDefinition))) spelled.named own [] (.enum values)
        ('\n' :: rest) ends (map_reads _ (Prod.map id TypeBody.enum) _ _ _ content)
      exact ⟨⟨false, held.description.map normal, held.name, [], .enum values⟩,
        ⟨rfl, rfl, rfl, rfl, .enum held values each⟩,
        definition_of_type (.enum held) lead blank _ own _ _ (or_reads _ _ _ _ reads)⟩

theorem definitions_read (types : List InputType) (given : types ≠ []) (spelled : ∀ type ∈ types, type.Spelled)
    (writable : ∀ type ∈ types, type.Writable) (lead : List Char) (blank : ∀ c ∈ lead, isBlank c = true) :
    ∃ definitions, List.Forall₂ InputType.ReadsAs types definitions ∧
      ReadsAll GraphQL.Reader.definition (lead ++ ['\n'].intercalate (types.map (fun type => (inputType type).toList)))
        (definitions.map Definition.type) ['\n'] := by
  have longer (type : InputType) (lead rest : List Char) :
      ('\n' :: rest).length < (lead ++ ((inputType type).toList ++ rest)).length := by
    have keyword : 1 ≤ type.keyword.toList.length := by
      obtain ⟨first, others, spelled, _⟩ := keyword_is_name type
      simp [spelled]
    simp only [input_type_text, List.length_append, List.length_cons]
    omega
  induction types generalizing lead with
  | nil => exact absurd rfl given
  | cons type others ih =>
      have mine := List.mem_cons_self (a := type) (l := others)
      cases others with
      | nil =>
          obtain ⟨definition, same, read⟩ := definition_reads type (spelled type mine) (writable type mine) lead blank []
            (by simp [Apart, next?, dropIgnored])
          refine ⟨[definition], .cons same .nil, ?_⟩
          have size := longer type lead []
          rw [List.append_nil] at read size
          rw [List.map_singleton, List.intercalate_singleton]
          exact .next _ _ _ _ _ read size (.done _ rfl)
      | cons next rest =>
          obtain ⟨definitions, each, all⟩ := ih (List.cons_ne_nil next rest)
            (fun other among => spelled other (List.mem_cons_of_mem type among))
            (fun other among => writable other (List.mem_cons_of_mem type among)) ['\n', '\n'] (List.all_eq_true.mp rfl)
          let behind := ['\n'].intercalate ((next :: rest).map (fun type => (inputType type).toList))
          have apart : Apart behind := by
            cases rest with
            | nil => simpa [behind] using input_type_apart next []
            | cons last more =>
                simp only [behind, List.map_cons, List.intercalate_cons_cons, List.append_assoc]
                exact input_type_apart next _
          obtain ⟨definition, same, read⟩ := definition_reads type (spelled type mine) (writable type mine) lead blank
            ('\n' :: behind) (apart_line behind apart)
          refine ⟨definition :: definitions, .cons same each, ?_⟩
          rw [List.map_cons, List.map_cons, List.intercalate_cons_cons, List.append_assoc]
          exact .next _ _ _ _ _ read (longer type lead _) all

end Printer

theorem registry_text (registry : Registry) : registry.text.toList =
    ['\n'].intercalate (registry.entries.map (fun entry => (Printer.inputType entry.2).toList)) := by
  rw [Registry.text, String.toList_intercalate, List.map_map, feed_text]
  rfl

theorem document_reads {α : Type} (item : Reader α) (text : String) (value : α) (rest : List Char)
    (reads : item text.toList = some (value, rest)) (ends : dropIgnored false rest = []) :
    GraphQL.Reader.document? item text = some value := by
  rw [GraphQL.Reader.document?, Reader.whole?, reads]
  simp [ends]

theorem registry_reads (registry : Registry) (spelled : ∀ entry ∈ registry.entries, entry.2.Spelled)
    (writable : ∀ entry ∈ registry.entries, entry.2.Writable) :
    ∃ definitions, List.Forall₂ (fun entry definition => entry.2.ReadsAs definition) registry.entries definitions ∧
      GraphQL.Reader.document? (DocGraph.Reader.many GraphQL.Reader.definition) registry.text =
        some (definitions.map Definition.type) ∧
      (registry.entries ≠ [] → definitionsOfText? registry.text = some (definitions.map Definition.type)) := by
  by_cases empty : registry.entries = []
  · refine ⟨[], empty ▸ .nil, ?_, fun given => absurd empty given⟩
    refine document_reads _ _ [] [] ?_ rfl
    rw [registry_text, empty]
    exact DocGraph.Reader.many_reads _ _ _ _ (.done [] rfl)
  · obtain ⟨definitions, each, all⟩ := Printer.definitions_read (registry.entries.map Prod.snd) (by simpa using empty)
      (List.forall_mem_map.mpr spelled) (List.forall_mem_map.mpr writable) [] (by simp)
    rw [List.nil_append, List.map_map] at all
    rw [List.forall₂_map_left_iff] at each
    have text : registry.text.toList = ['\n'].intercalate
        (registry.entries.map ((fun type => (Printer.inputType type).toList) ∘ Prod.snd)) := registry_text registry
    rw [← text] at all
    have some : definitions.map Definition.type ≠ [] := by
      intro none
      rw [List.map_eq_nil_iff.mp none] at each
      exact empty (List.forall₂_nil_right_iff.mp each)
    refine ⟨definitions, each, document_reads _ _ _ _ (DocGraph.Reader.many_reads _ _ _ _ all) rfl, fun _ => ?_⟩
    have document := document_reads _ _ _ _ (DocGraph.Reader.many1_reads _ _ _ _ some all) rfl
    have valid : (definitions.map Definition.type).all Definition.valid = true := by simp [Definition.valid]
    rw [definitionsOfText?, document]
    exact if_pos valid

end DocGraph
