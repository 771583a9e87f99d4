import DocGraph.GraphQL.Definitions
import Mathlib.Data.List.TakeWhile

set_option autoImplicit false

namespace DocGraph

namespace Reader

variable {α β : Type}

def Gives (reader : Reader α) (holds : α → Prop) : Prop :=
  ∀ input value rest, reader input = some (value, rest) → holds value

theorem gives_any (reader : Reader α) : Gives reader (fun _ => True) := fun _ _ _ _ => trivial

theorem gives_pure (value : α) (holds : α → Prop) (held : holds value) : Gives (pure value) holds := by
  intro input other rest read
  cases read
  exact held

theorem gives_bind (first : Reader α) (next : α → Reader β) (held : α → Prop) (holds : β → Prop)
    (early : Gives first held) (late : ∀ value, held value → Gives (next value) holds) :
    Gives (first >>= next) holds := by
  intro input value rest read
  obtain ⟨⟨part, middle⟩, begun, later⟩ := Option.bind_eq_some_iff.mp read
  exact late part (early input part middle begun) middle value rest later

theorem gives_then (first : Reader α) (next : α → Reader β) (holds : β → Prop)
    (late : ∀ value, Gives (next value) holds) : Gives (first >>= next) holds :=
  gives_bind first next _ holds (gives_any first) (fun value _ => late value)

theorem gives_map (reader : Reader α) (f : α → β) (held : α → Prop) (holds : β → Prop) (gives : Gives reader held)
    (carries : ∀ value, held value → holds (f value)) : Gives (f <$> reader) holds :=
  gives_bind reader (fun value => pure (f value)) held holds gives
    (fun value has => gives_pure (f value) holds (carries value has))

theorem gives_or (first second : Reader α) (holds : α → Prop) (left : Gives first holds)
    (right : Gives second holds) : Gives (first <|> second) holds := by
  intro input value rest read
  change (first input).orElse (fun _ => second input) = some (value, rest) at read
  cases here : first input with
  | some found => exact left input value rest (by rw [here] at read ⊢; exact read)
  | none => exact right input value rest (by rw [here] at read; exact read)

theorem or_stops (first second : Reader α) (input : List Char) (stops : (first <|> second) input = none) :
    first input = none ∧ second input = none := by
  change (first input).orElse (fun _ => second input) = none at stops
  cases here : first input with
  | some found => rw [here] at stops; cases stops
  | none => rw [here] at stops; exact ⟨rfl, stops⟩

theorem gives_optional (reader : Reader α) (holds : α → Prop) (gives : Gives reader holds) :
    Gives (optional reader) (fun found => ∀ value ∈ found, holds value) := by
  refine gives_or _ _ _ (gives_map reader some holds _ gives ?_) (gives_pure none _ (fun _ none => nomatch none))
  intro value held other same
  cases same
  exact held

theorem gives_up_to (item : Reader α) (holds : α → Prop) (gives : Gives item holds) (limit : Nat) :
    Gives (upTo item limit) (fun items => ∀ value ∈ items, holds value) := by
  induction limit with
  | zero => exact gives_pure [] _ (fun _ none => absurd none List.not_mem_nil)
  | succ limit ih =>
      refine gives_or _ _ _ ?_ (gives_pure [] _ (fun _ none => absurd none List.not_mem_nil))
      refine gives_bind item _ holds _ gives (fun first head => ?_)
      refine gives_bind _ _ _ _ ih (fun others tail => ?_)
      exact gives_pure _ _ (List.forall_mem_cons.mpr ⟨head, tail⟩)

theorem gives_many (item : Reader α) (holds : α → Prop) (gives : Gives item holds) :
    Gives (many item) (fun items => ∀ value ∈ items, holds value) :=
  gives_then get _ _ (fun text => gives_up_to item holds gives text.length)

theorem gives_many1 (item : Reader α) (holds : α → Prop) (gives : Gives item holds) :
    Gives (many1 item) (fun items => ∀ value ∈ items, holds value) := by
  refine gives_bind item _ holds _ gives (fun first head => ?_)
  refine gives_bind _ _ _ _ (gives_many item holds gives) (fun others tail => ?_)
  exact gives_pure _ _ (List.forall_mem_cons.mpr ⟨head, tail⟩)

theorem whole_gives (item : Reader α) (finish : List Char → List Char) (text : String) (holds : α → Prop)
    (gives : Gives item holds) (value : α) (read : item.whole? finish text = some value) : holds value := by
  unfold whole? at read
  split at read
  · rename_i found rest begun
    split at read
    · cases read
      exact gives _ value rest begun
    · cases read
  · cases read

end Reader

namespace GraphQL

open DocGraph.Reader

def IsName (name : String) : Prop :=
  ∃ first rest, name.toList = first :: rest ∧ isNameStart first = true ∧ ∀ c ∈ rest, isNamePart c = true

theorem is_name_iff (name : String) :
    IsName name ↔ name.toList.head?.any isNameStart = true ∧ name.toList.tail.all isNamePart = true := by
  unfold IsName
  cases name.toList with
  | nil => simp
  | cons first rest =>
      constructor
      · rintro ⟨_, _, same, starts, parts⟩
        cases same
        exact ⟨starts, List.all_eq_true.mpr parts⟩
      · exact fun ⟨starts, parts⟩ => ⟨first, rest, rfl, starts, List.all_eq_true.mp parts⟩

instance (name : String) : Decidable (IsName name) := decidable_of_iff _ (is_name_iff name).symm

def TypeNode.Proper : TypeNode → Prop
  | .named name => IsName name
  | .list of => of.Proper
  | .nonNull of => of.Proper ∧ ∀ inner, of ≠ .nonNull inner

def IsEnumName (name : String) : Prop :=
  IsName name ∧ ∀ word ∈ ["true", "false", "null"], Text.after? word.toList name.toList = none

instance (name : String) : Decidable (IsEnumName name) := inferInstanceAs (Decidable (_ ∧ _))

structure FieldDefinition.Proper (field : FieldDefinition) : Prop where
  named : IsName field.name
  typed : field.type.Proper

def TypeBody.fields : TypeBody → List FieldDefinition
  | .object _ fields | .interface _ fields => fields
  | _ => []

def TypeBody.values : TypeBody → List EnumValueDefinition
  | .enum values => values
  | _ => []

structure TypeBody.Proper (body : TypeBody) : Prop where
  fields : ∀ field ∈ body.fields, field.Proper
  values : ∀ value ∈ body.values, IsEnumName value.name

def Definition.Proper : Definition → Prop
  | .type definition => definition.body.Proper
  | _ => True

def Definition.IsNamed : Definition → Prop
  | .type definition => IsName definition.name
  | _ => True

namespace Reader

theorem bare_name_gives : Gives bareName IsName := by
  intro input name rest read
  cases input with
  | nil => cases read
  | cons first later =>
      by_cases starts : isNameStart first = true
      · rw [bareName, if_pos starts] at read
        cases read
        exact ⟨first, _, String.toList_ofList, starts, fun c member => List.mem_takeWhile_imp member⟩
      · rw [bareName, if_neg starts] at read
        cases read

theorem name_gives : Gives name IsName := gives_then ignored _ _ (fun _ => bare_name_gives)

theorem bare_name_rest (input rest : List Char) (name : String) (read : bareName input = some (name, rest)) :
    input = name.toList ++ rest := by
  cases input with
  | nil => cases read
  | cons first later =>
      by_cases starts : isNameStart first = true
      · rw [bareName, if_pos starts] at read
        cases read
        rw [String.toList_ofList, List.cons_append, List.takeWhile_append_dropWhile]
      · rw [bareName, if_neg starts] at read
        cases read

theorem enum_name_gives : Gives enumName IsEnumName := by
  refine gives_then _ _ _ (fun _ => ?_)
  intro input name rest read
  obtain ⟨⟨_, middle⟩, free, later⟩ := Option.bind_eq_some_iff.mp read
  have words : (DocGraph.Reader.literal "true" <|> DocGraph.Reader.literal "false" <|> DocGraph.Reader.literal "null") input =
      none ∧ middle = input := by
    unfold notAhead at free
    split at free
    · cases free
    · rename_i none
      cases free
      exact ⟨none, rfl⟩
  obtain ⟨none, rfl⟩ := words
  refine ⟨bare_name_gives _ name rest later, fun word among => ?_⟩
  rw [Option.eq_none_iff_forall_ne_some]
  intro others begins
  -- What the name begins with, the text begins with.
  have ahead : Text.after? word.toList middle = some (others ++ rest) := by
    rw [Text.after?_eq_some_iff, bare_name_rest middle rest name later, ← List.append_assoc,
      ← (Text.after?_eq_some_iff _ _ _).mp begins]
  have found : DocGraph.Reader.literal word middle = some ((), others ++ rest) := by rw [DocGraph.Reader.literal, ahead]; rfl
  obtain ⟨first, others⟩ := or_stops _ _ middle none
  obtain ⟨second, third⟩ := or_stops _ _ middle others
  simp only [List.mem_cons, List.not_mem_nil, or_false] at among
  rcases among with rfl | rfl | rfl
  · cases first.symm.trans found
  · cases second.symm.trans found
  · cases third.symm.trans found

theorem type_node_at_gives (depth : Nat) : Gives (typeNodeAt depth) TypeNode.Proper := by
  induction depth with
  | zero =>
      intro input node rest read
      cases read
  | succ depth ih =>
      -- What comes before the mark is a name or a list.
      refine gives_bind _ _ (fun base => base.Proper ∧ ∀ inner, base ≠ .nonNull inner) _ ?_ (fun base proper => ?_)
      · refine gives_or _ _ _ ?_ ?_
        · exact gives_map _ _ _ _ bare_name_gives (fun name named => ⟨named, nofun⟩)
        · refine gives_then _ _ _ (fun opened => ?_)
          refine gives_bind _ _ _ _ ih (fun inner proper => ?_)
          exact gives_then _ _ _ (fun closed => gives_pure _ _ ⟨proper, nofun⟩)
      · refine gives_or _ _ _ ?_ (gives_pure _ _ proper.1)
        exact gives_then _ _ _ (fun mark => gives_pure _ _ proper)

theorem type_node_gives : Gives typeNode TypeNode.Proper :=
  gives_then _ _ _ (fun _ => gives_then _ _ _ (fun _ => type_node_at_gives _))

theorem field_definition_gives : Gives fieldDefinition FieldDefinition.Proper := by
  refine gives_then _ _ _ (fun description => ?_)
  refine gives_bind _ _ _ _ name_gives (fun name named => ?_)
  refine gives_then _ _ _ (fun arguments => ?_)
  refine gives_then _ _ _ (fun colon => ?_)
  refine gives_bind _ _ _ _ type_node_gives (fun type typed => ?_)
  refine gives_then _ _ _ (fun directives => ?_)
  exact gives_pure _ _ ⟨named, typed⟩

theorem field_definitions_give : Gives fieldDefinitions (fun fields => ∀ field ∈ fields, field.Proper) := by
  refine gives_then _ _ _ (fun opened => ?_)
  refine gives_bind _ _ _ _ (gives_many1 _ _ field_definition_gives) (fun fields named => ?_)
  refine gives_then _ _ _ (fun closed => ?_)
  exact gives_pure _ _ named

theorem enum_value_definition_gives : Gives enumValueDefinition (fun value => IsEnumName value.name) := by
  refine gives_then _ _ _ (fun description => ?_)
  refine gives_bind _ _ _ _ enum_name_gives (fun name named => ?_)
  exact gives_then _ _ _ (fun directives => gives_pure _ _ named)

theorem enum_value_definitions_give :
    Gives (braced (many1 enumValueDefinition)) (fun values => ∀ value ∈ values, IsEnumName value.name) := by
  refine gives_then _ _ _ (fun opened => ?_)
  refine gives_bind _ _ _ _ (gives_many1 _ _ enum_value_definition_gives) (fun values named => ?_)
  exact gives_then _ _ _ (fun closed => gives_pure _ _ named)

variable {α : Type}

theorem content_gives (members : Reader (List α)) (holds : α → Prop)
    (gives : Gives members (fun items => ∀ item ∈ items, holds item)) :
    Gives (contentOf members) (fun content => ∀ item ∈ content.2, holds item) := by
  refine gives_then _ _ _ (fun directives => ?_)
  refine gives_bind _ _ _ _ (gives_optional members _ gives) (fun found each => gives_pure _ _ ?_)
  cases found with
  | none => exact fun item none => absurd none List.not_mem_nil
  | some items => exact each items rfl

theorem extension_gives (members : Reader (List α)) (holds : α → Prop)
    (gives : Gives members (fun items => ∀ item ∈ items, holds item)) :
    Gives (extensionOf members) (fun content => ∀ item ∈ content.2, holds item) := by
  refine gives_or _ _ _ ?_ ?_
  · refine gives_then _ _ _ (fun directives => ?_)
    exact gives_bind _ _ _ _ gives (fun items each => gives_pure _ _ each)
  · exact gives_then _ _ _ (fun directives => gives_pure _ _ (fun item none => absurd none List.not_mem_nil))

theorem proper_fields (fields : List FieldDefinition) (each : ∀ field ∈ fields, field.Proper) (interfaces : List String) :
    (TypeBody.object interfaces fields).Proper ∧ (TypeBody.interface interfaces fields).Proper :=
  ⟨⟨each, fun _ none => absurd none List.not_mem_nil⟩, ⟨each, fun _ none => absurd none List.not_mem_nil⟩⟩

theorem proper_empty (body : TypeBody) (fields : body.fields = []) (values : body.values = []) : body.Proper :=
  ⟨fun _ none => absurd (fields ▸ none) List.not_mem_nil, fun _ none => absurd (values ▸ none) List.not_mem_nil⟩

theorem with_interfaces_gives (body : List String → List FieldDefinition → TypeBody)
    (rest : Reader (List Directive × List FieldDefinition))
    (proper : ∀ interfaces fields, (∀ field ∈ fields, field.Proper) → (body interfaces fields).Proper)
    (gives : Gives rest (fun content => ∀ field ∈ content.2, field.Proper)) :
    Gives (withInterfaces body rest) (fun content => content.2.Proper) := by
  refine gives_then _ _ _ (fun interfaces => ?_)
  exact gives_bind _ _ _ _ gives (fun content each => gives_pure _ _ (proper _ _ each))

theorem type_gives (keyword : String) (content extension : Reader (List Directive × TypeBody))
    (defines : Gives content (fun content => content.2.Proper)) (extends' : Gives extension (fun content => content.2.Proper)) :
    Gives (typeOf keyword content extension) (fun definition => definition.body.Proper) := by
  refine gives_or _ _ _ ?_ ?_
  · refine gives_then _ _ _ (fun description => ?_)
    refine gives_then _ _ _ (fun word => ?_)
    refine gives_then _ _ _ (fun name => ?_)
    exact gives_bind _ _ _ _ defines (fun content proper => gives_pure _ _ proper)
  · refine gives_then _ _ _ (fun word => ?_)
    refine gives_then _ _ _ (fun again => ?_)
    refine gives_then _ _ _ (fun name => ?_)
    exact gives_bind _ _ _ _ extends' (fun content proper => gives_pure _ _ proper)

theorem listed_type_gives (keyword : String) (body : List α → TypeBody) (members : Reader (List α)) (holds : α → Prop)
    (gives : Gives members (fun items => ∀ item ∈ items, holds item))
    (proper : ∀ items, (∀ item ∈ items, holds item) → (body items).Proper) :
    Gives (listedType keyword body members) (fun definition => definition.body.Proper) := by
  refine type_gives _ _ _ ?_ ?_
  · exact gives_map _ _ _ _ (content_gives members holds gives) (fun content each => proper content.2 each)
  · exact gives_map _ _ _ _ (extension_gives members holds gives) (fun content each => proper content.2 each)

theorem scalar_type_gives : Gives scalarType (fun definition => definition.body.Proper) := by
  refine type_gives _ _ _ ?_ ?_
  · exact gives_then _ _ _ (fun directives => gives_pure _ _ (proper_empty _ rfl rfl))
  · exact gives_then _ _ _ (fun directives => gives_pure _ _ (proper_empty _ rfl rfl))

theorem object_type_gives : Gives objectType (fun definition => definition.body.Proper) := by
  have proper (interfaces : List String) (fields : List FieldDefinition) (each : ∀ field ∈ fields, field.Proper) :=
    (proper_fields fields each interfaces).1
  refine type_gives _ _ _ ?_ ?_
  · exact with_interfaces_gives _ _ proper (content_gives _ _ field_definitions_give)
  · refine gives_or _ _ _ ?_ ?_
    · exact with_interfaces_gives _ _ proper (extension_gives _ _ field_definitions_give)
    · exact gives_then _ _ _ (fun names => gives_pure _ _ (proper_empty _ rfl rfl))

theorem interface_type_gives : Gives interfaceType (fun definition => definition.body.Proper) := by
  have proper (interfaces : List String) (fields : List FieldDefinition) (each : ∀ field ∈ fields, field.Proper) :=
    (proper_fields fields each interfaces).2
  refine type_gives _ _ _ ?_ ?_
  · exact with_interfaces_gives _ _ proper (content_gives _ _ field_definitions_give)
  · exact with_interfaces_gives _ _ proper (extension_gives _ _ field_definitions_give)

theorem enum_type_gives : Gives enumType (fun definition => definition.body.Proper) :=
  listed_type_gives _ _ _ _ enum_value_definitions_give (fun _ each => ⟨fun _ none => absurd none List.not_mem_nil, each⟩)

theorem type_definition_gives : Gives typeDefinition (fun definition => definition.body.Proper) := by
  have any {β : Type} (members : Reader (List β)) : Gives members (fun items => ∀ item ∈ items, True) :=
    fun _ _ _ _ _ _ => trivial
  refine gives_or _ _ _ scalar_type_gives ?_
  refine gives_or _ _ _ object_type_gives ?_
  refine gives_or _ _ _ interface_type_gives ?_
  refine gives_or _ _ _ (listed_type_gives _ _ _ _ (any _) (fun _ _ => proper_empty _ rfl rfl)) ?_
  exact gives_or _ _ _ enum_type_gives (listed_type_gives _ _ _ _ (any _) (fun _ _ => proper_empty _ rfl rfl))

theorem definition_gives : Gives definition Definition.Proper := by
  refine gives_or _ _ _ ?_ ?_
  · exact gives_map _ _ _ _ (gives_any _) (fun _ _ => trivial)
  · refine gives_or _ _ _ ?_ ?_
    · exact gives_map _ _ _ _ type_definition_gives (fun _ proper => proper)
    · exact gives_map _ _ _ _ (gives_any _) (fun _ _ => trivial)

theorem type_named (keyword : String) (content extension : Reader (List Directive × TypeBody)) :
    Gives (typeOf keyword content extension) (fun definition => IsName definition.name) := by
  refine gives_or _ _ _ ?_ ?_
  · refine gives_then _ _ _ (fun description => ?_)
    refine gives_then _ _ _ (fun word => ?_)
    refine gives_bind _ _ _ _ name_gives (fun name named => ?_)
    exact gives_then _ _ _ (fun content => gives_pure _ _ named)
  · refine gives_then _ _ _ (fun word => ?_)
    refine gives_then _ _ _ (fun again => ?_)
    refine gives_bind _ _ _ _ name_gives (fun name named => ?_)
    exact gives_then _ _ _ (fun content => gives_pure _ _ named)

theorem type_definition_named : Gives typeDefinition (fun definition => IsName definition.name) := by
  refine gives_or _ _ _ (type_named _ _ _) ?_
  refine gives_or _ _ _ (type_named _ _ _) ?_
  refine gives_or _ _ _ (type_named _ _ _) ?_
  refine gives_or _ _ _ (type_named _ _ _) ?_
  exact gives_or _ _ _ (type_named _ _ _) (type_named _ _ _)

theorem definition_named : Gives definition Definition.IsNamed := by
  refine gives_or _ _ _ ?_ ?_
  · exact gives_map _ _ _ _ (gives_any _) (fun _ _ => trivial)
  · refine gives_or _ _ _ ?_ ?_
    · exact gives_map _ _ _ _ type_definition_named (fun _ named => named)
    · exact gives_map _ _ _ _ (gives_any _) (fun _ _ => trivial)

end Reader

theorem definitions_give (holds : Definition → Prop) (gives : Gives Reader.definition holds) (text : String)
    (definitions : List Definition) (read : definitionsOfText? text = some definitions) :
    ∀ definition ∈ definitions, holds definition := by
  obtain ⟨found, whole, valid⟩ := Option.bind_eq_some_iff.mp read
  split at valid
  · cases valid
    exact whole_gives _ _ text _ (gives_many1 _ _ gives) definitions whole
  · cases valid

theorem definitions_proper (text : String) (definitions : List Definition)
    (read : definitionsOfText? text = some definitions) : ∀ definition ∈ definitions, definition.Proper :=
  definitions_give _ Reader.definition_gives text definitions read

theorem definitions_named (text : String) (definitions : List Definition)
    (read : definitionsOfText? text = some definitions) : ∀ definition ∈ definitions, definition.IsNamed :=
  definitions_give _ Reader.definition_named text definitions read

end GraphQL

end DocGraph
