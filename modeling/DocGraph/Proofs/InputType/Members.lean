import DocGraph.Proofs.GraphQL.BlockStrings
import DocGraph.Proofs.InputType.Reasons

set_option autoImplicit false

namespace DocGraph

open GraphQL

def GraphQL.TypeNode.text : TypeNode → String
  | .named name => name
  | .list of => "[" ++ of.text ++ "]"
  | .nonNull of => of.text ++ "!"

namespace GraphQL.Reader

open DocGraph.Reader

def baseAt (depth : Nat) : Reader TypeNode :=
  (TypeNode.named <$> bareName)
  <|> (do
    literal "["
    let of ← typeNodeAt depth
    literal "]"
    return .list of)

theorem marked_reads (depth : Nat) (base : TypeNode) (input tail : List Char)
    (reads : baseAt depth input = some (base, '!' :: tail)) :
    typeNodeAt (depth + 1) input = some (.nonNull base, tail) := by
  change (baseAt depth >>= fun base => (literal "!" *> pure (.nonNull base)) <|> pure base) input = _
  rw [bind_reads _ _ _ _ _ reads]
  exact or_reads _ _ _ _ (then_reads _ _ _ _ _ (literal_reads "!" tail))

theorem unmarked_reads (depth : Nat) (base : TypeNode) (input tail : List Char) (other : tail.head? ≠ some '!')
    (reads : baseAt depth input = some (base, tail)) : typeNodeAt (depth + 1) input = some (base, tail) := by
  have stops : literal "!" tail = none := by
    change (Text.after? ['!'] tail).map _ = none
    rw [after_stops '!' [] tail other]
    rfl
  change (baseAt depth >>= fun base => (literal "!" *> pure (.nonNull base)) <|> pure base) input = _
  rw [bind_reads _ _ _ _ _ reads, or_next _ _ _ (then_stops _ _ _ stops)]
  rfl

def TypeEnds (tail : List Char) : Prop := ∀ c ∈ tail.head?, isNamePart c = false ∧ c ≠ '!'

theorem named_base_reads (depth : Nat) (name : String) (named : IsName name) (tail : List Char)
    (ends : ∀ c ∈ tail.head?, isNamePart c = false) : baseAt depth (name.toList ++ tail) = some (.named name, tail) :=
  or_reads _ _ _ _ (map_reads _ _ _ _ _ (bare_name_reads name named tail ends))

theorem list_base_reads (depth : Nat) (of : TypeNode) (input tail : List Char)
    (reads : typeNodeAt depth input = some (of, ']' :: tail)) :
    baseAt depth ('[' :: input) = some (.list of, tail) := by
  have unnamed : (TypeNode.named <$> bareName) ('[' :: input) = none :=
    map_stops _ _ _ (bare_name_stops _ (by simp; decide))
  have opened : literal "[" ('[' :: input) = some ((), input) := literal_reads "[" input
  have closed : literal "]" (']' :: tail) = some ((), tail) := literal_reads "]" tail
  rw [baseAt, or_next _ _ _ unnamed, bind_reads _ _ _ _ _ opened, bind_reads _ _ _ _ _ reads, bind_reads _ _ _ _ _ closed]
  rfl

theorem type_node_at_reads (node : TypeNode) (proper : node.Proper) :
    ((∀ inner, node ≠ .nonNull inner) → ∀ depth tail, node.text.toList.length ≤ depth + 1 →
      (∀ c ∈ tail.head?, isNamePart c = false) → baseAt depth (node.text.toList ++ tail) = some (node, tail)) ∧
      ∀ depth tail, node.text.toList.length ≤ depth → TypeEnds tail →
        typeNodeAt depth (node.text.toList ++ tail) = some (node, tail) := by
  -- A type without a mark is read whole if it is read up to its mark.
  have whole (node : TypeNode) (filled : 0 < node.text.toList.length)
      (base : ∀ depth tail, node.text.toList.length ≤ depth + 1 → (∀ c ∈ tail.head?, isNamePart c = false) →
        baseAt depth (node.text.toList ++ tail) = some (node, tail)) (depth : Nat) (tail : List Char)
      (enough : node.text.toList.length ≤ depth) (ends : TypeEnds tail) :
      typeNodeAt depth (node.text.toList ++ tail) = some (node, tail) := by
    cases depth with
    | zero => omega
    | succ depth =>
        exact unmarked_reads depth node _ tail (fun marked => (ends '!' marked).2 rfl)
          (base depth tail enough (fun c last => (ends c last).1))
  induction node with
  | named name =>
      have base (depth : Nat) (tail : List Char) (_ : name.toList.length ≤ depth + 1)
          (ends : ∀ c ∈ tail.head?, isNamePart c = false) := named_base_reads depth name proper tail ends
      obtain ⟨first, others, spelled, _, _⟩ := id proper
      exact ⟨fun _ => base, whole (.named name) (by simp [TypeNode.text, spelled]) base⟩
  | list of ih =>
      have text : (TypeNode.list of).text.toList = '[' :: (of.text.toList ++ [']']) := by simp [TypeNode.text]
      have base (depth : Nat) (tail : List Char) (enough : (TypeNode.list of).text.toList.length ≤ depth + 1)
          (_ : ∀ c ∈ tail.head?, isNamePart c = false) :
          baseAt depth ((TypeNode.list of).text.toList ++ tail) = some (.list of, tail) := by
        have inner := (ih proper).2 depth (']' :: tail) (by rw [text] at enough; simp at enough; omega) (by simp [TypeEnds]; decide)
        rw [text, List.cons_append, List.append_assoc]
        exact list_base_reads depth of _ tail inner
      exact ⟨fun _ => base, whole (.list of) (by simp [text]) base⟩
  | nonNull of ih =>
      refine ⟨fun plain => absurd rfl (plain of), fun depth tail enough ends => ?_⟩
      have text : (TypeNode.nonNull of).text.toList = of.text.toList ++ ['!'] := by simp [TypeNode.text]
      rw [text] at enough ⊢
      cases depth with
      | zero => simp at enough
      | succ depth =>
          have base := (ih proper.1).1 proper.2 depth ('!' :: tail) (by simp at enough; omega) (by simp; decide)
          rw [List.append_assoc]
          exact marked_reads depth of _ tail base

theorem type_node_reads (node : TypeNode) (proper : node.Proper) (input tail : List Char)
    (given : dropIgnored false input = node.text.toList ++ tail) (ends : TypeEnds tail) :
    typeNode input = some (node, tail) := by
  change typeNodeAt ((dropIgnored false input).length + 1) (dropIgnored false input) = _
  rw [given]
  exact (type_node_at_reads node proper).2 _ tail (by simp; omega) ends

theorem drop_type (node : TypeNode) (proper : node.Proper) (tail : List Char) :
    dropIgnored false (node.text.toList ++ tail) = node.text.toList ++ tail := by
  induction node generalizing tail with
  | named name => exact drop_name name proper tail
  | list of _ =>
      rw [TypeNode.text, String.toList_append, String.toList_append, List.append_assoc, List.append_assoc]
      exact drop_token '[' _ rfl (by decide)
  | nonNull of ih =>
      rw [TypeNode.text, String.toList_append, List.append_assoc]
      exact ih proper.1 _

def Apart (input : List Char) : Prop := ∀ c ∈ next? input, c ∉ ['@', '(', '=', '\x7b']

theorem apart_stops (input : List Char) (apart : Apart input) (mark : Char) (among : mark ∈ ['@', '(', '=', '\x7b'])
    (text : String) (spelled : text.toList = [mark]) : symbol text input = none := by
  apply symbol_stops text input
  · intro same
    rw [spelled] at same
    exact apart mark same among
  · rw [spelled]
    exact List.cons_ne_nil _ _

theorem directives_stop (input : List Char) (other : next? input ≠ some '@') : directives true input = some ([], input) :=
  many_reads _ _ _ _ (.done input (bind_stops _ _ _ (symbol_stops "@" input other (by decide))))

theorem drop_line (rest : List Char) : dropIgnored false ('\n' :: rest) = dropIgnored false rest :=
  drop_blank '\n' rest rfl

theorem apart_line (rest : List Char) (apart : Apart rest) : Apart ('\n' :: rest) := by
  unfold Apart next?
  rw [drop_line]
  exact apart

end GraphQL.Reader

namespace Printer

open Reader GraphQL.Reader

def directives : Deprecation → List Directive
  | .active => []
  | .deprecated none => [⟨"deprecated", []⟩]
  | .deprecated (some reason) => [⟨"deprecated", [⟨"reason", .text reason⟩]⟩]

theorem deprecated_is_name : IsName "deprecated" := by decide

theorem reason_is_name : IsName "reason" := by decide

theorem shorter_behind (front : List Char) (given : front ≠ []) (rest : List Char) : rest.length < (front ++ rest).length := by
  have longer := List.length_pos_iff.mpr given
  rw [List.length_append]
  omega

theorem bare_directive_reads (tail : List Char) (apart : Apart tail) (ends : ∀ c ∈ tail.head?, isNamePart c = false) :
    directive true (" @deprecated".toList ++ tail) = some (⟨"deprecated", []⟩, tail) := by
  have sign : symbol "@" (" @deprecated".toList ++ tail) = some ((), "deprecated".toList ++ tail) :=
    symbol_reads "@" _ _ rfl
  have named : name ("deprecated".toList ++ tail) = some ("deprecated", tail) :=
    name_reads "deprecated" deprecated_is_name _ tail (drop_name "deprecated" deprecated_is_name tail) ends
  have none : arguments true tail = none := bind_stops _ _ _ (apart_stops tail apart '(' (by simp) "(" (by decide))
  rw [directive, bind_reads _ _ _ _ _ sign, bind_reads _ _ _ _ _ named, bind_reads _ _ _ _ _ (optional_skips _ _ none)]
  rfl

theorem reason_reads (reason : String) (kept : ∀ c ∈ reason.toList, Kept c) (tail : List Char) :
    argument true ("reason: ".toList ++ (literal reason ++ ')' :: tail)) = some (⟨"reason", .text reason⟩, ')' :: tail) := by
  have named : name ("reason: ".toList ++ (literal reason ++ ')' :: tail)) =
      some ("reason", ":".toList ++ ' ' :: (literal reason ++ ')' :: tail)) :=
    name_reads "reason" reason_is_name _ _ rfl (by simp; decide)
  have sign : symbol ":" (":".toList ++ ' ' :: (literal reason ++ ')' :: tail)) =
      some ((), ' ' :: (literal reason ++ ')' :: tail)) := symbol_reads ":" _ _ rfl
  have text : stringLiteral (' ' :: (literal reason ++ ')' :: tail)) = some (reason, ')' :: tail) := by
    rw [string_literal_eq, drop_blank ' ' _ rfl, ← string_literal_eq, literal_read, if_pos kept]
  have read : value true (' ' :: (literal reason ++ ')' :: tail)) = some (.text reason, ')' :: tail) := by
    have other : number (' ' :: (literal reason ++ ')' :: tail)) = none := rfl
    change valueAt true (_ + 1) _ = _
    rw [valueAt, or_next _ _ _ rfl, or_next _ _ _ (map_stops _ _ _ other)]
    exact or_reads _ _ _ _ (map_reads _ _ _ _ _ text)
  rw [argument, bind_reads _ _ _ _ _ named, bind_reads _ _ _ _ _ sign, bind_reads _ _ _ _ _ read]
  rfl

theorem reason_directive_reads (reason : String) (kept : ∀ c ∈ reason.toList, Kept c) (tail : List Char) :
    directive true (" @deprecated(reason: ".toList ++ (literal reason ++ ')' :: tail)) =
      some (⟨"deprecated", [⟨"reason", .text reason⟩]⟩, tail) := by
  have sign : symbol "@" (" @deprecated(reason: ".toList ++ (literal reason ++ ')' :: tail)) =
      some ((), "deprecated(reason: ".toList ++ (literal reason ++ ')' :: tail)) := symbol_reads "@" _ _ rfl
  have named : name ("deprecated(reason: ".toList ++ (literal reason ++ ')' :: tail)) =
      some ("deprecated", "(reason: ".toList ++ (literal reason ++ ')' :: tail)) :=
    name_reads "deprecated" deprecated_is_name _ _ rfl (by simp; decide)
  have opened : symbol "(" ("(reason: ".toList ++ (literal reason ++ ')' :: tail)) =
      some ((), "reason: ".toList ++ (literal reason ++ ')' :: tail)) := symbol_reads "(" _ _ rfl
  have closed : symbol ")" (')' :: tail) = some ((), tail) := symbol_reads ")" _ _ rfl
  have unnamed : name (')' :: tail) = none := rfl
  have last : argument true (')' :: tail) = none := bind_stops _ _ _ unnamed
  have listed : arguments true ("(reason: ".toList ++ (literal reason ++ ')' :: tail)) =
      some ([⟨"reason", .text reason⟩], tail) := by
    have read := reason_reads reason kept tail
    have shorter := shorter_behind ("reason: ".toList ++ literal reason) (by simp [literal]) (')' :: tail)
    rw [List.append_assoc] at shorter
    have all := ReadsAll.next _ _ _ _ _ read shorter (.done _ last)
    rw [arguments, enclosed, bind_reads _ _ _ _ _ opened, bind_reads _ _ _ _ _ (many1_reads _ _ _ _ (by simp) all),
      bind_reads _ _ _ _ _ closed]
    rfl
  rw [directive, bind_reads _ _ _ _ _ sign, bind_reads _ _ _ _ _ named, bind_reads _ _ _ _ _ (optional_reads _ _ _ _ listed)]
  rfl

theorem deprecation_reads (deprecation : Deprecation)
    (kept : ∀ reason, deprecation = .deprecated (some reason) → ∀ c ∈ reason.toList, Kept c) (rest : List Char)
    (apart : Apart rest) : GraphQL.Reader.directives true ((Printer.deprecation deprecation).toList ++ '\n' :: rest) =
      some (directives deprecation, '\n' :: rest) := by
  have stops : directive true ('\n' :: rest) = none :=
    bind_stops _ _ _ (apart_stops _ (apart_line rest apart) '@' (by simp) "@" (by decide))
  cases deprecation with
  | active => exact many_reads _ _ _ _ (.done _ stops)
  | deprecated given =>
      cases given with
      | none =>
          have read := bare_directive_reads ('\n' :: rest) (apart_line rest apart) (by simp; decide)
          have written : (Printer.deprecation (.deprecated none)).toList = " @deprecated".toList := rfl
          rw [written]
          exact many_reads _ _ _ _ (.next _ _ _ _ _ read (by simp) (.done _ stops))
      | some reason =>
          have read := reason_directive_reads reason (kept reason rfl) ('\n' :: rest)
          rw [deprecation_text, List.append_assoc, List.append_assoc, List.singleton_append]
          have shorter := shorter_behind (" @deprecated(reason: ".toList ++ (literal reason ++ [')'])) (by simp) ('\n' :: rest)
          rw [List.append_assoc, List.append_assoc, List.singleton_append] at shorter
          exact many_reads _ _ _ _ (.next _ _ _ _ _ read shorter (.done _ stops))

theorem description_start (indent : String) (margin : IsMargin indent.toList) (text : String) (lead tail : List Char)
    (blank : ∀ c ∈ lead, isBlank c = true) :
    dropIgnored false (lead ++ ((Printer.description indent (some text)).toList ++ tail)) =
      '"' :: '"' :: '"' :: (around indent.toList text.toList ++ '"' :: '"' :: '"' :: '\n' :: tail) := by
  have whole : Printer.description indent (some text) =
      indent ++ "\"\"\"\n" ++ indent ++ text ++ "\n" ++ indent ++ "\"\"\"\n" := rfl
  have quotes : "\"\"\"\n".toList = ['"', '"', '"', '\n'] := by decide
  have written : (Printer.description indent (some text)).toList ++ tail = indent.toList ++
      ('"' :: '"' :: '"' :: (around indent.toList text.toList ++ '"' :: '"' :: '"' :: '\n' :: tail)) := by
    simp only [whole, String.toList_append, quotes, feed_text, around, List.append_assoc, List.cons_append, List.nil_append]
  have spaces : ∀ c ∈ indent.toList, isBlank c = true := by
    rcases margin with same | same
    all_goals
      rw [same]
      simp
    rfl
  rw [written, drop_blanks lead _ blank, drop_blanks indent.toList _ spaces]
  exact drop_token '"' _ rfl (by decide)

theorem description_reads (indent : String) (margin : IsMargin indent.toList) (given : Option String)
    (unclosed : ∀ text ∈ given, blockContent text.toList = none) (lead tail : List Char) (blank : ∀ c ∈ lead, isBlank c = true)
    (other : next? tail ≠ some '"') : ∃ more, (∀ c ∈ more, isBlank c = true) ∧
      GraphQL.Reader.description (lead ++ ((Printer.description indent given).toList ++ tail)) =
        some (given.map (valueWithin indent), more ++ tail) := by
  cases given with
  | none =>
      refine ⟨lead, blank, ?_⟩
      have next : next? (lead ++ tail) ≠ some '"' := by rwa [next?, drop_blanks lead tail blank]
      exact optional_skips _ _ (string_literal_stops _ next)
  | some text =>
      refine ⟨['\n'], List.forall_mem_singleton.mpr rfl, optional_reads _ _ _ _ ?_⟩
      have content := around_content indent.toList text.toList ('\n' :: tail) margin (unclosed text rfl)
      rw [string_literal_eq, description_start indent margin text lead tail blank]
      apply or_reads
      rw [block_string_eq, content]
      rfl

theorem description_apart (indent : String) (margin : IsMargin indent.toList) (given : Option String) (tail : List Char)
    (apart : Apart tail) : Apart ((Printer.description indent given).toList ++ tail) := by
  cases given with
  | none => exact apart
  | some text =>
      have start := description_start indent margin text [] tail (by simp)
      rw [List.nil_append] at start
      unfold Apart next?
      rw [start]
      simp

theorem deprecation_cases (given : Deprecation) :
    (deprecation given).toList = [] ∨ ∃ more, (deprecation given).toList = ' ' :: '@' :: more := by
  cases given with
  | active => exact .inl rfl
  | deprecated reason =>
      right
      cases reason with
      | none => exact ⟨_, rfl⟩
      | some reason =>
          rw [deprecation_text]
          exact ⟨_, rfl⟩

theorem deprecation_ends (given : Deprecation) (rest : List Char) :
    ∀ c ∈ ((deprecation given).toList ++ '\n' :: rest).head?, isNamePart c = false ∧ c ≠ '!' := by
  rcases deprecation_cases given with none | ⟨more, some⟩
  · rw [none]
    simp
    decide
  · rw [some]
    simp
    decide

theorem deprecation_next (given : Deprecation) (rest : List Char) (apart : Apart rest) :
    symbol "=" ((deprecation given).toList ++ '\n' :: rest) = none := by
  rcases deprecation_cases given with none | ⟨more, some⟩
  · rw [none, List.nil_append]
    exact apart_stops _ (apart_line rest apart) '=' (by simp) "=" (by decide)
  · rw [some]
    rfl

theorem margin_tab : IsMargin "\t".toList := .inr tab_text

theorem member_name (text : String) (named : IsName text) (tail : List Char) :
    dropIgnored false ('\t' :: (text.toList ++ tail)) = text.toList ++ tail := by
  rw [drop_blank '\t' _ rfl, drop_name text named tail]

theorem name_next (text : String) (named : IsName text) (tail : List Char) :
    ∃ c, next? (text.toList ++ tail) = some c ∧ isNameStart c = true := by
  obtain ⟨first, others, spelled, starts, _⟩ := id named
  rw [next?, drop_name text named tail, spelled]
  exact ⟨first, rfl, starts⟩

theorem member_next (text : String) (named : IsName text) (tail : List Char) :
    ∃ c, next? ('\t' :: (text.toList ++ tail)) = some c ∧ isNameStart c = true := by
  rw [next?, drop_blank '\t' _ rfl]
  exact name_next text named tail

theorem name_apart (input : List Char) (c : Char) (next : next? input = some c) (starts : isNameStart c = true) : Apart input := by
  intro mark given among
  rw [next] at given
  cases given
  revert starts
  simp only [List.mem_cons, List.not_mem_nil, or_false] at among
  rcases among with rfl | rfl | rfl | rfl <;> decide

theorem member_apart (text : String) (named : IsName text) (tail : List Char) : Apart ('\t' :: (text.toList ++ tail)) := by
  obtain ⟨c, next, starts⟩ := member_next text named tail
  exact name_apart _ c next starts

theorem name_unquoted (input : List Char) (c : Char) (next : next? input = some c) (starts : isNameStart c = true) :
    next? input ≠ some '"' := by
  rw [next]
  rintro quote
  cases quote
  cases starts

theorem member_unquoted (text : String) (named : IsName text) (tail : List Char) :
    next? ('\t' :: (text.toList ++ tail)) ≠ some '"' := by
  obtain ⟨c, next, starts⟩ := member_next text named tail
  exact name_unquoted _ c next starts

end Printer

def TypeRef.Spelled (type : TypeRef) : Prop := ∃ node : TypeNode, node.Proper ∧ node.text = type.text

structure InputValue.Spelled (value : InputValue) : Prop where
  named : IsName value.name
  typed : value.type.Spelled
  kept : ∀ reason, value.deprecation = .deprecated (some reason) → ∀ c ∈ reason.toList, Printer.Kept c

structure InputValue.ReadsAs (value : InputValue) (definition : InputValueDefinition) : Prop where
  description : definition.description = value.description.map (valueWithin "\t")
  name : definition.name = value.name
  type : definition.type.text = value.type.text
  default : definition.default? = none
  directives : definition.directives = Printer.directives value.deprecation

namespace Printer

open Reader GraphQL.Reader

theorem input_value_text (value : InputValue) : (inputValue value).toList = (description "\t" value.description).toList ++
    '\t' :: (value.name.toList ++ (':' :: ' ' :: (value.type.text.toList ++
      ((deprecation value.deprecation).toList ++ ['\n'])))) := by
  have whole : inputValue value = description "\t" value.description ++
      ("\t" ++ value.name ++ ": " ++ value.type.text) ++ deprecation value.deprecation ++ "\n" := rfl
  have colon : ": ".toList = [':', ' '] := by decide
  simp only [whole, String.toList_append, tab_text, colon, feed_text, List.append_assoc, List.cons_append, List.nil_append]

theorem input_value_reads (value : InputValue) (spelled : value.Spelled)
    (unclosed : ∀ text ∈ value.description, blockContent text.toList = none) (rest : List Char) (apart : Apart rest) :
    ∃ definition, value.ReadsAs definition ∧
      inputValueDefinition ('\n' :: ((inputValue value).toList ++ rest)) = some (definition, '\n' :: rest) := by
  obtain ⟨node, proper, written⟩ := spelled.typed
  let typed := value.type.text.toList ++ ((deprecation value.deprecation).toList ++ '\n' :: rest)
  obtain ⟨more, blank, described⟩ := description_reads "\t" margin_tab value.description unclosed ['\n']
    ('\t' :: (value.name.toList ++ ':' :: ' ' :: typed)) (List.forall_mem_singleton.mpr rfl)
    (member_unquoted value.name spelled.named _)
  have named : name (more ++ '\t' :: (value.name.toList ++ ':' :: ' ' :: typed)) = some (value.name, ':' :: ' ' :: typed) := by
    apply name_reads value.name spelled.named
    · rw [drop_blanks more _ blank, member_name value.name spelled.named]
    · simp
      decide
  have sign : symbol ":" (':' :: ' ' :: typed) = some ((), ' ' :: typed) := symbol_reads ":" _ _ rfl
  have type : typeNode (' ' :: typed) = some (node, (deprecation value.deprecation).toList ++ '\n' :: rest) := by
    apply type_node_reads node proper
    · rw [drop_blank ' ' _ rfl, ← drop_type node proper, written]
    · exact deprecation_ends value.deprecation rest
  have none : optional (symbol "=" *> GraphQL.Reader.value true) ((deprecation value.deprecation).toList ++ '\n' :: rest) =
      some (none, (deprecation value.deprecation).toList ++ '\n' :: rest) :=
    optional_skips _ _ (then_stops _ _ _ (deprecation_next value.deprecation rest apart))
  have marks := deprecation_reads value.deprecation spelled.kept rest apart
  have text : '\n' :: ((inputValue value).toList ++ rest) = ['\n'] ++ ((description "\t" value.description).toList ++
      '\t' :: (value.name.toList ++ ':' :: ' ' :: typed)) := by
    simp [input_value_text, typed]
  refine ⟨⟨value.description.map (valueWithin "\t"), value.name, node, Option.none, directives value.deprecation⟩,
    ⟨rfl, rfl, written, rfl, rfl⟩, ?_⟩
  rw [text, inputValueDefinition, bind_reads _ _ _ _ _ described, bind_reads _ _ _ _ _ named, bind_reads _ _ _ _ _ sign,
    bind_reads _ _ _ _ _ type, bind_reads _ _ _ _ _ none, bind_reads _ _ _ _ _ marks]
  rfl

theorem word_stops (name : String) (free : IsEnumName name) (word : String) (among : word ∈ ["true", "false", "null"])
    (c : Char) (absent : c ∉ word.toList) (tail : List Char) : DocGraph.Reader.literal word (name.toList ++ c :: tail) = none := by
  rw [DocGraph.Reader.literal, Option.map_eq_none_iff, Option.eq_none_iff_forall_ne_some]
  intro rest found
  obtain ⟨others, longer⟩ := front_before c name.toList tail word.toList rest absent ((Text.after?_eq_some_iff _ _ _).mp found)
  have begins := (Text.after?_eq_some_iff word.toList name.toList others).mpr longer
  rw [free.2 word among] at begins
  cases begins

theorem enum_name_reads (name : String) (free : IsEnumName name) (input tail : List Char) (c : Char)
    (given : dropIgnored false input = name.toList ++ c :: tail) (ends : c = ' ' ∨ c = '\n') :
    enumName input = some (name, c :: tail) := by
  have absent (word : String) (among : word ∈ ["true", "false", "null"]) : c ∉ word.toList := by
    revert word
    rcases ends with rfl | rfl <;> decide
  have stops (word : String) (among : word ∈ ["true", "false", "null"]) :=
    word_stops name free word among c (absent word among) tail
  have words : (DocGraph.Reader.literal "true" <|> DocGraph.Reader.literal "false" <|> DocGraph.Reader.literal "null")
      (name.toList ++ c :: tail) = none := by
    rw [or_next _ _ _ (stops "true" (by simp)), or_next _ _ _ (stops "false" (by simp)), stops "null" (by simp)]
  have ahead : notAhead (DocGraph.Reader.literal "true" <|> DocGraph.Reader.literal "false" <|> DocGraph.Reader.literal "null")
      (name.toList ++ c :: tail) = some ((), name.toList ++ c :: tail) := by
    rw [notAhead, words]
  have shown : ∀ mark ∈ (c :: tail).head?, isNamePart mark = false := by
    rcases ends with rfl | rfl <;> simp <;> decide
  change (notAhead _ >>= fun _ => bareName) (dropIgnored false input) = _
  rw [given, bind_reads _ _ _ _ _ ahead, bare_name_reads name free.1 _ shown]

end Printer

structure EnumValue.Spelled (value : EnumValue) : Prop where
  named : IsEnumName value.name
  kept : ∀ reason, value.deprecation = .deprecated (some reason) → ∀ c ∈ reason.toList, Printer.Kept c

structure EnumValue.ReadsAs (value : EnumValue) (definition : EnumValueDefinition) : Prop where
  description : definition.description = value.description.map (valueWithin "\t")
  name : definition.name = value.name
  directives : definition.directives = Printer.directives value.deprecation

namespace Printer

open Reader GraphQL.Reader

theorem enum_value_text (value : EnumValue) : (enumValue value).toList = (description "\t" value.description).toList ++
    '\t' :: (value.name.toList ++ ((deprecation value.deprecation).toList ++ ['\n'])) := by
  have whole : enumValue value =
      description "\t" value.description ++ ("\t" ++ value.name) ++ deprecation value.deprecation ++ "\n" := rfl
  simp only [whole, String.toList_append, tab_text, feed_text, List.append_assoc, List.cons_append, List.nil_append]

theorem enum_value_reads (value : EnumValue) (spelled : value.Spelled)
    (unclosed : ∀ text ∈ value.description, blockContent text.toList = none) (rest : List Char) (apart : Apart rest) :
    ∃ definition, value.ReadsAs definition ∧
      enumValueDefinition ('\n' :: ((enumValue value).toList ++ rest)) = some (definition, '\n' :: rest) := by
  let marked := (deprecation value.deprecation).toList ++ '\n' :: rest
  have named := spelled.named.1
  obtain ⟨more, blank, described⟩ := description_reads "\t" margin_tab value.description unclosed ['\n']
    ('\t' :: (value.name.toList ++ marked)) (List.forall_mem_singleton.mpr rfl) (member_unquoted value.name named marked)
  have name : enumName (more ++ '\t' :: (value.name.toList ++ marked)) = some (value.name, marked) := by
    have given : dropIgnored false (more ++ '\t' :: (value.name.toList ++ marked)) = value.name.toList ++ marked := by
      rw [drop_blanks more _ blank, member_name value.name named]
    rcases deprecation_cases value.deprecation with none | ⟨others, some⟩
    · have plain : marked = '\n' :: rest := by simp [marked, none]
      rw [plain] at given ⊢
      exact enum_name_reads value.name spelled.named _ rest '\n' given (.inr rfl)
    · have spaced : marked = ' ' :: ('@' :: others ++ '\n' :: rest) := by simp [marked, some]
      rw [spaced] at given ⊢
      exact enum_name_reads value.name spelled.named _ _ ' ' given (.inl rfl)
  have marks := deprecation_reads value.deprecation spelled.kept rest apart
  have text : '\n' :: ((enumValue value).toList ++ rest) = ['\n'] ++ ((description "\t" value.description).toList ++
      '\t' :: (value.name.toList ++ marked)) := by
    simp [enum_value_text, marked]
  refine ⟨⟨value.description.map (valueWithin "\t"), value.name, directives value.deprecation⟩, ⟨rfl, rfl, rfl⟩, ?_⟩
  rw [text, enumValueDefinition, bind_reads _ _ _ _ _ described, bind_reads _ _ _ _ _ name, bind_reads _ _ _ _ _ marks]
  rfl

end Printer

end DocGraph
