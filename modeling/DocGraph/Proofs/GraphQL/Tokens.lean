import DocGraph.Proofs.GraphQL.Names

set_option autoImplicit false

namespace DocGraph

namespace Reader

variable {α β : Type}

theorem bind_reads (first : Reader α) (next : α → Reader β) (input middle : List Char) (part : α)
    (early : first input = some (part, middle)) : (first >>= next) input = next part middle := by
  change (first input).bind (fun read => next read.1 read.2) = _
  rw [early]
  rfl

theorem bind_stops (first : Reader α) (next : α → Reader β) (input : List Char) (early : first input = none) :
    (first >>= next) input = none := by
  change (first input).bind (fun read => next read.1 read.2) = none
  rw [early]
  rfl

theorem then_reads (first : Reader α) (next : Reader β) (input middle : List Char) (part : α)
    (early : first input = some (part, middle)) : (first *> next) input = next middle :=
  bind_reads first (fun _ => next) input middle part early

theorem then_stops (first : Reader α) (next : Reader β) (input : List Char) (early : first input = none) :
    (first *> next) input = none := bind_stops first (fun _ => next) input early

theorem map_reads (reader : Reader α) (f : α → β) (input rest : List Char) (value : α)
    (reads : reader input = some (value, rest)) : (f <$> reader) input = some (f value, rest) :=
  bind_reads reader (fun value => pure (f value)) input rest value reads

theorem map_stops (reader : Reader α) (f : α → β) (input : List Char) (stops : reader input = none) :
    (f <$> reader) input = none :=
  bind_stops reader (fun value => pure (f value)) input stops

theorem or_reads (first second : Reader α) (input : List Char) (read : α × List Char)
    (reads : first input = some read) : (first <|> second) input = some read := by
  change (first input).orElse (fun _ => second input) = some read
  rw [reads]
  rfl

theorem or_next (first second : Reader α) (input : List Char) (stops : first input = none) :
    (first <|> second) input = second input := by
  change (first input).orElse (fun _ => second input) = second input
  rw [stops]
  rfl

theorem optional_reads (reader : Reader α) (input rest : List Char) (value : α)
    (reads : reader input = some (value, rest)) : optional reader input = some (some value, rest) :=
  or_reads _ _ input _ (map_reads reader some input rest value reads)

theorem optional_skips (reader : Reader α) (input : List Char) (stops : reader input = none) :
    optional reader input = some (none, input) :=
  or_next _ _ input (map_stops reader some input stops)

inductive ReadsAll (item : Reader α) : List Char → List α → List Char → Prop where
  | done (rest : List Char) (stops : item rest = none) : ReadsAll item rest [] rest
  | next (input middle rest : List Char) (value : α) (values : List α) (reads : item input = some (value, middle))
      (shorter : middle.length < input.length) (others : ReadsAll item middle values rest) :
      ReadsAll item input (value :: values) rest

theorem up_to_reads (item : Reader α) (input rest : List Char) (values : List α)
    (all : ReadsAll item input values rest) (limit : Nat) (bound : input.length ≤ limit) :
    upTo item limit input = some (values, rest) := by
  induction all generalizing limit with
  | done rest stops =>
      cases limit with
      | zero => rfl
      | succ limit =>
          rw [upTo, or_next _ _ _ (bind_stops _ _ _ stops)]
          rfl
  | next input middle rest value values reads shorter others ih =>
      cases limit with
      | zero => omega
      | succ limit =>
          have later := ih limit (by omega)
          rw [upTo]
          apply or_reads
          rw [bind_reads _ _ _ _ _ reads, bind_reads _ _ _ _ _ later]
          rfl

theorem many_reads (item : Reader α) (input rest : List Char) (values : List α)
    (all : ReadsAll item input values rest) : many item input = some (values, rest) :=
  up_to_reads item input rest values all input.length (Nat.le_refl _)

theorem many1_reads (item : Reader α) (input rest : List Char) (values : List α) (filled : values ≠ [])
    (all : ReadsAll item input values rest) : many1 item input = some (values, rest) := by
  cases all with
  | done => exact absurd rfl filled
  | next _ middle _ value values reads _ others =>
      rw [many1, bind_reads _ _ _ _ _ reads, bind_reads _ _ _ _ _ (many_reads item middle rest values others)]
      rfl

theorem literal_reads (text : String) (rest : List Char) : literal text (text.toList ++ rest) = some ((), rest) := by
  rw [literal, (Text.after?_eq_some_iff _ _ _).mpr rfl]
  rfl

end Reader

theorem front_before (mark : Char) (text tail front rest : List Char) (plain : mark ∉ front)
    (same : text ++ mark :: tail = front ++ rest) : ∃ others, text = front ++ others := by
  rcases List.append_eq_append_iff.mp same with ⟨between, longer, ends⟩ | ⟨between, longer, _⟩
  · cases between with
    | nil => exact ⟨[], by simpa using longer.symm⟩
    | cons c others =>
        rw [List.cons_append, List.cons.injEq] at ends
        exact absurd (longer ▸ List.mem_append_right _ (ends.1 ▸ List.mem_cons_self ..)) plain
  · exact ⟨between, longer⟩

theorem after_stops (first : Char) (others text : List Char) (other : text.head? ≠ some first) :
    Text.after? (first :: others) text = none := by
  cases text with
  | nil => rfl
  | cons c rest =>
      have differs : first ≠ c := fun same => other (by rw [same]; rfl)
      rw [Text.after?, if_neg differs]

theorem after_differs (word start : List Char) (longer : ¬ start <+: word) (shorter : ¬ word <+: start) (tail : List Char) :
    Text.after? word (start ++ tail) = none := by
  rw [Option.eq_none_iff_forall_ne_some]
  intro rest found
  rcases List.append_eq_append_iff.mp ((Text.after?_eq_some_iff _ _ _).mp found) with ⟨between, whole, _⟩ | ⟨between, whole, _⟩
  · exact longer ⟨between, whole.symm⟩
  · exact shorter ⟨between, whole.symm⟩

namespace GraphQL

open DocGraph.Reader

def next? (input : List Char) : Option Char := (dropIgnored false input).head?

namespace Reader

theorem drop_blank (c : Char) (rest : List Char) (blank : isBlank c = true) :
    dropIgnored false (c :: rest) = dropIgnored false rest := by
  rw [dropIgnored, if_neg Bool.false_ne_true, if_pos blank]

theorem drop_token (c : Char) (rest : List Char) (shown : isBlank c = false) (code : c ≠ '#') :
    dropIgnored false (c :: rest) = c :: rest := by
  rw [dropIgnored, if_neg Bool.false_ne_true, shown, if_neg Bool.false_ne_true, if_neg (by simpa using code)]

theorem drop_blanks (lead rest : List Char) (blank : ∀ c ∈ lead, isBlank c = true) :
    dropIgnored false (lead ++ rest) = dropIgnored false rest := by
  induction lead with
  | nil => rfl
  | cons c others ih =>
      rw [List.cons_append, drop_blank c _ (blank c (List.mem_cons_self ..))]
      exact ih (fun other member => blank other (List.mem_cons_of_mem c member))

theorem symbol_eq (text : String) (input : List Char) : symbol text input = literal text (dropIgnored false input) := rfl

theorem symbol_reads (text : String) (input rest : List Char)
    (given : dropIgnored false input = text.toList ++ rest) : symbol text input = some ((), rest) := by
  rw [symbol_eq, given, literal_reads]

theorem symbol_stops (text : String) (input : List Char) (other : next? input ≠ text.toList.head?)
    (filled : text.toList ≠ []) : symbol text input = none := by
  rw [symbol_eq, literal, Option.map_eq_none_iff]
  cases spelled : text.toList with
  | nil => exact absurd spelled filled
  | cons first others =>
      rw [spelled] at other
      exact after_stops first others _ other

theorem name_start_shown (c : Char) (starts : isNameStart c = true) : isBlank c = false ∧ c ≠ '#' := by
  have apart (other : Char) (plain : isNameStart other = false) : c ≠ other := by
    rintro rfl
    exact absurd (starts.symm.trans plain) nofun
  constructor
  · simp [isBlank, isLineEnd, apart ' ' (by decide), apart ',' (by decide), apart '\t' (by decide),
      apart '\ufeff' (by decide), apart '\n' (by decide), apart '\r' (by decide)]
  · exact apart '#' (by decide)

theorem drop_name (name : String) (named : IsName name) (rest : List Char) :
    dropIgnored false (name.toList ++ rest) = name.toList ++ rest := by
  obtain ⟨first, others, spelled, starts, _⟩ := named
  obtain ⟨shown, code⟩ := name_start_shown first starts
  rw [spelled, List.cons_append, drop_token first _ shown code]

theorem bare_name_reads (name : String) (named : IsName name) (rest : List Char)
    (ends : ∀ c ∈ rest.head?, isNamePart c = false) : bareName (name.toList ++ rest) = some (name, rest) := by
  obtain ⟨first, others, spelled, starts, parts⟩ := named
  have cut : (others ++ rest).takeWhile isNamePart = others ∧ (others ++ rest).dropWhile isNamePart = rest := by
    have all : ∀ c ∈ others, isNamePart c = true := parts
    rw [List.takeWhile_append_of_pos all, List.dropWhile_append_of_pos all]
    cases rest with
    | nil => exact ⟨List.append_nil others, rfl⟩
    | cons c rest =>
        have other := ends c rfl
        rw [List.takeWhile_cons_of_neg (by simp [other]), List.dropWhile_cons_of_neg (by simp [other])]
        exact ⟨List.append_nil others, rfl⟩
  rw [spelled, List.cons_append, bareName, if_pos starts, cut.1, cut.2, ← spelled, String.ofList_toList]

theorem name_eq (input : List Char) : name input = bareName (dropIgnored false input) := rfl

theorem name_reads (text : String) (named : IsName text) (input rest : List Char)
    (given : dropIgnored false input = text.toList ++ rest) (ends : ∀ c ∈ rest.head?, isNamePart c = false) :
    name input = some (text, rest) := by
  rw [name_eq, given, bare_name_reads text named rest ends]

theorem bare_name_stops (input : List Char) (other : ∀ c ∈ input.head?, isNameStart c = false) :
    bareName input = none := by
  cases input with
  | nil => rfl
  | cons c rest => rw [bareName, other c rfl, if_neg Bool.false_ne_true]

theorem string_literal_eq (input : List Char) :
    stringLiteral input = (blockString <|> quotedString) (dropIgnored false input) := rfl

theorem quoted_string_eq (input : List Char) :
    quotedString ('"' :: input) = (quotedContent input).map (Prod.map String.ofList id) := by
  change (quotedContent input).bind (fun read => some (String.ofList read.1, read.2)) = _
  cases quotedContent input <;> rfl

theorem block_string_eq (input : List Char) :
    blockString ('"' :: '"' :: '"' :: input) = (blockContent input).map (Prod.map (String.ofList ∘ blockValue) id) := by
  change (blockContent input).bind (fun read => some (String.ofList (blockValue read.1), read.2)) = _
  cases blockContent input <;> rfl

theorem block_string_stops (input : List Char) (unopened : Text.after? ['"', '"', '"'] input = none) :
    blockString input = none := by
  rw [blockString, unopened]
  rfl

theorem string_literal_stops (input : List Char) (other : next? input ≠ some '"') : stringLiteral input = none := by
  rw [string_literal_eq, or_next _ _ _ (block_string_stops _ (after_stops '"' _ _ other)), quotedString,
    after_stops '"' _ _ other]
  rfl

end Reader

end GraphQL

end DocGraph
