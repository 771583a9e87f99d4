import DocGraph.InputType.Printer
import DocGraph.Proofs.GraphQL.Tokens

set_option autoImplicit false

namespace DocGraph

open GraphQL

namespace Printer

-- The characters that a quoted literal keeps.
def Kept (c : Char) : Prop := c ∈ ['\t', '\n', '\r'] ∨ ' ' ≤ c ∧ c ≤ '~' ∧ c ≠ '\''

instance (c : Char) : Decidable (Kept c) := inferInstanceAs (Decidable (_ ∨ _))

instance (text : List Char) : Decidable (∀ c ∈ text, Kept c) := List.decidableBAll Kept text

def literal (text : String) : List Char := '"' :: (escape text).toList ++ ['"']

def before (c : Char) (read : List Char × List Char) : List Char × List Char := (c :: read.1, read.2)

theorem quoted_mark (mark c : Char) (tail : List Char) (plain : mark ≠ 'u') (stands : Text.escaped? mark = some c) :
    quotedContent ('\\' :: mark :: tail) = (quotedContent tail).map (before c) := by
  rw [quotedContent, stands]
  · cases quotedContent tail <;> rfl
  · exact fun _ _ _ _ _ same _ => plain same

theorem quoted_char (c : Char) (tail : List Char) (quote : c ≠ '"') (escape : c ≠ '\\') (inLine : isLineEnd c = false) :
    quotedContent (c :: tail) = (quotedContent tail).map (before c) := by
  rw [quotedContent, inLine, if_neg (by simpa using escape)]
  · cases quotedContent tail <;> rfl
  · exact quote
  · exact fun _ _ _ _ _ same _ => escape same
  · exact fun _ _ same _ => escape same

theorem quoted_code (tail : List Char) : quotedContent ('\\' :: 'u' :: '\x7b' :: tail) = none := by
  match tail with
  | [] | [_] | [_, _] => rfl
  | b :: c :: d :: rest =>
      rw [quotedContent]
      rfl

theorem quoted_escape_char (c : Char) (tail : List Char) :
    quotedContent ((escapeChar c).toList ++ tail) = if Kept c then (quotedContent tail).map (before c) else none := by
  unfold escapeChar
  split
  · exact quoted_mark 't' '\t' tail (by decide) rfl
  · exact quoted_mark 'r' '\r' tail (by decide) rfl
  · exact quoted_mark 'n' '\n' tail (by decide) rfl
  · rw [if_neg (by decide)]
    rfl
  · exact quoted_mark '"' '"' tail (by decide) rfl
  · exact quoted_mark '\\' '\\' tail (by decide) rfl
  · rename_i tab carriage feed apostrophe quote escape
    have inLine : isLineEnd c = false := by
      rw [isLineEnd, Bool.or_eq_false_iff, beq_eq_false_iff_ne, beq_eq_false_iff_ne]
      exact ⟨feed, carriage⟩
    by_cases printable : isPrintable c = true
    · have kept : Kept c := by
        obtain ⟨above, below⟩ := of_decide_eq_true printable
        exact .inr ⟨above, below, apostrophe⟩
      rw [if_pos printable, if_pos kept, String.toList_singleton]
      exact quoted_char c tail quote escape inLine
    · have lost : ¬ Kept c := by
        rintro (blank | ⟨above, below, _⟩)
        · simp only [List.mem_cons, List.not_mem_nil, or_false] at blank
          rcases blank with rfl | rfl | rfl
          · exact tab rfl
          · exact feed rfl
          · exact carriage rfl
        · exact printable (decide_eq_true ⟨above, below⟩)
      rw [if_neg printable, if_neg lost, String.toList_append, String.toList_append, List.append_assoc, List.append_assoc]
      exact quoted_code _

theorem quoted_escape (text : List Char) (rest : List Char) :
    quotedContent ((text.flatMap (fun c => (escapeChar c).toList)) ++ '"' :: rest) =
      if ∀ c ∈ text, Kept c then some (text, rest) else none := by
  induction text with
  | nil => rfl
  | cons c others ih =>
      rw [List.flatMap_cons, List.append_assoc, quoted_escape_char, ih]
      by_cases kept : Kept c
      · by_cases later : ∀ c ∈ others, Kept c
        · rw [if_pos kept, if_pos later, if_pos (List.forall_mem_cons.mpr ⟨kept, later⟩)]
          rfl
        · rw [if_pos kept, if_neg later, if_neg (fun all => later (List.forall_mem_cons.mp all).2)]
          rfl
      · rw [if_neg kept, if_neg (fun all => kept (List.forall_mem_cons.mp all).1)]

theorem escape_text (text : String) : (escape text).toList = text.toList.flatMap (fun c => (escapeChar c).toList) := by
  rw [escape, String.toList_join, List.flatMap_map]

theorem escape_char_head (c : Char) : ∃ head tail, (escapeChar c).toList = head :: tail ∧ head ≠ '"' := by
  unfold escapeChar
  split
  · exact ⟨'\\', ['t'], rfl, by decide⟩
  · exact ⟨'\\', ['r'], rfl, by decide⟩
  · exact ⟨'\\', ['n'], rfl, by decide⟩
  · exact ⟨'\\', ['\''], rfl, by decide⟩
  · exact ⟨'\\', ['"'], rfl, by decide⟩
  · exact ⟨'\\', ['\\'], rfl, by decide⟩
  · rename_i quote _
    by_cases printable : isPrintable c = true
    · rw [if_pos printable, String.toList_singleton]
      exact ⟨c, [], rfl, quote⟩
    · rw [if_neg printable, String.toList_append, String.toList_append, List.append_assoc]
      exact ⟨'\\', _, rfl, by decide⟩

theorem literal_read (text : String) (rest : List Char) :
    Reader.stringLiteral (literal text ++ ')' :: rest) =
      if ∀ c ∈ text.toList, Kept c then some (text, ')' :: rest) else none := by
  have unopened : Text.after? ['"', '"', '"'] (literal text ++ ')' :: rest) = none := by
    rw [literal, escape_text]
    cases text.toList with
    | nil => rfl
    | cons c others =>
        obtain ⟨head, tail, spelled, other⟩ := escape_char_head c
        rw [List.flatMap_cons, spelled]
        simp [Text.after?, other.symm]
  have given : literal text ++ ')' :: rest = '"' :: ((escape text).toList ++ '"' :: ')' :: rest) := by
    simp [literal]
  rw [given] at unopened ⊢
  rw [Reader.string_literal_eq, Reader.drop_token '"' _ rfl (by decide),
    DocGraph.Reader.or_next _ _ _ (Reader.block_string_stops _ unopened), Reader.quoted_string_eq, escape_text, quoted_escape]
  by_cases kept : ∀ c ∈ text.toList, Kept c
  · rw [if_pos kept, if_pos kept, Option.map_some, Prod.map_apply, String.ofList_toList, id]
  · rw [if_neg kept, if_neg kept, Option.map_none]

inductive DeprecatedMember : InputType → String → String → Prop where
  | field (object : InputObject) (field : InputValue) (listed : field ∈ object.fields) (reason : String)
      (given : field.deprecation = .deprecated (some reason)) :
      DeprecatedMember (.object object) s!"\t{field.name}: {field.type.text}" reason
  | value (enum : InputEnum) (value : EnumValue) (listed : value ∈ enum.values) (reason : String)
      (given : value.deprecation = .deprecated (some reason)) :
      DeprecatedMember (.enum enum) s!"\t{value.name}" reason

def reasonLine (start reason : String) : List Char :=
  (start ++ " @deprecated(reason: ").toList ++ literal reason ++ ")\n".toList

theorem deprecation_text (reason : String) : (deprecation (.deprecated (some reason))).toList =
    " @deprecated(reason: ".toList ++ (literal reason ++ [')']) := by
  have written : deprecation (.deprecated (some reason)) = " @deprecated(reason: \"" ++ escape reason ++ "\")" := rfl
  have opened : " @deprecated(reason: \"".toList = " @deprecated(reason: ".toList ++ ['"'] := by decide
  have closed : "\")".toList = ['"', ')'] := by decide
  rw [written, String.toList_append, String.toList_append, opened, closed, literal]
  simp only [List.append_assoc, List.cons_append, List.nil_append]

theorem deprecation_line (start reason : String) :
    (start ++ deprecation (.deprecated (some reason)) ++ "\n").toList = reasonLine start reason := by
  have ended : ")\n".toList = ')' :: "\n".toList := by decide
  simp only [reasonLine, String.toList_append, deprecation_text, ended, List.append_assoc, List.cons_append, List.nil_append]

theorem infix_block (line : String) (lines : List String) (member : line ∈ lines) :
    line.toList <:+: (block lines).toList := by
  have inside : line.toList <:+: lines.flatMap String.toList := by
    rw [List.flatMap_def]
    exact List.infix_of_mem_flatten (List.mem_map_of_mem member)
  rw [block, String.toList_append, String.toList_append, String.toList_join]
  exact inside.trans (List.infix_append _ _ _)

theorem infix_intercalate (separator item : List Char) (items : List (List Char)) (member : item ∈ items) :
    item <:+: separator.intercalate items := by
  induction items with
  | nil => cases member
  | cons head rest ih =>
      cases rest with
      | nil =>
          cases List.mem_singleton.mp member
          have same : separator.intercalate [item] = item := List.intercalate_singleton
          simp only [same, List.infix_rfl]
      | cons next others =>
          rw [List.intercalate_cons_cons]
          rcases List.mem_cons.mp member with rfl | later
          · rw [List.append_assoc]
            exact (List.prefix_append _ _).isInfix
          · exact (ih later).trans (List.suffix_append _ _).isInfix

theorem deprecated_line (type : InputType) (start reason : String) (member : DeprecatedMember type start reason) :
    reasonLine start reason <:+: (inputType type).toList := by
  have within (line above : String) (lines : List String) (listed : line ∈ lines)
      (spelled : line = above ++ (start ++ deprecation (.deprecated (some reason)) ++ "\n")) :
      reasonLine start reason <:+: (block lines).toList := by
    have inside := infix_block line lines listed
    rw [spelled, String.toList_append, deprecation_line] at inside
    exact (List.suffix_append _ _).isInfix.trans inside
  cases member with
  | field object field listed _ given =>
      have filled : object.fields.isEmpty = false := by
        cases shape : object.fields with
        | nil => rw [shape] at listed; cases listed
        | cons head rest => rfl
      rw [inputType, filled, if_neg Bool.false_ne_true, String.toList_append]
      refine List.IsInfix.trans ?_ (List.suffix_append _ _).isInfix
      refine within (inputValue field) (description "\t" field.description) _ (List.mem_map_of_mem listed) ?_
      simp only [inputValue, given, String.append_assoc]
  | value enum value listed _ given =>
      rw [inputType, String.toList_append]
      refine List.IsInfix.trans ?_ (List.suffix_append _ _).isInfix
      refine within (enumValue value) (description "\t" value.description) _ (List.mem_map_of_mem listed) ?_
      simp only [enumValue, given, String.append_assoc]

theorem deprecated_text (registry : Registry) (key : String) (type : InputType) (entry : (key, type) ∈ registry.entries)
    (start reason : String) (member : DeprecatedMember type start reason) :
    reasonLine start reason <:+: registry.text.toList := by
  rw [Registry.text, String.toList_intercalate, List.map_map]
  exact (deprecated_line type start reason member).trans
    (infix_intercalate _ _ _ (List.mem_map.mpr ⟨(key, type), entry, rfl⟩))

-- The literal of each reason stands on the line of its member, and reads back as the reason exactly if it holds kept
-- characters only. No other literal can be read.
theorem reasons_survive (registry : Registry) (key : String) (type : InputType) (entry : (key, type) ∈ registry.entries)
    (start reason : String) (member : DeprecatedMember type start reason) :
    (start ++ " @deprecated(reason: ").toList ++ literal reason ++ ")\n".toList <:+: registry.text.toList ∧
      ∀ rest, (Reader.stringLiteral (literal reason ++ ')' :: rest) = some (reason, ')' :: rest) ↔
          ∀ c ∈ reason.toList, Kept c) ∧
        (¬ (∀ c ∈ reason.toList, Kept c) → Reader.stringLiteral (literal reason ++ ')' :: rest) = none) := by
  refine ⟨deprecated_text registry key type entry start reason member, fun rest => ?_⟩
  rw [literal_read]
  by_cases kept : ∀ c ∈ reason.toList, Kept c
  · rw [if_pos kept]
    exact ⟨⟨fun _ => kept, fun _ => rfl⟩, fun lost => absurd kept lost⟩
  · rw [if_neg kept]
    exact ⟨⟨nofun, fun all => absurd all kept⟩, fun _ => rfl⟩

theorem quoting_reason_survives :
    let reason := "use \"nick\"\n"
    let field : InputValue := { name := "name", type := ⟨"String"⟩, deprecation := .deprecated (some reason) }
    let registry : Registry := ⟨[("UserSetType", .object { name := "UserSetType", fields := [field] })]⟩
    DeprecatedMember (.object { name := "UserSetType", fields := [field] }) "\tname: String" reason ∧
      (∀ c ∈ reason.toList, Kept c) ∧
      "\tname: String @deprecated(reason: ".toList ++ literal reason ++ ")\n".toList <:+: registry.text.toList ∧
      Reader.stringLiteral (literal reason ++ [')']) = some (reason, [')']) := by
  intro reason field registry
  have member : DeprecatedMember (.object { name := "UserSetType", fields := [field] }) "\tname: String" reason :=
    .field _ field (List.mem_singleton.mpr rfl) reason rfl
  have kept : ∀ c ∈ reason.toList, Kept c := by decide
  obtain ⟨stands, reads⟩ := reasons_survive registry "UserSetType" _ (List.mem_singleton.mpr rfl) _ reason member
  exact ⟨member, kept, stands, (reads []).1.mpr kept⟩

theorem reasons_lost :
    let field (reason : String) : InputValue := { name := "skip", type := ⟨"Int"⟩, deprecation := .deprecated (some reason) }
    let registry (reason : String) : Registry := ⟨[("Page", .object { name := "Page", fields := [field reason] })]⟩
    (registry "don't").text = "input Page \x7b\n\tskip: Int @deprecated(reason: \"don\\'t\")\n\x7d\n" ∧
      (definitionsOfText? (registry "don't").text).isNone = true ∧
      (registry "é").text = "input Page \x7b\n\tskip: Int @deprecated(reason: \"\\u\x7be9\x7d\")\n\x7d\n" ∧
      (definitionsOfText? (registry "é").text).isNone = true ∧
      (definitionsOfText? (registry "dont").text).isSome = true := by
  decide +kernel

end Printer

end DocGraph
