import DocGraph.Proofs.Filter.DeprecatedMembers
import DocGraph.Proofs.Json.Assignment

set_option autoImplicit false

namespace DocGraph

theorem Operator.native_injective (a b : Operator) (same : a.native = b.native) : a = b := by
  revert same
  cases a <;> cases b <;> decide

theorem Operator.word_of_read (key : String) (operator : Operator) (read : ofWord? key = some operator) :
    key = operator.word := by
  have named := List.find?_some read
  rw [beq_iff_eq] at named
  exact named.symm

namespace LeafFilter

open Operator (regex options)

theorem mem_insert_flag (flag c : Char) (flags : List Char) : c ∈ insertFlag flag flags ↔ c = flag ∨ c ∈ flags := by
  induction flags with
  | nil => simp [insertFlag]
  | cons held rest ih =>
      unfold insertFlag
      by_cases less : flag < held
      · rw [if_pos less, List.mem_cons]
      · by_cases same : flag = held
        · simp [same]
        · rw [if_neg less, if_neg same, List.mem_cons, ih, List.mem_cons, or_left_comm]

theorem insert_flag_increasing (flag : Char) (flags : List Char) (increasing : flags.Pairwise (· < ·)) :
    (insertFlag flag flags).Pairwise (· < ·) := by
  induction flags with
  | nil => exact List.pairwise_singleton _ _
  | cons held rest ih =>
      have parts := List.pairwise_cons.mp increasing
      unfold insertFlag
      by_cases less : flag < held
      · rw [if_pos less]
        apply List.pairwise_cons.mpr
        refine ⟨?_, increasing⟩
        intro other member
        rcases List.mem_cons.mp member with rfl | later
        · exact less
        · exact Char.lt_trans less (parts.1 other later)
      · by_cases same : flag = held
        · rwa [if_neg less, if_pos same]
        · have greater : held < flag := Std.lt_of_le_of_ne (Char.not_lt.mp less) (Ne.symm same)
          rw [if_neg less, if_neg same]
          apply List.pairwise_cons.mpr
          refine ⟨?_, ih parts.2⟩
          intro other member
          rcases (mem_insert_flag flag other rest).mp member with rfl | later
          · exact greater
          · exact parts.1 other later

theorem canonical_flags_increasing (flags : String) : (canonicalFlags flags).toList.Pairwise (· < ·) := by
  rw [canonicalFlags, String.toList_ofList]
  induction flags.toList with
  | nil => exact .nil
  | cons flag rest ih => exact insert_flag_increasing flag _ ih

theorem mem_canonical_flags (c : Char) (flags : String) : c ∈ (canonicalFlags flags).toList ↔ c ∈ flags.toList := by
  rw [canonicalFlags, String.toList_ofList]
  induction flags.toList with
  | nil => exact Iff.rfl
  | cons flag rest ih => rw [List.foldr_cons, mem_insert_flag, ih, List.mem_cons]

structure Flags (given : Option Json) (flags : String) : Prop where
  text : given = none ∨ given = some .null ∨ ∃ written, given = some (.str written)
  increasing : flags.toList.Pairwise (· < ·)
  same : ∀ flag, flag ∈ flags.toList ↔ ∃ written, given = some (.str written) ∧ flag ∈ written.toList

theorem flags_of_text (given : Option Json) (flags : String) (read : flagText? (given.bind Json.nonNull?) = some flags) :
    Flags given flags := by
  have empty (none' : "" = flags) (unwritten : ∀ written, given ≠ some (.str written))
      (text : given = none ∨ given = some .null ∨ ∃ written, given = some (.str written)) : Flags given flags := by
    subst none'
    exact ⟨text, .nil, fun flag => ⟨nofun, fun ⟨written, same, _⟩ => absurd same (unwritten written)⟩⟩
  cases given with
  | none => exact empty (Option.some.inj read) nofun (.inl rfl)
  | some value =>
      cases value with
      | null => exact empty (Option.some.inj read) nofun (.inr (.inl rfl))
      | str written =>
          cases Option.some.inj read
          refine ⟨.inr (.inr ⟨written, rfl⟩), canonical_flags_increasing written, ?_⟩
          intro flag
          rw [mem_canonical_flags]
          constructor
          · exact fun member => ⟨written, rfl, member⟩
          · rintro ⟨_, same, member⟩
            cases same
            exact member
      | _ => cases read

-- What a compiled filter holds in the place of each `NOT` object of a filter, outermost first, at any nesting.
inductive Negation : Members → Members → Members → Option Json → Prop where
  | outermost (filter compiled negated : Members) (given : Members.get? "NOT" filter = some (.obj negated)) :
      Negation filter compiled negated (Members.get? "$not" compiled)
  | nested (filter compiled outer negated : Members) (native : Option Json)
      (given : Members.get? "NOT" filter = some (.obj outer))
      (inside : Negation outer (Json.heldMembers (Members.get? "$not" compiled)) negated native) :
      Negation filter compiled negated native

-- A `NOT` that says nothing: it holds `OPTIONS` and such a `NOT` at most.
inductive Idle : Json → Prop where
  | object (negated : Members) (words : ∀ key ∈ Members.keys negated, key = "OPTIONS" ∨ key = "NOT")
      (inner : ∀ operand, ("NOT", operand) ∈ negated → Idle operand) : Idle (.obj negated)

inductive Entries (flags : Option Json) : Members → Members → Prop where
  | nil : Entries flags [] []
  | modifiers (operand : Json) (rest entries : Members) (others : Entries flags rest entries) :
      Entries flags (("OPTIONS", operand) :: rest) entries
  | operand (operator : Operator) (operand : Json) (plain : operator ∉ [regex, options, .not]) (rest entries : Members)
      (others : Entries flags rest entries) :
      Entries flags ((operator.word, operand) :: rest) ((operator.native, operand) :: entries)
  /-- A null pattern carries the modifiers along. -/
  | pattern (rest entries : Members) (others : Entries flags rest entries) :
      Entries flags (("REGEX", .null) :: rest)
        (("$regex", .null) :: (flags.map (fun value => ("$options", value))).toList ++ entries)
  | absent (rest entries : Members) (others : Entries flags rest entries) :
      Entries flags (("NOT", .null) :: rest) (("$not", .null) :: entries)
  | negation (negated : Members) (native : Json) (speaks : ¬ Idle (.obj negated)) (rest entries : Members)
      (others : Entries flags rest entries) :
      Entries flags (("NOT", .obj negated) :: rest) (("$not", native) :: entries)
  | idle (negation : Json) (silent : Idle negation) (rest entries : Members) (others : Entries flags rest entries) :
      Entries flags (("NOT", negation) :: rest) entries

theorem idle_object (negated : Members) :
    Idle (.obj negated) ↔
      ∀ key operand, (key, operand) ∈ negated → key = "OPTIONS" ∨ key = "NOT" ∧ Idle operand := by
  constructor
  · rintro ⟨_, words, inner⟩ key operand member
    rcases words key (Members.mem_keys_of_mem key operand negated member) with rfl | rfl
    · exact .inl rfl
    · exact .inr ⟨rfl, inner operand member⟩
  · intro each
    refine .object negated (fun key listed => ?_) (fun operand member => ?_)
    · obtain ⟨operand, member⟩ := Members.exists_of_mem_keys key negated listed
      exact (each key operand member).imp_right And.left
    · rcases each "NOT" operand member with word | ⟨_, silent⟩
      · exact absurd word (by decide)
      · exact silent

theorem operand_entries_nil (path : String) (flags : Option Json) (operand : Json) (operator : Operator)
    (first : Members) (compiled : operandEntries path flags operand operator = .ok first) :
    first = [] ↔ operator = options ∨ operator = .not ∧ negationEntries path operand = .ok [] := by
  cases operator with
  | not =>
      change negationEntries path operand = .ok first at compiled
      simp [compiled]
  | _ =>
      cases Except.ok.inj compiled
      simp

mutual
theorem negation_idle (path : String) (operand : Json) (entries : Members)
    (compiled : negationEntries path operand = .ok entries) : entries = [] ↔ Idle operand := by
  cases operand with
  | null =>
      cases Except.ok.inj compiled
      exact ⟨nofun, nofun⟩
  | obj negated =>
      rcases (negation_entries_obj path negated entries).mp compiled with
        ⟨pattern, expression, given, _, written⟩ | ⟨_, inner, innerOk, written⟩
      · obtain ⟨held, found, _⟩ := Option.bind_eq_some_iff.mp given
        have listed := Members.mem_of_get? _ held negated found
        rw [← written, idle_object]
        refine ⟨nofun, fun each => ?_⟩
        rcases each _ _ listed with word | ⟨word, _⟩ <;> exact absurd word (by decide)
      · rw [idle_object, ← operators_idle path _ negated inner innerOk, ← written]
        cases inner <;> simp
  | _ => cases compiled
termination_by structural operand
theorem operators_idle (path : String) (flags : Option Json) (filter entries : Members)
    (compiled : operatorEntries path flags filter = .ok entries) :
    entries = [] ↔ ∀ key operand, (key, operand) ∈ filter → key = "OPTIONS" ∨ key = "NOT" ∧ Idle operand := by
  cases filter with
  | nil =>
      cases Except.ok.inj compiled
      exact ⟨fun _ _ _ none => (nomatch none), fun _ => rfl⟩
  | cons member rest =>
      rcases member with ⟨key, operand⟩
      obtain ⟨operator, first, others, read, firstOk, othersOk, whole⟩ :=
        (operator_entries_cons path key flags operand rest entries).mp compiled
      have later := operators_idle path flags rest others othersOk
      have here : first = [] ↔ key = "OPTIONS" ∨ key = "NOT" ∧ Idle operand := by
        rw [operand_entries_nil path flags operand operator first firstOk, Operator.word_of_read key operator read]
        cases operator with
        | not =>
            change negationEntries path operand = .ok first at firstOk
            rw [← negation_idle path operand first firstOk, firstOk]
            simp [Operator.word]
        | _ => simp [Operator.word]
      rw [← whole, List.append_eq_nil_iff, here, later]
      constructor
      · rintro ⟨head, tail⟩ name value member
        rcases List.mem_cons.mp member with same | behind
        · cases same
          exact head
        · exact tail name value behind
      · intro each
        exact ⟨each key operand (List.mem_cons_self ..),
          fun name value behind => each name value (List.mem_cons_of_mem _ behind)⟩
termination_by structural filter
end

theorem operators_entries (path : String) (flags : Option Json) (filter entries : Members)
    (compiled : operatorEntries path flags filter = .ok entries)
    (plain : ∀ operand, ("REGEX", operand) ∈ filter → operand = .null) : Entries flags filter entries := by
  induction filter generalizing entries with
  | nil =>
      cases Except.ok.inj compiled
      exact .nil
  | cons member rest ih =>
      rcases member with ⟨key, operand⟩
      obtain ⟨operator, first, others, read, firstOk, othersOk, whole⟩ :=
        (operator_entries_cons path key flags operand rest entries).mp compiled
      have later := ih others othersOk (fun value listed => plain value (List.mem_cons_of_mem _ listed))
      have word := Operator.word_of_read key operator read
      subst word whole
      cases operator with
      | options =>
          cases Except.ok.inj firstOk
          exact .modifiers operand rest others later
      | regex =>
          have null := plain operand (List.mem_cons_self ..)
          subst null
          cases Except.ok.inj firstOk
          exact .pattern rest others later
      | not =>
          change negationEntries path operand = .ok first at firstOk
          have silent := negation_idle path operand first firstOk
          by_cases nothing : first = []
          · subst nothing
            exact .idle operand (silent.mp rfl) rest others later
          · cases operand with
            | null =>
                cases Except.ok.inj firstOk
                exact .absent rest others later
            | obj negated =>
                obtain ⟨native, rfl⟩ : ∃ native, first = [("$not", native)] := by
                  rcases (negation_entries_obj path negated first).mp firstOk with
                    ⟨_, expression, _, _, written⟩ | ⟨_, inner, _, written⟩
                  · exact ⟨expression, written.symm⟩
                  · split at written
                    · exact absurd written.symm nothing
                    · exact ⟨_, written.symm⟩
                exact .negation negated native (fun idle => nothing (silent.mpr idle)) rest others later
            | _ => cases firstOk
      | _ =>
          cases Except.ok.inj firstOk
          exact .operand _ operand (by decide) rest others later

theorem operand_entries_keys (path : String) (flags : Option Json) (operand : Json) (operator : Operator)
    (first : Members) (compiled : operandEntries path flags operand operator = .ok first) :
    (Members.keys first).Nodup ∧ ∀ key ∈ Members.keys first,
      operator ≠ options ∧ (key = operator.native ∨ operator = regex ∧ key = options.native) := by
  cases operator with
  | not =>
      have named := negation_entries_key path operand first compiled
      have single : first.length ≤ 1 := by
        cases operand with
        | null =>
            cases Except.ok.inj compiled
            exact Nat.le_refl 1
        | obj negated =>
            rcases (negation_entries_obj path negated first).mp compiled with
              ⟨_, _, _, _, written⟩ | ⟨_, inner, _, written⟩
            · exact written ▸ Nat.le_refl 1
            · rw [← written]
              split
              · exact Nat.zero_le 1
              · exact Nat.le_refl 1
        | _ => cases compiled
      constructor
      · match first, single with
        | [], _ => exact .nil
        | [entry], _ => exact List.pairwise_singleton _ _
      · intro key listed
        obtain ⟨entry, member, rfl⟩ := List.mem_map.mp listed
        exact ⟨nofun, .inl (named entry member)⟩
  | options =>
      cases Except.ok.inj compiled
      exact ⟨.nil, fun _ none => (nomatch none)⟩
  | regex =>
      cases Except.ok.inj compiled
      cases flags <;> simp [Members.keys, Operator.native]
  | _ =>
      cases Except.ok.inj compiled
      simp [Members.keys]

theorem operator_entries_keys (path : String) (flags : Option Json) (filter entries : Members)
    (compiled : operatorEntries path flags filter = .ok entries) (unique : (Members.keys filter).Nodup) :
    (Members.keys entries).Nodup ∧ ∀ key ∈ Members.keys entries, ∃ operator : Operator,
      operator.word ∈ Members.keys filter ∧ operator ≠ options ∧
        (key = operator.native ∨ operator = regex ∧ key = options.native) := by
  induction filter generalizing entries with
  | nil =>
      cases Except.ok.inj compiled
      exact ⟨.nil, fun _ none => (nomatch none)⟩
  | cons member rest ih =>
      rcases member with ⟨key, operand⟩
      obtain ⟨operator, first, others, read, firstOk, othersOk, whole⟩ :=
        (operator_entries_cons path key flags operand rest entries).mp compiled
      have parts := List.nodup_cons.mp unique
      obtain ⟨othersApart, othersNamed⟩ := ih others othersOk parts.2
      obtain ⟨firstApart, firstNamed⟩ := operand_entries_keys path flags operand operator first firstOk
      have word := Operator.word_of_read key operator read
      subst word whole
      rw [Members.keys_append]
      constructor
      · apply List.nodup_append.mpr
        refine ⟨firstApart, othersApart, ?_⟩
        rintro name here other there rfl
        obtain ⟨mine, same⟩ := firstNamed name here
        obtain ⟨owner, listed, theirs, again⟩ := othersNamed name there
        -- Two operators share a native key only if they are one.
        have one : operator = owner := by
          rcases same with same | ⟨rfl, same⟩ <;> rcases again with again | ⟨rfl, again⟩
          · exact Operator.native_injective _ _ (same.symm.trans again)
          · exact absurd (Operator.native_injective _ _ (same.symm.trans again)) mine
          · exact absurd (Operator.native_injective _ _ (again.symm.trans same)) theirs
          · rfl
        exact parts.1 (one ▸ listed)
      · intro name listed
        rcases List.mem_append.mp listed with here | there
        · exact ⟨operator, List.mem_cons_self .., firstNamed name here⟩
        · obtain ⟨owner, among, named⟩ := othersNamed name there
          exact ⟨owner, List.mem_cons_of_mem _ among, named⟩

theorem operator_entries_not (path : String) (flags : Option Json) (filter entries : Members) (operand : Json)
    (compiled : operatorEntries path flags filter = .ok entries) (unique : (Members.keys filter).Nodup)
    (given : Members.get? "NOT" filter = some operand) :
    ∃ first, negationEntries path operand = .ok first ∧ Members.get? "$not" entries = Members.get? "$not" first := by
  induction filter generalizing entries with
  | nil => cases given
  | cons member rest ih =>
      rcases member with ⟨key, value⟩
      obtain ⟨operator, first, others, read, firstOk, othersOk, whole⟩ :=
        (operator_entries_cons path key flags value rest entries).mp compiled
      have parts := List.nodup_cons.mp unique
      obtain ⟨_, firstNamed⟩ := operand_entries_keys path flags value operator first firstOk
      obtain ⟨_, othersNamed⟩ := operator_entries_keys path flags rest others othersOk parts.2
      have word := Operator.word_of_read key operator read
      have owned (owner : Operator) (key : String)
          (named : key = owner.native ∨ owner = regex ∧ key = options.native) (not : key = "$not") : owner = .not := by
        subst not
        rcases named with same | ⟨_, same⟩
        · exact Operator.native_injective _ _ same.symm
        · exact absurd same (by decide)
      subst word whole
      rw [Members.get?_append]
      by_cases here : operator = .not
      · subst here
        simp only [Members.get?, Operator.word, if_pos, Option.some.injEq] at given
        subst given
        have silent : Members.get? "$not" others = none := by
          rw [Members.get?_eq_none]
          intro listed
          obtain ⟨owner, among, _, named⟩ := othersNamed _ listed
          exact parts.1 (owned owner _ named rfl ▸ among)
        exact ⟨first, firstOk, by rw [silent, Option.or_none]⟩
      · have other : operator.word ≠ "NOT" := by
          intro same
          cases operator <;> first | exact here rfl | exact absurd same (by decide)
        have silent : Members.get? "$not" first = none := by
          rw [Members.get?_eq_none]
          exact fun listed => here (owned operator _ (firstNamed _ listed).2 rfl)
        rw [Members.get?, if_neg other] at given
        rw [silent, Option.none_or]
        exact ih others othersOk parts.2 given

theorem not_compiled (path : String) (filter compiled : Members) (operand : Json) (apart : (Members.keys filter).Nodup)
    (compiles : modernDocument filter path = .ok compiled) (given : Members.get? "NOT" filter = some operand) :
    ∃ first, negationEntries path operand = .ok first ∧
      Members.get? "$not" compiled = Members.get? "$not" first := by
  obtain ⟨entries, entriesOk, built⟩ := (except_bind_ok _ _ _).mp compiles
  cases Except.ok.inj built
  have separate := (operator_entries_keys path _ filter entries entriesOk apart).1
  rw [Members.of_entries_unique entries separate]
  exact operator_entries_not path _ filter entries operand entriesOk apart given

theorem negation_compiled (path : String) (filter compiled negated : Members) (native : Option Json)
    (negation : Negation filter compiled negated native) (apart : (Members.keys filter).Nodup)
    (unique : ∀ operand, Members.get? "NOT" filter = some operand → operand.UniqueKeys)
    (compiles : modernDocument filter path = .ok compiled) :
    (Members.keys negated).Nodup ∧ ∃ first, negationEntries path (.obj negated) = .ok first ∧
      native = Members.get? "$not" first := by
  induction negation with
  | outermost filter compiled negated given =>
      exact ⟨(unique _ given).1, not_compiled path filter compiled _ apart compiles given⟩
  | nested filter compiled outer negated native given inside ih =>
      obtain ⟨first, firstOk, same⟩ := not_compiled path filter compiled _ apart compiles given
      have within := unique _ given
      apply ih within.1
      · exact fun operand found => Json.members_unique_mem outer _ _ within.2 (Members.mem_of_get? _ _ outer found)
      · rw [same]
        rcases (negation_entries_obj path outer first).mp firstOk with
          ⟨pattern, expression, _, expressed, _⟩ | ⟨_, inner, innerOk, written⟩
        · -- Beside a pattern there is no other `NOT` object.
          obtain ⟨unmixed, _⟩ := (regular_expression_ok path pattern expression outer).mp expressed
          obtain ⟨deeper, below⟩ : ∃ deeper, Members.get? "NOT" outer = some (.obj deeper) := by
            cases inside with
            | outermost _ _ _ found => exact ⟨_, found⟩
            | nested _ _ _ _ _ found _ => exact ⟨_, found⟩
          have quiet := List.any_eq_false.mp unmixed _ (Members.mem_of_get? _ _ outer below)
          exact absurd rfl quiet
        · rw [modernDocument, innerOk, ← written]
          cases inner <;> rfl

theorem current_unique (filter : Members) (unique : (Members.keys filter).Nodup) :
    (Members.keys (current filter)).Nodup := by
  -- A member keeps its key, unless `NE` takes the place of `NEQ`, and then there was no other `NE`.
  have kept (entry : String × Json) (key : String)
      (brought : Option.map Prod.fst (if entry.1 = "NEQ" then
        if "NE" ∈ Members.keys filter then none else some ("NE", entry.2)
        else if isDeprecatedKey entry.1 then none else some entry) = some key) :
      entry.1 = key ∨ entry.1 = "NEQ" ∧ key = "NE" ∧ "NE" ∉ Members.keys filter := by
    by_cases unequal : entry.1 = "NEQ"
    · by_cases given : "NE" ∈ Members.keys filter
      · simp [unequal, given] at brought
      · rw [if_pos unequal, if_neg given] at brought
        exact .inr ⟨unequal, (Option.some.inj brought).symm, given⟩
    · rw [if_neg unequal] at brought
      by_cases old : isDeprecatedKey entry.1 = true
      · simp [old] at brought
      · rw [if_neg old] at brought
        exact .inl (Option.some.inj brought)
  rw [current, Members.keys, List.map_filterMap]
  apply List.pairwise_filterMap.mpr
  apply (List.pairwise_map.mp unique).imp_of_mem
  rintro a b first second apart key one other again rfl
  rcases kept a key one with same | ⟨mine, word, free⟩ <;> rcases kept b key again with others | ⟨theirs, other, absent⟩
  · exact apart (same.trans others.symm)
  · exact absent (other ▸ same ▸ List.mem_map_of_mem first)
  · exact free (word ▸ others ▸ List.mem_map_of_mem second)
  · exact apart (mine.trans theirs.symm)

theorem modern_form_not (filter modern : Members) (form : ModernForm filter modern)
    (unique : (Members.keys filter).Nodup) :
    Members.get? "NOT" modern = Members.get? "NOT" filter ∧ (Members.keys modern).Nodup := by
  have kept : Members.get? "NOT" (current filter) = Members.get? "NOT" filter := by
    rw [← renamed_current]
    exact renamed_keeps_found _ filter "NOT" (by decide) (fun word => absurd word (by decide))
  have apart := current_unique filter unique
  cases form with
  | kept _ => exact ⟨kept, apart⟩
  | joined operator operand asks free =>
      obtain ⟨_, deprecated, _, _, leaf⟩ := asks.named
      have other : operator.word ≠ "NOT" := by
        subst leaf
        cases deprecated <;> decide
      constructor
      · rw [Members.get?_append, kept, Members.get?, if_neg other]
        exact Option.or_none
      · rw [Members.keys_append]
        apply List.nodup_append.mpr
        refine ⟨apart, List.pairwise_singleton _ _, ?_⟩
        rintro key listed _ same rfl
        exact free ((List.mem_singleton.mp same : key = operator.word) ▸ listed)

theorem negation_congr (filter other compiled negated : Members) (native : Option Json)
    (same : Members.get? "NOT" other = Members.get? "NOT" filter) (negation : Negation filter compiled negated native) :
    Negation other compiled negated native := by
  cases negation with
  | outermost _ _ _ given => exact .outermost other compiled negated (same.trans given)
  | nested _ _ outer _ _ given inside => exact .nested other compiled outer negated native (same.trans given) inside

def expression (pattern flags : String) : Json :=
  .obj [("$regularExpression", .obj [("pattern", .str pattern), ("options", .str flags)])]

theorem document_negation (path : String) (filter compiled negated : Members) (native : Option Json)
    (unique : Json.UniqueKeys (.obj filter)) (compiles : (document filter path).result = .ok compiled)
    (negation : Negation filter compiled negated native) :
    (Members.keys negated).Nodup ∧ ∃ first, negationEntries path (.obj negated) = .ok first ∧
      native = Members.get? "$not" first := by
  have sane (fault : Fault) : ¬ OprFault filter fault := by
    intro wrong
    rw [document_result, opr_fault_requested path filter fault wrong] at compiles
    cases compiles
  obtain ⟨modern, form, same⟩ := document_modern_form path filter sane
  rw [same, document_modern path modern (modern_form_key filter modern form)] at compiles
  obtain ⟨found, apart⟩ := modern_form_not filter modern form unique.1
  refine negation_compiled path modern compiled negated native
    (negation_congr filter modern compiled negated native found negation) apart ?_ compiles
  intro operand given
  exact Json.members_unique_mem filter _ _ unique.2 (Members.mem_of_get? _ _ filter (found ▸ given))

theorem negations_keep_operators (path : String) (filter compiled : Members) (unique : Json.UniqueKeys (.obj filter))
    (compiles : (document filter path).result = .ok compiled) (negated : Members) (native : Option Json)
    (negation : Negation filter compiled negated native) :
    (∀ pattern, Members.get? "REGEX" negated = some pattern → pattern ≠ .null →
      (∀ key operand, (key, operand) ∈ negated → operand ≠ .null → key = "REGEX" ∨ key = "OPTIONS") ∧
      ∃ text flags, pattern = .str text ∧ Flags (Members.get? "OPTIONS" negated) flags ∧
        native = some (expression text flags)) ∧
    ((∀ pattern, Members.get? "REGEX" negated = some pattern → pattern = .null) →
      ∃ entries, Entries (flagsOf negated) negated entries ∧ (Members.keys entries).Nodup ∧
        (entries = [] ∧ native = none ∨ entries ≠ [] ∧ native = some (.obj entries))) := by
  obtain ⟨apart, first, firstOk, rfl⟩ := document_negation path filter compiled negated native unique compiles negation
  rcases (negation_entries_obj path negated first).mp firstOk with
    ⟨pattern, expression, given, expressed, written⟩ | ⟨absent, inner, innerOk, written⟩
  · obtain ⟨held, found, present⟩ := Option.bind_eq_some_iff.mp given
    obtain ⟨rfl, filled⟩ := (non_null_iff held pattern).mp present
    obtain ⟨unmixed, text, flags, rfl, read, rfl⟩ := (regular_expression_ok path _ _ negated).mp expressed
    constructor
    · intro pattern again _
      cases again.symm.trans found
      constructor
      · intro key operand member speaks
        have quiet := List.any_eq_false.mp unmixed (key, operand) member
        cases operand with
        | null => exact absurd rfl speaks
        | _ => simpa [Json.isNull, Operator.word, or_iff_not_imp_left] using quiet
      · exact ⟨text, flags, rfl, flags_of_text _ flags read, written ▸ rfl⟩
    · exact fun null => absurd (null _ found) filled
  · have null (pattern : Json) (found : Members.get? "REGEX" negated = some pattern) : pattern = .null := by
      by_contra filled
      have given := Option.bind_eq_none_iff.mp absent pattern found
      cases pattern with
      | null => exact filled rfl
      | _ => cases given
    constructor
    · exact fun pattern found filled => absurd (null pattern found) filled
    · intro _
      refine ⟨inner, operators_entries path _ negated inner innerOk ?_,
        (operator_entries_keys path _ negated inner innerOk apart).1, ?_⟩
      · exact fun operand member => null operand (Members.get?_of_mem _ operand negated apart member)
      · have separate := (operator_entries_keys path _ negated inner innerOk apart).1
        rw [← written, Members.of_entries_unique inner separate]
        cases inner with
        | nil => exact .inl ⟨rfl, rfl⟩
        | cons entry rest => exact .inr ⟨List.cons_ne_nil entry rest, rfl⟩

theorem nested_negations_kept :
    let inner : Members := [("REGEX", .str "x"), ("OPTIONS", .str "mim")]
    let outer : Members := [("EQ", .null), ("NOT", .obj inner), ("NIN", .arr [])]
    let filter : Members := [("GT", .int 1), ("NOT", .obj outer)]
    let native : Members := [("$eq", .null), ("$not", expression "x" "im"), ("$nin", .arr [])]
    Json.UniqueKeys (.obj filter) ∧
      (document filter "name").result = .ok [("$gt", .int 1), ("$not", .obj native)] ∧
      (∃ entries, Entries none outer entries ∧ (Members.keys entries).Nodup ∧
        (entries = [] ∧ some (Json.obj native) = none ∨ entries ≠ [] ∧ some (Json.obj native) = some (.obj entries))) ∧
      ∃ text flags, Json.str "x" = .str text ∧ Flags (some (.str "mim")) flags ∧
        some (expression "x" "im") = some (expression text flags) := by
  intro inner outer filter native
  have unique : Json.UniqueKeys (.obj filter) := by
    simp [filter, outer, inner, Json.UniqueKeys, Json.MembersUnique, Json.ElementsUnique, Members.keys, Json.int]
  have compiles : (document filter "name").result = .ok [("$gt", .int 1), ("$not", .obj native)] := rfl
  have outside := negations_keep_operators "name" filter _ unique compiles outer _ (.outermost filter _ outer rfl)
  have inside := negations_keep_operators "name" filter _ unique compiles inner _
    (.nested filter _ outer inner _ rfl (.outermost outer native inner rfl))
  have unmatched : Members.get? "REGEX" outer = none := rfl
  refine ⟨unique, compiles, outside.2 (by simp [unmatched]), ?_⟩
  exact (inside.1 (.str "x") rfl (by simp)).2

-- The comparison with null leaves no trace.
theorem null_beside_pattern_dropped :
    (document [("NOT", .obj [("REGEX", .str "x"), ("EQ", .null)])] "name").result =
      .ok [("$not", expression "x" "")] := rfl

end LeafFilter

end DocGraph
