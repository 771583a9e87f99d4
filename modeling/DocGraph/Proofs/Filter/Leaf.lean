import DocGraph.Filter.Leaf
import DocGraph.Proofs.Json.Members
import DocGraph.Proofs.Outcome

set_option autoImplicit false

namespace DocGraph

namespace Members

theorem keys_put_subset (key name : String) (value : Json) (members : Members)
    (member : name ∈ keys (put key value members)) : name = key ∨ name ∈ keys members := by
  rw [keys_put] at member
  split at member
  · exact .inr member
  · simpa [or_comm] using member

theorem keys_put_all_subset (entries members : Members) (name : String)
    (member : name ∈ keys (putAll members entries)) : name ∈ keys members ∨ name ∈ keys entries := by
  induction entries generalizing members with
  | nil => exact .inl member
  | cons entry rest ih =>
      rcases ih (put entry.1 entry.2 members) member with held | later
      · rcases keys_put_subset entry.1 name entry.2 members held with same | old
        · exact .inr (by simp [keys, same])
        · exact .inl old
      · exact .inr (List.mem_cons_of_mem _ later)

theorem keys_of_entries_subset (entries : Members) (name : String) (member : name ∈ keys (ofEntries entries)) :
    name ∈ keys entries := by
  rcases keys_put_all_subset entries [] name member with held | entry
  · simp [keys] at held
  · exact entry

end Members

namespace LeafFilter

open Operator (regex options)

def operandEntries (path : String) (flags : Option Json) (operand : Json) :
    Operator → Except Error Members
  | .options => .ok []
  | .regex => .ok ((regex.native, operand) :: (flags.map (fun value => (options.native, value))).toList)
  | .not => negationEntries path operand
  | operator => .ok [(operator.native, operand)]

theorem operator_entries_cons (path key : String) (flags : Option Json) (operand : Json) (rest entries : Members) :
    operatorEntries path flags ((key, operand) :: rest) = .ok entries ↔
      ∃ operator first others, Operator.ofWord? key = some operator ∧
        operandEntries path flags operand operator = .ok first ∧
        operatorEntries path flags rest = .ok others ∧ first ++ others = entries := by
  rw [operatorEntries]
  cases Operator.ofWord? key with
  | none => simp [except_bind_ok]
  | some operator =>
      cases operator <;> simp [operandEntries, except_bind_ok, pure, Except.pure]

theorem negation_entries_obj (path : String) (negated entries : Members) :
    negationEntries path (.obj negated) = .ok entries ↔
      (∃ pattern expression, (Members.get? regex.word negated).bind Json.nonNull? = some pattern ∧
        regularExpression path pattern negated = .ok expression ∧
        [(Operator.not.native, expression)] = entries) ∨
      ((Members.get? regex.word negated).bind Json.nonNull? = none ∧
        ∃ inner, operatorEntries path (flagsOf negated) negated = .ok inner ∧
          (if inner.isEmpty then [] else [(Operator.not.native, .obj (Members.ofEntries inner))]) = entries) := by
  rw [negationEntries]
  cases (Members.get? regex.word negated).bind Json.nonNull? with
  | none => simp [except_bind_ok, pure, Except.pure]
  | some pattern => simp [except_bind_ok, pure, Except.pure]

theorem negation_entries_key (path : String) (operand : Json) (entries : Members)
    (compiled : negationEntries path operand = .ok entries) :
    ∀ entry ∈ entries, entry.1 = Operator.not.native := by
  cases operand with
  | null =>
      simp only [negationEntries, Except.ok.injEq] at compiled
      simp [← compiled]
  | obj negated =>
      rcases (negation_entries_obj path negated entries).mp compiled with
        ⟨pattern, expression, _, _, written⟩ | ⟨_, inner, _, written⟩
      · simp [← written]
      · rw [← written]
        split <;> simp
  | bool value => simp [negationEntries] at compiled
  | num value => simp [negationEntries] at compiled
  | str value => simp [negationEntries] at compiled
  | arr elements => simp [negationEntries] at compiled

theorem operand_entries_native (path : String) (flags : Option Json) (operand : Json) (operator : Operator)
    (entries : Members) (compiled : operandEntries path flags operand operator = .ok entries) :
    ∀ entry ∈ entries, ∃ native : Operator, entry.1 = native.native := by
  intro entry member
  cases operator with
  | not => exact ⟨.not, negation_entries_key path operand entries compiled entry member⟩
  | options =>
      simp only [operandEntries, Except.ok.injEq] at compiled
      simp [← compiled] at member
  | regex =>
      simp only [operandEntries, Except.ok.injEq] at compiled
      rw [← compiled] at member
      rcases List.mem_cons.mp member with same | flag
      · exact ⟨regex, by rw [same]⟩
      · simp only [Option.mem_toList, Option.map_eq_some_iff] at flag
        obtain ⟨value, _, same⟩ := flag
        exact ⟨options, by rw [← same]⟩
  | _ =>
      simp only [operandEntries, Except.ok.injEq] at compiled
      rw [← compiled, List.mem_singleton] at member
      exact ⟨_, by rw [member]⟩

theorem operator_entries_native (path : String) (flags : Option Json) (filter entries : Members)
    (compiled : operatorEntries path flags filter = .ok entries) :
    ∀ entry ∈ entries, ∃ native : Operator, entry.1 = native.native := by
  induction filter generalizing entries with
  | nil =>
      simp only [operatorEntries, Except.ok.injEq] at compiled
      simp [← compiled]
  | cons member rest ih =>
      rcases member with ⟨key, operand⟩
      obtain ⟨operator, first, others, _, firstOk, othersOk, whole⟩ :=
        (operator_entries_cons path key flags operand rest entries).mp compiled
      intro entry inside
      rw [← whole] at inside
      rcases List.mem_append.mp inside with early | late
      · exact operand_entries_native path flags operand operator first firstOk entry early
      · exact ih others othersOk entry late

theorem document_native (path : String) (filter operators : Members)
    (compiled : (document filter path).result = .ok operators) :
    ∀ key ∈ Members.keys operators, ∃ native : Operator, key = native.native := by
  intro key member
  obtain ⟨modern, _, written⟩ := (Outcome.result_bind _ _ _).mp compiled
  obtain ⟨entries, entriesOk, built⟩ := (except_bind_ok _ _ _).mp written
  simp only [pure, Except.pure, Except.ok.injEq] at built
  rw [← built] at member
  obtain ⟨entry, inside, same⟩ := List.mem_map.mp (Members.keys_of_entries_subset entries key member)
  rw [← same]
  exact operator_entries_native path _ modern entries entriesOk entry inside

def isMixed (negated : Members) : Bool :=
  negated.any (fun entry => !entry.2.isNull && entry.1 != regex.word && entry.1 != options.word)

def flagText? : Option Json → Option String
  | none => some ""
  | some (.str flags) => some (canonicalFlags flags)
  | some _ => none

theorem regular_expression_ok (path : String) (pattern expression : Json) (negated : Members) :
    regularExpression path pattern negated = .ok expression ↔
      isMixed negated = false ∧ ∃ text flags, pattern = .str text ∧ flagText? (flagsOf negated) = some flags ∧
        Json.obj [("$regularExpression", .obj [("pattern", .str text), ("options", .str flags)])] = expression := by
  unfold regularExpression
  by_cases mixed : isMixed negated = true
  · have listed := mixed
    unfold isMixed at listed
    simp [mixed, listed, throw, throwThe, MonadExceptOf.throw, bind, Except.bind]
  · have listed := mixed
    unfold isMixed at listed
    cases pattern with
    | str text =>
        unfold flagsOf
        cases flags : (Members.get? options.word negated).bind Json.nonNull? with
        | none => simp [mixed, listed, flagText?, bind, Except.bind, pure, Except.pure]
        | some value =>
            cases value <;>
              simp [mixed, listed, flagText?, throw, throwThe, MonadExceptOf.throw, bind, Except.bind, pure,
                Except.pure]
    | _ => simp [listed, throw, throwThe, MonadExceptOf.throw]

theorem regular_expression_elsewhere (path other : String) (pattern expression : Json) (negated : Members)
    (compiled : regularExpression path pattern negated = .ok expression) :
    regularExpression other pattern negated = .ok expression :=
  (regular_expression_ok other pattern expression negated).mpr
    ((regular_expression_ok path pattern expression negated).mp compiled)

mutual
theorem negation_entries_elsewhere (path other : String) (operand : Json) (entries : Members)
    (compiled : negationEntries path operand = .ok entries) : negationEntries other operand = .ok entries := by
  cases operand with
  | null => exact compiled
  | obj negated =>
      refine (negation_entries_obj other negated entries).mpr ?_
      rcases (negation_entries_obj path negated entries).mp compiled with
        ⟨pattern, expression, given, expressed, written⟩ | ⟨absent, inner, innerOk, written⟩
      · exact .inl ⟨pattern, expression, given,
          regular_expression_elsewhere path other pattern expression negated expressed, written⟩
      · exact .inr ⟨absent, inner, operator_entries_elsewhere path other _ negated inner innerOk, written⟩
  | bool value => simp [negationEntries] at compiled
  | num value => simp [negationEntries] at compiled
  | str value => simp [negationEntries] at compiled
  | arr elements => simp [negationEntries] at compiled
termination_by structural operand
theorem operator_entries_elsewhere (path other : String) (flags : Option Json) (filter entries : Members)
    (compiled : operatorEntries path flags filter = .ok entries) :
    operatorEntries other flags filter = .ok entries := by
  cases filter with
  | nil => exact compiled
  | cons member rest =>
      rcases member with ⟨key, operand⟩
      obtain ⟨operator, first, others, word, firstOk, othersOk, whole⟩ :=
        (operator_entries_cons path key flags operand rest entries).mp compiled
      refine (operator_entries_cons other key flags operand rest entries).mpr
        ⟨operator, first, others, word, ?_, operator_entries_elsewhere path other flags rest others othersOk, whole⟩
      cases operator with
      | not => exact negation_entries_elsewhere path other operand first firstOk
      | _ => exact firstOk
termination_by structural filter
end

theorem requested_operator_elsewhere (path other : String) (filter : Members) (operator : Option Operator)
    (requested : requestedOperator path filter = .ok operator) :
    requestedOperator other filter = .ok operator := by
  unfold requestedOperator at requested ⊢
  split at requested
  · exact requested
  · split at requested
    · exact requested
    · cases requested
  · cases requested

theorem modern_elsewhere (path other : String) (filter operators : Members)
    (brought : (modern filter path).result = .ok operators) : (modern filter other).result = .ok operators := by
  unfold modern at brought ⊢
  split at brought
  · rename_i deprecated
    rw [if_pos deprecated]
    rw [Outcome.result_bind] at brought ⊢
    obtain ⟨told, raised, rest⟩ := brought
    refine ⟨told, raised, ?_⟩
    rw [Outcome.result_bind] at rest ⊢
    obtain ⟨operator, requested, written⟩ := rest
    exact ⟨operator, requested_operator_elsewhere path other filter operator requested, written⟩
  · rename_i current
    rwa [if_neg current]

theorem document_elsewhere (path other : String) (filter operators : Members)
    (compiled : (document filter path).result = .ok operators) :
    (document filter other).result = .ok operators := by
  unfold document at compiled ⊢
  rw [Outcome.result_bind] at compiled ⊢
  obtain ⟨current, brought, written⟩ := compiled
  refine ⟨current, modern_elsewhere path other filter current brought, ?_⟩
  rw [Outcome.result_lift, modernDocument, except_bind_ok] at written ⊢
  obtain ⟨entries, entriesOk, built⟩ := written
  exact ⟨entries, operator_entries_elsewhere path other _ current entries entriesOk, built⟩

inductive OperatorError (path : String) : Error → Prop where
  | mixed : OperatorError path (.mixedNegation path)
  | operator (key : String) : OperatorError path (.invalidArgument path (.unknownOperator key))
  | negation : OperatorError path (.invalidArgument path .negationNotObject)
  | pattern : OperatorError path (.invalidArgument path .patternNotString)
  | flags : OperatorError path (.invalidArgument path .flagsNotString)

theorem refused_with (errors : Error → Prop) {α : Type} (error : Error) (allowed : errors error) :
    FailsWith errors (.error error : Except Error α) := by
  intro other same
  cases same
  exact allowed

theorem regular_expression_fails (path : String) (pattern : Json) (negated : Members) :
    FailsWith (OperatorError path) (regularExpression path pattern negated) := by
  unfold regularExpression
  dsimp only
  split
  · exact refused_with _ _ .mixed
  · split
    · split
      · exact nofun
      · exact nofun
      · exact refused_with _ _ .flags
    · exact refused_with _ _ .pattern

mutual
theorem negation_entries_fail (path : String) (operand : Json) :
    FailsWith (OperatorError path) (negationEntries path operand) := by
  cases operand with
  | null => exact nofun
  | obj negated =>
      rw [negationEntries]
      split
      · rename_i pattern _
        exact fails_return _ _ _ (regular_expression_fails path pattern negated)
      · exact fails_return _ _ _ (operator_entries_fail path (flagsOf negated) negated)
  | _ => exact refused_with _ _ .negation
termination_by structural operand
theorem operator_entries_fail (path : String) (flags : Option Json) (filter : Members) :
    FailsWith (OperatorError path) (operatorEntries path flags filter) := by
  cases filter with
  | nil => exact nofun
  | cons entry rest =>
      rcases entry with ⟨key, operand⟩
      have later (first : Members) : FailsWith (OperatorError path)
          (operatorEntries path flags rest >>= fun others => pure (first ++ others)) :=
        fails_return _ _ _ (operator_entries_fail path flags rest)
      rw [operatorEntries]
      split
      · exact refused_with _ _ (.operator key)
      · exact later []
      · exact later _
      · exact fails_bind _ _ _ (negation_entries_fail path operand) later
      · exact later _
termination_by structural filter
end

theorem modern_document_fails (path : String) (filter : Members) :
    FailsWith (OperatorError path) (modernDocument filter path) :=
  fails_return _ _ _ (operator_entries_fail path (flagsOf filter) filter)

end LeafFilter

end DocGraph
